import PolicyBundle.Log.Traced

/-! What becomes of an attempt does not depend on what is told on the way, and what each step of a
sequence keeps, the whole of it keeps. -/

namespace PolicyBundle.Log

variable {α β ε δ : Type}

@[simp] theorem mapError_ok (f : ε → δ) (x : α) : (Except.ok x).mapError f = .ok x := rfl

@[simp] theorem mapError_error (f : ε → δ) (e : ε) :
    (Except.error e : Except ε α).mapError f = .error (f e) := rfl

theorem mapError_eq_ok_iff {f : ε → δ} {result : Except ε α} {x : α} :
    result.mapError f = .ok x ↔ result = .ok x := by
  cases result <;> simp

theorem mapError_eq_ok {f : ε → δ} {result : Except ε α} {x : α}
    (h : result.mapError f = .ok x) : result = .ok x :=
  mapError_eq_ok_iff.mp h

theorem map_eq_ok_iff {f : α → β} {result : Except ε α} {y : β} :
    result.map f = .ok y ↔ ∃ x, result = .ok x ∧ f x = y := by
  cases result <;> simp [Except.map]

theorem toOption_eq_some_iff {result : Except ε α} {x : α} :
    result.toOption = some x ↔ result = .ok x := by
  cases result <;> simp [Except.toOption]

/-- A sequence succeeds if its steps do. -/
theorem bind_eq_ok_iff {first : Except ε α} {next : α → Except ε β} {y : β} :
    first.bind next = .ok y ↔ ∃ x, first = .ok x ∧ next x = .ok y := by
  cases first with
  | error e => simp [Except.bind]
  | ok x => simp [Except.bind]

theorem bind_eq_ok {first : Except ε α} {next : α → Except ε β} {y : β}
    (h : first >>= next = .ok y) : ∃ x, first = .ok x ∧ next x = .ok y :=
  bind_eq_ok_iff.mp h

/-- Whatever goes wrong is of a kind. -/
def FailsWith (kind : ε → Prop) (result : Except ε α) : Prop :=
  ∀ e, result = .error e → kind e

section Failing

variable {kind : ε → Prop} {result : Except ε α}

theorem failsWith_ok (x : α) : FailsWith kind (.ok x) :=
  nofun

theorem failsWith_error {e : ε} (h : kind e) : FailsWith kind (.error e : Except ε α) := by
  rintro _ ⟨⟩
  exact h

theorem FailsWith.bind (h : FailsWith kind result) {next : α → Except ε β}
    (hNext : ∀ x, FailsWith kind (next x)) : FailsWith kind (result.bind next) := by
  cases result with
  | error e => exact failsWith_error (h e rfl)
  | ok x => exact hNext x

theorem FailsWith.map (h : FailsWith kind result) (f : α → β) : FailsWith kind (result.map f) := by
  cases result with
  | error e => exact failsWith_error (h e rfl)
  | ok x => exact failsWith_ok (f x)

theorem failsWith_mapError {kind : δ → Prop} {f : ε → δ} (h : ∀ e, kind (f e))
    (result : Except ε α) : FailsWith kind (result.mapError f) := by
  cases result with
  | error e => exact failsWith_error (h e)
  | ok x => exact failsWith_ok x

theorem failsWith_mapM {step : β → Except ε α} (h : ∀ y, FailsWith kind (step y)) (items : List β) :
    FailsWith kind (items.mapM step) := by
  induction items with
  | nil => exact failsWith_ok []
  | cons y items ih =>
      rw [List.mapM_cons]
      exact (h y).bind fun first => ih.bind fun rest => failsWith_ok (first :: rest)

end Failing

/-- What every step that succeeds keeps, a run of them keeps. -/
theorem foldlM_invariant {σ : Type} {step : σ → α → Except ε σ} {motive : σ → Prop}
    {items : List α} {first last : σ} (hFirst : motive first)
    (hStep : ∀ x ∈ items, ∀ s next, motive s → step s x = .ok next → motive next)
    (h : items.foldlM step first = .ok last) : motive last := by
  induction items generalizing first with
  | nil =>
      obtain rfl := Except.ok.inj h
      exact hFirst
  | cons x items ih =>
      rw [List.foldlM_cons] at h
      obtain ⟨middle, hMiddle, h⟩ := bind_eq_ok h
      exact ih (hStep x List.mem_cons_self first middle hFirst hMiddle)
        (fun y hy => hStep y (List.mem_cons_of_mem _ hy)) h

namespace Attempt

@[simp] theorem value_pure (x : α) : (pure x : Attempt ε α).outcome.value = .ok x := rfl

@[simp] theorem value_throw (e : ε) : (throw e : Attempt ε α).outcome.value = .error e := rfl

@[simp] theorem value_bind (attempt : Attempt ε α) (next : α → Attempt ε β) :
    (attempt >>= next).outcome.value =
      attempt.outcome.value.bind fun x => (next x).outcome.value := by
  simp only [outcome, ExceptT.run_bind, Traced.value_bind]
  cases hValue : (ExceptT.run attempt).value <;> rfl

@[simp] theorem value_quiet (result : Except ε α) : (quiet result).outcome.value = result := rfl

@[simp] theorem value_mapError (f : ε → δ) (attempt : Attempt ε α) :
    (attempt.mapError f).outcome.value = attempt.outcome.value.mapError f := rfl

@[simp] theorem value_lift (traced : Traced α) :
    (liftM traced : Attempt ε α).outcome.value = .ok traced.value := rfl

theorem value_foldlM {σ : Type} (step : σ → α → Attempt ε σ) (result : σ → α → Except ε σ)
    (h : ∀ s x, (step s x).outcome.value = result s x) (s : σ) (items : List α) :
    (items.foldlM step s).outcome.value = items.foldlM result s := by
  induction items generalizing s with
  | nil => rfl
  | cons x items ih =>
      rw [List.foldlM_cons, List.foldlM_cons, value_bind, h]
      cases result s x with
      | error e => rfl
      | ok next => exact ih next

section Events

variable {attempt : Attempt ε α} {told : List Event}

theorem outcome_pure (x : α) : (pure x : Attempt ε α).outcome = ⟨[], .ok x⟩ := rfl

/-- A step that succeeds is followed by the next one. -/
theorem outcome_bind_ok {x : α} (h : attempt.outcome = ⟨told, .ok x⟩) (next : α → Attempt ε β) :
    (attempt >>= next).outcome =
      ⟨told ++ (next x).outcome.events, (next x).outcome.value⟩ := by
  have hRun : ExceptT.run attempt = ⟨told, .ok x⟩ := h
  rw [outcome, ExceptT.run_bind, hRun]
  rfl

/-- A step that fails is the last one. -/
theorem outcome_bind_error {e : ε} (h : attempt.outcome = ⟨told, .error e⟩)
    (next : α → Attempt ε β) : (attempt >>= next).outcome = ⟨told, .error e⟩ := by
  have hRun : ExceptT.run attempt = ⟨told, .error e⟩ := h
  rw [outcome, ExceptT.run_bind, hRun]
  simp [bind, pure]

theorem outcome_mapError {result : Except ε α} (h : attempt.outcome = ⟨told, result⟩)
    (f : ε → δ) : (attempt.mapError f).outcome = ⟨told, result.mapError f⟩ := by
  rw [mapError, h]
  rfl

theorem outcome_lift (traced : Traced α) :
    (liftM traced : Attempt ε α).outcome = ⟨traced.events, .ok traced.value⟩ := by
  have hRun : (liftM traced : Attempt ε α).outcome = traced >>= fun x => pure (.ok x) := rfl
  rw [hRun]
  simp [bind, pure]

end Events

end Attempt

end PolicyBundle.Log
