import Mathlib.Data.List.Forall2
import PolicyBundle.Proofs.Build.Collecting
import PolicyBundle.Proofs.Build.Compiling

/-! Which entrypoints a build resolves. Those that are asked for are looked up one after the other, and
the first one that leads nowhere is the error. What is found comes in the order in which it is met, and
how an entrypoint is spelled does not matter. -/

namespace PolicyBundle.Build

open Log Policy

/-- An entrypoint leads to a decision of some modules: its path is not empty, and it begins the path of
a package or of a rule, segment by segment. -/
def LeadsToDecision (modules : List Module) (entrypoint : String) : Prop :=
  normalizeEntrypoint entrypoint ≠ "" ∧ ∃ m ∈ modules, ∃ path ∈ m.package :: m.rulePaths,
    Text.split '.' (normalizeEntrypoint entrypoint) <+: Text.split '.' path

theorem leadsToDecision_iff {modules : List Module} {entrypoint : String} :
    LeadsToDecision modules entrypoint ↔
      ((normalizeEntrypoint entrypoint).isEmpty ||
        !refersToDecision modules (normalizeEntrypoint entrypoint)) = false := by
  simp only [LeadsToDecision, refersToDecision, ← isWithin_iff, List.exists_mem_cons_iff,
    Bool.or_eq_false_iff, Bool.not_eq_false', List.any_eq_true, Bool.or_eq_true, ne_eq,
    ← String.isEmpty_iff, Bool.not_eq_true]

instance {modules : List Module} {entrypoint : String} :
    Decidable (LeadsToDecision modules entrypoint) :=
  decidable_of_iff _ leadsToDecision_iff.symm

section Requests

variable {modules : List Module}

theorem request_of_leadsToDecision {paths : List String} {entrypoint : String}
    (h : LeadsToDecision modules entrypoint) :
    request modules paths entrypoint = .ok (addOnce paths (normalizeEntrypoint entrypoint)) := by
  obtain ⟨hSome, hRefers⟩ := Bool.or_eq_false_iff.mp (leadsToDecision_iff.mp h)
  exact request_eq_ok_iff.mpr ⟨hSome, by simpa using hRefers, rfl⟩

theorem request_of_not_leadsToDecision {paths : List String} {entrypoint : String}
    (h : ¬LeadsToDecision modules entrypoint) :
    request modules paths entrypoint = .error (.unknownEntrypoint entrypoint) := by
  rw [leadsToDecision_iff, Bool.not_eq_false] at h
  simp only [request, h, if_true]

/-- The entrypoints that are asked for are found, or the first one that is not is the error. -/
theorem foldlM_request (names start : List String) :
    names.foldlM (request modules) start =
      match names.find? fun name => ¬LeadsToDecision modules name with
      | some name => .error (.unknownEntrypoint name)
      | none => .ok ((names.map normalizeEntrypoint).foldl addOnce start) := by
  induction names generalizing start with
  | nil => rfl
  | cons name names ih =>
      rw [List.foldlM_cons]
      by_cases hLeads : LeadsToDecision modules name
      · rw [request_of_leadsToDecision hLeads, List.find?_cons_of_neg (by simpa using hLeads)]
        exact ih _
      · rw [request_of_not_leadsToDecision hLeads, List.find?_cons_of_pos (by simpa using hLeads)]
        rfl

end Requests

section Spelling

/-- A spelling with neither a dot nor a slash at either end, and without `data` in front. -/
structure IsBare (entrypoint : String) : Prop where
  nonempty : entrypoint ≠ ""
  first : ∀ c ∈ entrypoint.toList.head?, c ≠ '.' ∧ c ≠ '/'
  last : ∀ c ∈ entrypoint.toList.getLast?, c ≠ '.' ∧ c ≠ '/'
  noData : ¬"data.".toList <+: entrypoint.toList ∧ ¬"data/".toList <+: entrypoint.toList

/-- Another spelling of an entrypoint: any of its dots are slashes, `data` may stand in front, and
slashes may stand around it all. -/
def Respells (entrypoint other : String) : Prop :=
  ∃ before start body after,
    other.toList = List.replicate before '/' ++ ((start ++ body) ++ List.replicate after '/') ∧
      start ∈ [[], "data.".toList, "data/".toList] ∧
        List.Forall₂ (fun c d => d = c ∨ c = '.' ∧ d = '/') entrypoint.toList body

/-- An entrypoint as it stands, or a bare one in another spelling. -/
def SpelledAlike (entrypoint other : String) : Prop :=
  other = entrypoint ∨ IsBare entrypoint ∧ Respells entrypoint other

variable {entrypoint other : String}

theorem Respells.refl (entrypoint : String) : Respells entrypoint entrypoint :=
  ⟨0, [], entrypoint.toList, 0, by simp, by simp, List.forall₂_same.mpr fun _ _ => Or.inl rfl⟩

/-- A character as it stands in a dotted path. -/
def dotted (c : Char) : Char :=
  if c = '/' then '.' else c

theorem replace_eq_map_dotted (text : String) :
    Text.replace '/' '.' text = String.ofList (text.toList.map dotted) := rfl

theorem eq_of_dotted {c d : Char} (hDot : d ≠ '.') (h : dotted c = d) : c = d := by
  rw [dotted] at h
  split at h
  · exact absurd h.symm hDot
  · exact h

/-- A bare spelling has no `data` in front when it is written with dots, either. -/
theorem IsBare.not_prefix_dotted (hBare : IsBare entrypoint) :
    ¬"data.".toList <+: entrypoint.toList.map dotted := by
  rintro ⟨rest, hRest⟩
  obtain ⟨front, back, hSplit, hFront, -⟩ := List.map_eq_append_iff.mp hRest.symm
  have hLetters : ∃ c, front = "data".toList ++ [c] ∧ dotted c = '.' := by
    obtain ⟨c₁, tail₁, rfl, h₁, hFront⟩ := List.map_eq_cons_iff.mp hFront
    obtain ⟨c₂, tail₂, rfl, h₂, hFront⟩ := List.map_eq_cons_iff.mp hFront
    obtain ⟨c₃, tail₃, rfl, h₃, hFront⟩ := List.map_eq_cons_iff.mp hFront
    obtain ⟨c₄, tail₄, rfl, h₄, hFront⟩ := List.map_eq_cons_iff.mp hFront
    obtain ⟨c₅, tail₅, rfl, h₅, hFront⟩ := List.map_eq_cons_iff.mp hFront
    obtain rfl := List.map_eq_nil_iff.mp hFront
    rw [eq_of_dotted (by decide) h₁, eq_of_dotted (by decide) h₂, eq_of_dotted (by decide) h₃,
      eq_of_dotted (by decide) h₄]
    exact ⟨c₅, rfl, h₅⟩
  obtain ⟨c, rfl, hDot⟩ := hLetters
  by_cases hSlash : c = '/'
  · exact hBare.noData.2 ⟨back, by rw [hSplit, hSlash]; rfl⟩
  · rw [dotted, if_neg hSlash] at hDot
    exact hBare.noData.1 ⟨back, by rw [hSplit, hDot]; rfl⟩

/-- A character of a bare spelling at which no slash may stand has none in another spelling. -/
theorem noSlash_of_forall₂ {chars body : List Char}
    (hBody : List.Forall₂ (fun c d => d = c ∨ c = '.' ∧ d = '/') chars body)
    (hFirst : ∀ c ∈ chars.head?, c ≠ '.' ∧ c ≠ '/') : ∀ d ∈ body.head?, d ≠ '/' := by
  cases hBody with
  | nil => simp
  | @cons c d chars body hHead _ =>
      intro x hx
      obtain rfl := Option.some.inj hx
      obtain ⟨hDot, hSlash⟩ := hFirst c rfl
      rcases hHead with rfl | ⟨hEq, -⟩
      · exact hSlash
      · exact absurd hEq hDot

theorem map_dotted_of_forall₂ {chars body : List Char}
    (hBody : List.Forall₂ (fun c d => d = c ∨ c = '.' ∧ d = '/') chars body) :
    body.map dotted = chars.map dotted := by
  induction hBody with
  | nil => rfl
  | cons hHead _ ih =>
      rw [List.map_cons, List.map_cons, ih]
      rcases hHead with rfl | ⟨rfl, rfl⟩ <;> rfl

/-- The slashes around another spelling are dropped, and no others. -/
theorem dropEnds_respelled (hBare : IsBare entrypoint) {start body : List Char}
    (hStart : start ∈ [[], "data.".toList, "data/".toList])
    (hBody : List.Forall₂ (fun c d => d = c ∨ c = '.' ∧ d = '/') entrypoint.toList body)
    (before after : Nat) :
    Text.dropEnds (· = '/')
        (List.replicate before '/' ++ ((start ++ body) ++ List.replicate after '/')) =
      start ++ body := by
  have hFirst : ∀ c ∈ body.head?, c ≠ '/' := noSlash_of_forall₂ hBody hBare.first
  have hLast : ∀ c ∈ body.getLast?, c ≠ '/' := by
    rw [List.getLast?_eq_head?_reverse]
    apply noSlash_of_forall₂ (List.forall₂_reverse_iff.mpr hBody)
    rw [← List.getLast?_eq_head?_reverse]
    exact hBare.last
  have hSome : body ≠ [] := by
    rintro rfl
    cases hChars : entrypoint.toList with
    | nil => exact hBare.nonempty (String.toList_eq_nil_iff.mp hChars)
    | cons c rest =>
        rw [hChars] at hBody
        cases hBody
  have hSlashes (count : Nat) : ∀ c ∈ List.replicate count '/', decide (c = '/') = true :=
    fun c hc => decide_eq_true (List.eq_of_mem_replicate hc)
  refine Text.dropEnds_around (hSlashes before) (hSlashes after) (fun c hc => ?_) fun c hc => ?_
  · simp only [List.mem_cons, List.not_mem_nil, or_false] at hStart
    rcases hStart with rfl | rfl | rfl
    · exact decide_eq_false (hFirst c hc)
    · obtain rfl := Option.some.inj hc
      rfl
    · obtain rfl := Option.some.inj hc
      rfl
  · rw [List.getLast?_append_of_ne_nil _ hSome] at hc
    exact decide_eq_false (hLast c hc)

/-- The one `data` in front of another spelling is dropped, however it is written. -/
theorem dropStart_respelled (hBare : IsBare entrypoint) {start : List Char}
    (hStart : start ∈ [[], "data.".toList, "data/".toList]) :
    Text.dropStart "data." (String.ofList (start.map dotted ++ entrypoint.toList.map dotted)) =
      String.ofList (entrypoint.toList.map dotted) := by
  have hData (rest : List Char) :
      Text.after? "data." (String.ofList ("data.".toList ++ rest)) = some (String.ofList rest) := by
    rw [Text.after?_eq_some_iff, String.ofList_append, String.ofList_toList]
  rw [Text.dropStart]
  simp only [List.mem_cons, List.not_mem_nil, or_false] at hStart
  rcases hStart with rfl | rfl | rfl
  · rw [List.map_nil, List.nil_append]
    cases hAfter : Text.after? "data." (String.ofList (entrypoint.toList.map dotted)) with
    | none => rfl
    | some rest =>
        rw [Text.after?_eq_some_iff] at hAfter
        refine absurd ⟨rest.toList, ?_⟩ hBare.not_prefix_dotted
        rw [← String.toList_append, ← hAfter, String.toList_ofList]
  · rw [show "data.".toList.map dotted = "data.".toList by decide, hData]
    rfl
  · rw [show "data/".toList.map dotted = "data.".toList by decide, hData]
    rfl

/-- The path of a bare entrypoint, in whatever spelling, has dots for its slashes. -/
theorem normalizeEntrypoint_of_respells (hBare : IsBare entrypoint)
    (h : Respells entrypoint other) :
    normalizeEntrypoint other = String.ofList (entrypoint.toList.map dotted) := by
  obtain ⟨before, start, body, after, hOther, hStart, hBody⟩ := h
  rw [normalizeEntrypoint, hOther, dropEnds_respelled hBare hStart hBody, replace_eq_map_dotted,
    String.toList_ofList, List.map_append, map_dotted_of_forall₂ hBody,
    dropStart_respelled hBare hStart]

theorem normalizeEntrypoint_of_spelledAlike (h : SpelledAlike entrypoint other) :
    normalizeEntrypoint other = normalizeEntrypoint entrypoint := by
  rcases h with rfl | ⟨hBare, hRespells⟩
  · rfl
  · rw [normalizeEntrypoint_of_respells hBare hRespells,
      normalizeEntrypoint_of_respells hBare (.refl entrypoint)]

end Spelling

section Results

variable {modules : List Module}

theorem value_resolveEntrypoints_eq (config : Config) (modules : List Module) :
    (resolveEntrypoints config modules).outcome.value =
      match config.entrypoints.find? fun name => ¬LeadsToDecision modules name with
      | some name => .error (.unknownEntrypoint name)
      | none => .ok ((config.entrypoints.map normalizeEntrypoint ++
          declaredPaths config modules).foldl addOnce []) := by
  rw [value_resolveEntrypoints, requestedEntrypoints_eq, foldlM_request, List.foldl_append]
  cases config.entrypoints.find? fun name => ¬LeadsToDecision modules name <;> rfl

theorem leadsToDecision_of_spelledAlike {entrypoint other : String}
    (h : SpelledAlike entrypoint other) :
    LeadsToDecision modules other ↔ LeadsToDecision modules entrypoint := by
  rw [LeadsToDecision, LeadsToDecision, normalizeEntrypoint_of_spelledAlike h]

/-- Two results that differ at most in the spelling of the entrypoint that an error quotes. -/
inductive SameButQuoted (names others : List String) :
    Except CompileError (List String) → Except CompileError (List String) → Prop where
  | ok (paths : List String) : SameButQuoted names others (.ok paths) (.ok paths)
  | error {name other : String} (hPair : (name, other) ∈ names.zip others) :
      SameButQuoted names others (.error (.unknownEntrypoint name))
        (.error (.unknownEntrypoint other))

/-- In another spelling the same entrypoint is the first that leads nowhere. -/
theorem find?_spelledAlike {names others : List String} (h : List.Forall₂ SpelledAlike names others) :
    (names.find? (fun name => ¬LeadsToDecision modules name) = none ∧
        others.find? (fun name => ¬LeadsToDecision modules name) = none) ∨
      ∃ pair ∈ names.zip others,
        names.find? (fun name => ¬LeadsToDecision modules name) = some pair.1 ∧
          others.find? (fun name => ¬LeadsToDecision modules name) = some pair.2 := by
  induction h with
  | nil => exact Or.inl ⟨rfl, rfl⟩
  | @cons name other names others hAlike _ ih =>
      have hSame : LeadsToDecision modules other ↔ LeadsToDecision modules name :=
        leadsToDecision_of_spelledAlike hAlike
      by_cases hLeads : LeadsToDecision modules name
      · rw [List.find?_cons_of_neg (by simpa using hLeads),
          List.find?_cons_of_neg (by simpa using hSame.mpr hLeads)]
        exact ih.imp_right fun ⟨pair, hPair, hFound⟩ => ⟨pair, List.mem_cons_of_mem _ hPair, hFound⟩
      · rw [List.find?_cons_of_pos (by simpa using hLeads),
          List.find?_cons_of_pos (by simpa [hSame] using hLeads)]
        exact Or.inr ⟨(name, other), List.mem_cons_self, rfl, rfl⟩

theorem map_normalizeEntrypoint_of_spelledAlike {names others : List String}
    (h : List.Forall₂ SpelledAlike names others) :
    others.map normalizeEntrypoint = names.map normalizeEntrypoint := by
  induction h with
  | nil => rfl
  | cons hAlike _ ih =>
      rw [List.map_cons, List.map_cons, normalizeEntrypoint_of_spelledAlike hAlike, ih]

theorem find?_eq_some_iff_leadsNowhere {names : List String} {name : String} :
    names.find? (fun name => ¬LeadsToDecision modules name) = some name ↔
      ∃ before after, names = before ++ name :: after ∧
        (∀ known ∈ before, LeadsToDecision modules known) ∧ ¬LeadsToDecision modules name := by
  simp only [List.find?_eq_some_iff_append, decide_eq_true_eq, Bool.not_eq_true',
    decide_eq_false_iff_not, not_not]
  constructor
  · rintro ⟨hNowhere, before, after, hNames, hBefore⟩
    exact ⟨before, after, hNames, hBefore, hNowhere⟩
  · rintro ⟨before, after, hNames, hBefore, hNowhere⟩
    exact ⟨hNowhere, before, after, hNames, hBefore⟩

theorem find?_eq_none_iff_leadsToDecision {names : List String} :
    names.find? (fun name => ¬LeadsToDecision modules name) = none ↔
      ∀ name ∈ names, LeadsToDecision modules name := by
  simp only [List.find?_eq_none, decide_eq_true_eq, not_not]

theorem resolveEntrypoints_eq_error_iff {config : Config} {e : CompileError} :
    (resolveEntrypoints config modules).outcome.value = .error e ↔
      ∃ before name after, config.entrypoints = before ++ name :: after ∧
        (∀ known ∈ before, LeadsToDecision modules known) ∧ ¬LeadsToDecision modules name ∧
          e = .unknownEntrypoint name := by
  rw [value_resolveEntrypoints_eq]
  constructor
  · intro h
    cases hFind : config.entrypoints.find? fun name => ¬LeadsToDecision modules name with
    | some name =>
        rw [hFind] at h
        obtain ⟨before, after, hNames, hBefore, hNowhere⟩ :=
          find?_eq_some_iff_leadsNowhere.mp hFind
        exact ⟨before, name, after, hNames, hBefore, hNowhere, (Except.error.inj h).symm⟩
    | none =>
        rw [hFind] at h
        cases h
  · rintro ⟨before, name, after, hNames, hBefore, hNowhere, rfl⟩
    rw [find?_eq_some_iff_leadsNowhere.mpr ⟨before, after, hNames, hBefore, hNowhere⟩]

theorem resolveEntrypoints_eq_ok_iff {config : Config} {paths : List String} :
    (resolveEntrypoints config modules).outcome.value = .ok paths ↔
      (∀ name ∈ config.entrypoints, LeadsToDecision modules name) ∧
        FirstOccurrences (config.entrypoints.map normalizeEntrypoint ++
          declaredPaths config modules) paths := by
  have hListed := firstOccurrences_foldl_addOnce
    (config.entrypoints.map normalizeEntrypoint ++ declaredPaths config modules)
  rw [value_resolveEntrypoints_eq]
  constructor
  · intro h
    cases hFind : config.entrypoints.find? fun name => ¬LeadsToDecision modules name with
    | some name =>
        rw [hFind] at h
        cases h
    | none =>
        rw [hFind] at h
        obtain rfl := Except.ok.inj h
        exact ⟨find?_eq_none_iff_leadsToDecision.mp hFind, hListed⟩
  · rintro ⟨hAll, hPaths⟩
    rw [find?_eq_none_iff_leadsToDecision.mpr hAll, hListed.unique hPaths]

theorem resolveEntrypoints_spelledAlike {config : Config} {names : List String}
    (hAlike : List.Forall₂ SpelledAlike config.entrypoints names) :
    SameButQuoted config.entrypoints names (resolveEntrypoints config modules).outcome.value
      (resolveEntrypoints { config with entrypoints := names } modules).outcome.value := by
  have hDeclared : declaredPaths { config with entrypoints := names } modules =
      declaredPaths config modules := rfl
  rw [value_resolveEntrypoints_eq, value_resolveEntrypoints_eq, hDeclared,
    map_normalizeEntrypoint_of_spelledAlike hAlike]
  rcases find?_spelledAlike hAlike with ⟨hNames, hOthers⟩ | ⟨pair, hPair, hName, hOther⟩
  · rw [hNames, hOthers]
    exact .ok _
  · rw [hName, hOther]
    exact .error hPair

end Results

/-- The resolution of entrypoints fails with the first one that leads nowhere. Otherwise it lists the
paths of those that are asked for and, behind them, what the modules declare, each where it occurs
first. The spelling of bare entrypoints decides nothing but how an error quotes them. -/
theorem resolveEntrypoints_exact (config : Config) (modules : List Module) :
    (∀ e, (resolveEntrypoints config modules).outcome.value = .error e ↔
      ∃ before name after, config.entrypoints = before ++ name :: after ∧
        (∀ known ∈ before, LeadsToDecision modules known) ∧ ¬LeadsToDecision modules name ∧
          e = .unknownEntrypoint name) ∧
      (∀ paths, (resolveEntrypoints config modules).outcome.value = .ok paths ↔
        (∀ name ∈ config.entrypoints, LeadsToDecision modules name) ∧
          FirstOccurrences (config.entrypoints.map normalizeEntrypoint ++
            declaredPaths config modules) paths) ∧
      ∀ names, List.Forall₂ SpelledAlike config.entrypoints names →
        SameButQuoted config.entrypoints names (resolveEntrypoints config modules).outcome.value
          (resolveEntrypoints { config with entrypoints := names } modules).outcome.value :=
  ⟨fun _ => resolveEntrypoints_eq_error_iff, fun _ => resolveEntrypoints_eq_ok_iff,
    fun _ => resolveEntrypoints_spelledAlike⟩

/-- A module of two rules that declares the first one an entrypoint. -/
def declaringFirst : Module where
  path := "p.rego"
  package := "p"
  imports := []
  rules := [⟨"x", false, true, 4⟩, ⟨"y", false, false, 5⟩]
  calls := []
  dataRefs := []
  packageEntrypoint := false
  dialect := .v1
  source := "package p\n# METADATA\n# entrypoint: true\nx := 1\ny := 2\n"

/-- The second rule is asked for twice, in two spellings and then in two others. -/
theorem resolveEntrypoints_exact_declaringFirst :
    let config := configOf { Parameters.default with entrypoints := ["p.y", "p/y"] } (.path "")
      .shared ⟨false, []⟩
    (resolveEntrypoints config [declaringFirst]).outcome.value = .ok ["p.y", "p.x"] ∧
      List.Forall₂ SpelledAlike config.entrypoints ["/data/p/y/", "data.p/y"] ∧
      (resolveEntrypoints { config with entrypoints := ["/data/p/y/", "data.p/y"] }
        [declaringFirst]).outcome.value = .ok ["p.y", "p.x"] := by
  intro config
  have hResolve : (resolveEntrypoints config [declaringFirst]).outcome.value =
      .ok ["p.y", "p.x"] := by decide +kernel
  have hBare (entrypoint : String) (h : entrypoint = "p.y" ∨ entrypoint = "p/y") :
      IsBare entrypoint := by
    rcases h with rfl | rfl
    · exact ⟨by decide, by rintro c ⟨⟩; decide, by rintro c ⟨⟩; decide, by decide⟩
    · exact ⟨by decide, by rintro c ⟨⟩; decide, by rintro c ⟨⟩; decide, by decide⟩
  have hAlike : List.Forall₂ SpelledAlike config.entrypoints ["/data/p/y/", "data.p/y"] := by
    refine .cons (Or.inr ⟨hBare _ (Or.inl rfl), 1, "data/".toList, "p/y".toList, 1, rfl, by simp, ?_⟩)
      (.cons (Or.inr ⟨hBare _ (Or.inr rfl), 0, "data.".toList, "p/y".toList, 0, rfl, by simp, ?_⟩)
        .nil)
    · exact .cons (Or.inl rfl) (.cons (Or.inr ⟨rfl, rfl⟩) (.cons (Or.inl rfl) .nil))
    · exact .cons (Or.inl rfl) (.cons (Or.inl rfl) (.cons (Or.inl rfl) .nil))
  refine ⟨hResolve, hAlike, ?_⟩
  have hSame := (resolveEntrypoints_exact config [declaringFirst]).2.2 _ hAlike
  rw [hResolve] at hSame
  generalize (resolveEntrypoints { config with entrypoints := ["/data/p/y/", "data.p/y"] }
    [declaringFirst]).outcome.value = result at hSame ⊢
  cases hSame
  rfl

end PolicyBundle.Build
