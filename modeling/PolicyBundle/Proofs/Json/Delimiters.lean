import PolicyBundle.Json.Token
import Mathlib.Data.List.TakeWhile

/-! Where a number ends. A reader of numbers takes the same part of its input whatever stands behind
it, as long as that does not go on with the number. -/

namespace PolicyBundle.Json

theorem byte_eq (c : Char) : byte c = c.toUInt8 := rfl

/-- Input that does not begin with a digit. -/
def NoDigit (input : Bytes) : Prop :=
  ∀ b ∈ input.head?, isDigit b = false

/-- Input that does not go on with a number. -/
def Delimited (input : Bytes) : Prop :=
  ∀ b ∈ input.head?, isDigit b = false ∧ b ≠ byte '.' ∧ b ≠ byte 'e' ∧ b ≠ byte 'E'

theorem Delimited.noDigit {input : Bytes} (h : Delimited input) : NoDigit input :=
  fun b hb => (h b hb).1

theorem NoDigit.append {used rest tail : Bytes} (h : NoDigit (used ++ rest)) (hTail : NoDigit tail) :
    NoDigit (used ++ tail) := by
  cases used with
  | nil => exact hTail
  | cons b used => exact h

theorem noDigit_dropWhile (input : Bytes) : NoDigit (input.dropWhile isDigit) := by
  intro b hb
  have hHead := List.head?_dropWhile_not isDigit input
  rw [Option.mem_def.mp hb] at hHead
  simpa using hHead

theorem takeWhile_append {digits behind : Bytes} (hDigits : ∀ b ∈ digits, isDigit b = true)
    (hBehind : NoDigit behind) :
    (digits ++ behind).takeWhile isDigit = digits ∧
      (digits ++ behind).dropWhile isDigit = behind := by
  rw [List.takeWhile_append_of_pos hDigits, List.dropWhile_append_of_pos hDigits]
  cases behind with
  | nil => simp
  | cons b behind =>
      have hHead := hBehind b rfl
      simp [hHead]

/-- A reader that takes a part of its input and gives the same before every delimiter. -/
def Local {α : Type} (read : Bytes → Except Stop (α × Bytes)) : Prop :=
  ∀ (input rest : Bytes) (x : α), read input = .ok (x, rest) →
    ∃ used, input = used ++ rest ∧ ∀ tail, Delimited tail → read (used ++ tail) = .ok (x, tail)

theorem floating_eq_ok {isNegative : Bool} {digits : Nat} {exponent : Int} {input rest : Bytes}
    {n : Number} (h : floating isNegative digits exponent input = .ok (n, rest)) :
    input = rest ∧ ∀ tail, floating isNegative digits exponent tail = .ok (n, tail) := by
  simp only [floating] at h ⊢
  split at h
  · cases h
    exact ⟨rfl, fun _ => rfl⟩
  · cases h

theorem exponentValue_delimited {n : Nat} {tail : Bytes} (h : NoDigit tail) :
    exponentValue n tail = (n, false, tail) := by
  cases tail with
  | nil => rfl
  | cons d tail =>
      have hHead := h d rfl
      simp [exponentValue, hHead]

theorem exponentValue_eq {n m : Nat} {isOver : Bool} {input rest : Bytes}
    (h : exponentValue n input = (m, isOver, rest)) :
    ∃ used, input = used ++ rest ∧ ∀ tail, (isOver = false → NoDigit tail) →
      exponentValue n (used ++ tail) = (m, isOver, tail) := by
  induction input generalizing n with
  | nil =>
      cases h
      exact ⟨[], rfl, fun tail hTail => exponentValue_delimited (hTail rfl)⟩
  | cons d input ih =>
      simp only [exponentValue] at h
      split at h
      · rename_i hDigit
        split at h
        · rename_i hFits
          obtain ⟨used, rfl, hUsed⟩ := ih h
          refine ⟨d :: used, rfl, fun tail hTail => ?_⟩
          simp only [List.cons_append, exponentValue, hDigit, if_true, hFits]
          exact hUsed tail hTail
        · rename_i hFits
          cases h
          exact ⟨[d], rfl, fun tail _ => by simp [exponentValue, hDigit, hFits]⟩
      · cases h
        exact ⟨[], rfl, fun tail hTail => exponentValue_delimited (hTail rfl)⟩

/-- The digits of an exponent, behind its sign. -/
def exponentDigits (isNegative : Bool) (digits : Nat) (before : Int) (below : Bool)
    (input : Bytes) : Except Stop (Number × Bytes) :=
  match input with
  | [] => .error (stop .unfinishedValue [])
  | d :: rest =>
    if isDigit d then
      match exponentValue (digitValue d) rest with
      | (n, false, rest) =>
        floating isNegative digits (if below then before - n else before + n) rest
      | (_, true, rest) =>
        if digits ≠ 0 && !below then .error (stop .numberOutOfRange rest)
        else .ok (.float (Binary64.withSign isNegative 0), rest.dropWhile isDigit)
    else .error (stop .invalidNumber rest)

theorem exponentPart_cons (isNegative : Bool) (digits : Nat) (before : Int) (b : UInt8)
    (rest : Bytes) :
    exponentPart isNegative digits before (b :: rest) =
      if b = byte '+' then exponentDigits isNegative digits before false rest
      else if b = byte '-' then exponentDigits isNegative digits before true rest
      else exponentDigits isNegative digits before false (b :: rest) := by
  by_cases hPlus : b = byte '+'
  · rw [if_pos hPlus]
    simp only [exponentPart, if_pos hPlus]
    rfl
  · by_cases hMinus : b = byte '-'
    · rw [if_neg hPlus, if_pos hMinus]
      simp only [exponentPart, if_neg hPlus, if_pos hMinus]
      rfl
    · rw [if_neg hPlus, if_neg hMinus]
      simp only [exponentPart, if_neg hPlus, if_neg hMinus]
      rfl

variable (isNegative : Bool) (digits : Nat) (exponent : Int)

theorem local_exponentDigits (below : Bool) :
    Local (exponentDigits isNegative digits exponent below) := by
  intro input rest x h
  cases input with
  | nil => cases h
  | cons d input =>
      simp only [exponentDigits] at h
      split at h
      · rename_i hDigit
        split at h
        · rename_i n behind hValue
          obtain ⟨used, rfl, hUsed⟩ := exponentValue_eq hValue
          obtain ⟨rfl, hFloating⟩ := floating_eq_ok h
          refine ⟨d :: used, rfl, fun tail hTail => ?_⟩
          simp only [List.cons_append, exponentDigits, hDigit, if_true,
            hUsed tail fun _ => hTail.noDigit]
          exact hFloating tail
        · rename_i n behind hValue
          obtain ⟨used, rfl, hUsed⟩ := exponentValue_eq hValue
          split at h
          · cases h
          · rename_i hZero
            cases h
            refine ⟨d :: used ++ behind.takeWhile isDigit, ?_, fun tail hTail => ?_⟩
            · simp [List.takeWhile_append_dropWhile]
            · have hDigits : ∀ b ∈ behind.takeWhile isDigit, isDigit b = true :=
                fun b hb => List.mem_takeWhile_imp hb
              obtain ⟨-, hDrop⟩ := takeWhile_append hDigits hTail.noDigit
              have hBehind := hUsed (behind.takeWhile isDigit ++ tail) (by simp)
              simp only [List.cons_append, List.append_assoc, exponentDigits, hDigit, if_true,
                hBehind, hZero, hDrop]
              simp
      · cases h

theorem local_exponentPart : Local (exponentPart isNegative digits exponent) := by
  intro input rest x h
  cases input with
  | nil => cases h
  | cons b input =>
      rw [exponentPart_cons] at h
      split at h
      · rename_i hPlus
        obtain ⟨used, rfl, hUsed⟩ := local_exponentDigits _ _ _ _ _ _ _ h
        refine ⟨b :: used, rfl, fun tail hTail => ?_⟩
        rw [List.cons_append, exponentPart_cons, if_pos hPlus, hUsed tail hTail]
      · rename_i hPlus
        split at h
        · rename_i hMinus
          obtain ⟨used, rfl, hUsed⟩ := local_exponentDigits _ _ _ _ _ _ _ h
          refine ⟨b :: used, rfl, fun tail hTail => ?_⟩
          rw [List.cons_append, exponentPart_cons, if_neg hPlus, if_pos hMinus, hUsed tail hTail]
        · rename_i hMinus
          obtain ⟨used, hInput, hUsed⟩ := local_exponentDigits _ _ _ _ _ _ _ h
          refine ⟨used, hInput, fun tail hTail => ?_⟩
          cases used with
          | nil => cases hUsed [] (by simp [Delimited])
          | cons c used =>
              obtain ⟨rfl, rfl⟩ : b = c ∧ input = used ++ rest := by simpa using hInput
              rw [List.cons_append, exponentPart_cons, if_neg hPlus, if_neg hMinus]
              exact hUsed tail hTail

theorem afterDigits_delimited {tail : Bytes} (hTail : Delimited tail) :
    afterDigits isNegative digits exponent tail = floating isNegative digits exponent tail := by
  cases tail with
  | nil => rfl
  | cons b tail =>
      obtain ⟨-, -, hLower, hUpper⟩ := hTail b rfl
      simp [afterDigits, hLower, hUpper]

theorem local_afterDigits : Local (afterDigits isNegative digits exponent) := by
  intro input rest x h
  cases input with
  | nil =>
      obtain ⟨rfl, hFloating⟩ := floating_eq_ok h
      refine ⟨[], rfl, fun tail hTail => ?_⟩
      rw [List.nil_append, afterDigits_delimited _ _ _ hTail, hFloating]
  | cons b input =>
      simp only [afterDigits] at h
      split at h
      · rename_i hLetter
        obtain ⟨used, rfl, hUsed⟩ := local_exponentPart _ _ _ _ _ _ h
        refine ⟨b :: used, rfl, fun tail hTail => ?_⟩
        simp only [List.cons_append, afterDigits, hLetter, if_true, hUsed tail hTail]
      · obtain ⟨rfl, hFloating⟩ := floating_eq_ok h
        refine ⟨[], rfl, fun tail hTail => ?_⟩
        rw [List.nil_append, afterDigits_delimited _ _ _ hTail, hFloating]

theorem local_fractionPart : Local (fractionPart isNegative digits exponent) := by
  intro input rest x h
  simp only [fractionPart] at h
  split at h
  · cases h
  · rename_i hPlaces
    obtain ⟨used, hDrop, hUsed⟩ := local_afterDigits _ _ _ _ _ _ h
    refine ⟨input.takeWhile isDigit ++ used, ?_, fun tail hTail => ?_⟩
    · rw [List.append_assoc, ← hDrop, List.takeWhile_append_dropWhile]
    · have hBehind : NoDigit (used ++ tail) :=
        NoDigit.append (hDrop ▸ noDigit_dropWhile input) hTail.noDigit
      obtain ⟨hTake, hDrop⟩ := takeWhile_append
        (fun b (hb : b ∈ input.takeWhile isDigit) => List.mem_takeWhile_imp hb) hBehind
      simp only [List.append_assoc, fractionPart, hTake, hDrop]
      rw [if_neg hPlaces]
      exact hUsed tail hTail

/-- A number that nothing goes on with behind its digits. -/
def wholeNumber (rest : Bytes) : Except Stop (Number × Bytes) :=
  if !isNegative then .ok (.integer digits, rest)
  else if 0 < digits && digits ≤ Nat.pow 2 63 then .ok (.integer (-digits), rest)
  else floating true digits 0 rest

theorem wholeNumber_eq_ok {input rest : Bytes} {n : Number}
    (h : wholeNumber isNegative digits input = .ok (n, rest)) :
    input = rest ∧ ∀ tail, wholeNumber isNegative digits tail = .ok (n, tail) := by
  simp only [wholeNumber] at h ⊢
  split at h
  · rename_i hSign
    cases h
    exact ⟨rfl, fun tail => if_pos hSign⟩
  · rename_i hSign
    split at h
    · rename_i hFits
      cases h
      exact ⟨rfl, fun tail => (if_neg hSign).trans (if_pos hFits)⟩
    · rename_i hFits
      obtain ⟨rfl, hFloating⟩ := floating_eq_ok h
      exact ⟨rfl, fun tail => ((if_neg hSign).trans (if_neg hFits)).trans (hFloating tail)⟩

theorem shortNumber_cons (b : UInt8) (rest : Bytes) :
    shortNumber isNegative digits (b :: rest) =
      if b = byte '.' then fractionPart isNegative digits 0 rest
      else if b = byte 'e' || b = byte 'E' then exponentPart isNegative digits 0 rest
      else wholeNumber isNegative digits (b :: rest) := rfl

theorem shortNumber_delimited {tail : Bytes} (hTail : Delimited tail) :
    shortNumber isNegative digits tail = wholeNumber isNegative digits tail := by
  cases tail with
  | nil => rfl
  | cons b tail =>
      obtain ⟨-, hPoint, hLower, hUpper⟩ := hTail b rfl
      rw [shortNumber_cons, if_neg hPoint, if_neg (by simp [hLower, hUpper])]

theorem local_shortNumber : Local (shortNumber isNegative digits) := by
  intro input rest x h
  have hWhole {input : Bytes} (h : wholeNumber isNegative digits input = .ok (x, rest)) :
      ∃ used, input = used ++ rest ∧ ∀ tail, Delimited tail →
        shortNumber isNegative digits (used ++ tail) = .ok (x, tail) := by
    obtain ⟨rfl, hTails⟩ := wholeNumber_eq_ok _ _ h
    refine ⟨[], rfl, fun tail hTail => ?_⟩
    rw [List.nil_append, shortNumber_delimited _ _ hTail, hTails]
  cases input with
  | nil => exact hWhole h
  | cons b input =>
      rw [shortNumber_cons] at h
      split at h
      · rename_i hPoint
        obtain ⟨used, rfl, hUsed⟩ := local_fractionPart _ _ _ _ _ _ h
        refine ⟨b :: used, rfl, fun tail hTail => ?_⟩
        rw [List.cons_append, shortNumber_cons, if_pos hPoint, hUsed tail hTail]
      · rename_i hPoint
        split at h
        · rename_i hLetter
          obtain ⟨used, rfl, hUsed⟩ := local_exponentPart _ _ _ _ _ _ h
          refine ⟨b :: used, rfl, fun tail hTail => ?_⟩
          rw [List.cons_append, shortNumber_cons, if_neg hPoint, if_pos hLetter, hUsed tail hTail]
        · exact hWhole h

theorem longNumber_cons (excess : Nat) (b : UInt8) (rest : Bytes) :
    longNumber isNegative digits excess (b :: rest) =
      if b = byte '.' then fractionPart isNegative digits excess rest
      else afterDigits isNegative digits excess (b :: rest) := rfl

theorem longNumber_delimited (excess : Nat) {tail : Bytes} (hTail : Delimited tail) :
    longNumber isNegative digits excess tail = afterDigits isNegative digits excess tail := by
  cases tail with
  | nil => rfl
  | cons b tail =>
      obtain ⟨-, hPoint, -, -⟩ := hTail b rfl
      rw [longNumber_cons, if_neg hPoint]

theorem local_longNumber (excess : Nat) : Local (longNumber isNegative digits excess) := by
  intro input rest x h
  cases input with
  | nil =>
      obtain ⟨rfl, hFloating⟩ := floating_eq_ok h
      refine ⟨[], rfl, fun tail hTail => ?_⟩
      rw [List.nil_append, longNumber_delimited _ _ _ hTail, afterDigits_delimited _ _ _ hTail,
        hFloating]
  | cons b input =>
      rw [longNumber_cons] at h
      split at h
      · rename_i hPoint
        obtain ⟨used, rfl, hUsed⟩ := local_fractionPart _ _ _ _ _ _ h
        refine ⟨b :: used, rfl, fun tail hTail => ?_⟩
        rw [List.cons_append, longNumber_cons, if_pos hPoint, hUsed tail hTail]
      · rename_i hPoint
        obtain ⟨used, hInput, hUsed⟩ := local_afterDigits _ _ _ _ _ _ h
        refine ⟨used, hInput, fun tail hTail => ?_⟩
        cases used with
        | nil => rw [List.nil_append, longNumber_delimited _ _ _ hTail, ← hUsed tail hTail,
            List.nil_append]
        | cons c used =>
            obtain ⟨rfl, rfl⟩ : b = c ∧ input = used ++ rest := by simpa using hInput
            rw [List.cons_append, longNumber_cons, if_neg hPoint]
            exact hUsed tail hTail

theorem readNumber_zero {rest : Bytes} (hRest : NoDigit rest) :
    readNumber isNegative (byte '0' :: rest) = shortNumber isNegative 0 rest := by
  cases rest with
  | nil => rfl
  | cons b rest =>
      have hDigit := hRest b rfl
      simp [readNumber, hDigit]

/-- What is read behind the digits of a number that does not begin with a zero. -/
def behindDigits (places : Bytes) : Bytes → Except Stop (Number × Bytes) :=
  if (significand 0 places).2 = places.length then shortNumber isNegative (significand 0 places).1
  else longNumber isNegative (significand 0 places).1 (places.length - (significand 0 places).2)

theorem local_behindDigits (places : Bytes) : Local (behindDigits isNegative places) := by
  rw [behindDigits]
  split
  · exact local_shortNumber _ _
  · exact local_longNumber _ _ _

theorem readNumber_digits {d : UInt8} {places rest : Bytes} (hZero : d ≠ byte '0')
    (hDigits : ∀ b ∈ d :: places, isDigit b = true) (hRest : NoDigit rest) :
    readNumber isNegative (d :: places ++ rest) = behindDigits isNegative (d :: places) rest := by
  obtain ⟨hTake, hDrop⟩ := takeWhile_append hDigits hRest
  have hDigit := hDigits d List.mem_cons_self
  rw [List.cons_append] at hTake hDrop ⊢
  simp only [readNumber, if_neg hZero, hDigit, if_true, hTake, hDrop, behindDigits]
  split <;> rfl

/-- Where a reader takes some digits and goes on as another one, it ends where that one ends. -/
theorem Local.behind {α : Type} {read next : Bytes → Except Stop (α × Bytes)} (hNext : Local next)
    {digits behind rest : Bytes} {x : α}
    (hRead : ∀ behind, NoDigit behind → read (digits ++ behind) = next behind)
    (hBehind : NoDigit behind) (h : read (digits ++ behind) = .ok (x, rest)) :
    ∃ used, digits ++ behind = used ++ rest ∧
      ∀ tail, Delimited tail → read (used ++ tail) = .ok (x, tail) := by
  rw [hRead behind hBehind] at h
  obtain ⟨used, rfl, hUsed⟩ := hNext _ _ _ h
  refine ⟨digits ++ used, (List.append_assoc digits used rest).symm, fun tail hTail => ?_⟩
  rw [List.append_assoc, hRead _ (hBehind.append hTail.noDigit), hUsed tail hTail]

/-- A number ends before its delimiter, whatever that is. -/
theorem local_readNumber : Local (readNumber isNegative) := by
  intro input rest x h
  cases input with
  | nil => cases h
  | cons d input =>
      by_cases hZero : d = byte '0'
      · subst hZero
        have hNoDigit : NoDigit input := by
          intro b hb
          cases input with
          | nil => cases hb
          | cons c input =>
              cases hb
              cases hDigit : isDigit b with
              | false => rfl
              | true => simp [readNumber, hDigit] at h
        have hRead : readNumber isNegative ([byte '0'] ++ input) = .ok (x, rest) := h
        exact (local_shortNumber isNegative 0).behind
          (fun _ hBehind => readNumber_zero isNegative hBehind) hNoDigit hRead
      · have hDigit : isDigit d = true := by
          cases hDigit : isDigit d with
          | true => rfl
          | false => simp [readNumber, hZero, hDigit] at h
        have hDigits : ∀ b ∈ d :: input.takeWhile isDigit, isDigit b = true := by
          simp only [List.mem_cons, forall_eq_or_imp]
          exact ⟨hDigit, fun b hb => List.mem_takeWhile_imp hb⟩
        have hInput : d :: input = d :: input.takeWhile isDigit ++ input.dropWhile isDigit := by
          rw [List.cons_append, List.takeWhile_append_dropWhile]
        rw [hInput] at h ⊢
        exact (local_behindDigits isNegative _).behind
          (fun _ hBehind => readNumber_digits isNegative hZero hDigits hBehind)
          (noDigit_dropWhile input) h

end PolicyBundle.Json
