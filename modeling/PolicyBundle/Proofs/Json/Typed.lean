import PolicyBundle.Json.Decoder
import PolicyBundle.Proofs.Json.Parsed

/-! Typed values read back from the text of their untyped form, and what readers of typed values make
of the values in them. -/

namespace PolicyBundle.Json

theorem Folds.append {σ : Type} {field : σ → String → Reader σ} {s next last : σ}
    {fields more : Fields} (h : Folds field s fields next) (hMore : Folds field next more last) :
    Folds field s (fields ++ more) last := by
  induction h with
  | nil => exact hMore
  | cons first rest ih => exact .cons first (ih hMore)

namespace Decoder

theorem string_rereads (depth : Nat) (text : String) :
    Rereads (string depth) (write (.string text)) text := by
  intro tail _
  rw [write, writeString, encode_enclosed (by decide) (by decide), string,
    afterSpaces_cons _ (by decide)]
  simp only [if_true, readString_written]

theorem natural_rereads {bound n : Nat} (name : String) (depth : Nat) (hBound : n < bound)
    (hFits : n < Nat.pow 2 64) :
    Rereads (natural bound name depth) (write (.number (.integer n))) n := by
  intro tail hTail
  obtain ⟨c, chars, hChars, hText, hDigit⟩ := writeInteger_cons n
  have hNotNegative : decide ((n : Int) < 0) = false := decide_eq_false (by omega)
  have hRange := toNat_of_isDigit hDigit
  have hByte := isDigit_byte hDigit
  have hRead := readNumber_toDigits false hFits hTail
  rw [Int.natAbs_natCast] at hChars
  rw [hChars, Text.encode_cons_of_lt _ (by omega), List.cons_append] at hRead
  rw [hNotNegative, if_neg (by decide), List.nil_append] at hText
  rw [write, hText, Text.encode_cons_of_lt _ (by omega), List.cons_append, natural,
    afterSpaces_cons _ (isSpace_of_isDigit hByte)]
  simp only [if_neg (ne_of_isDigit hByte (show isDigit (byte '-') = false by decide)), hByte,
    if_true, hRead, wholeNumber, bind, Except.bind]
  simp [hBound]

variable {α : Type} {value : Decoder α}

theorem optional_rereads {depth : Nat} {c : Char} {chars : List Char} {x : α}
    (hLow : c.toNat < 0x80) (hSpace : isSpace c.toUInt8 = false) (hNull : c.toUInt8 ≠ byte 'n')
    (h : Rereads (value depth) (c :: chars) x) :
    Rereads (optional value depth) (c :: chars) (some x) := by
  intro tail hTail
  have hRead := h tail hTail
  rw [Text.encode_cons_of_lt _ hLow, List.cons_append] at hRead ⊢
  rw [optional, afterSpaces_cons _ hSpace]
  simp only [if_neg hNull, hRead, bind, Except.bind]

theorem optional_natural_rereads {bound n : Nat} (name : String) (depth : Nat) (hBound : n < bound)
    (hFits : n < Nat.pow 2 64) :
    Rereads (optional (natural bound name) depth) (write (.number (.integer n))) (some n) := by
  obtain ⟨c, chars, -, hText, hDigit⟩ := writeInteger_cons n
  have hNotNegative : decide ((n : Int) < 0) = false := decide_eq_false (by omega)
  have hRange := toNat_of_isDigit hDigit
  have hByte := isDigit_byte hDigit
  have hRead := natural_rereads name depth hBound hFits
  rw [hNotNegative, if_neg (by decide), List.nil_append] at hText
  rw [write, hText] at hRead ⊢
  exact optional_rereads (by omega) (isSpace_of_isDigit hByte) (ne_of_isDigit hByte (by decide))
    hRead

theorem once_rereads (name : String) {depth : Nat} {chars : List Char} {x : α}
    (h : Rereads (value depth) chars x) :
    Rereads (once name none value depth) (':' :: chars) (some x) := by
  intro tail hTail
  simp only [once, Option.isSome_none, Bool.false_eq_true, if_false, colon_written, h tail hTail,
    bind, Except.bind]

theorem list_rereads {depth : Nat} {text : α → Json} {items : List α}
    (hItems : ∀ x ∈ items, Rereads (value depth) (write (text x)) x) :
    Rereads (list value (depth + 1)) (write (.array (items.map text))) items := by
  intro tail _
  have hTexts : (items.map text).map write = items.map fun x => write (text x) := by
    rw [List.map_map]
    rfl
  have hRounds : (Text.encode ([','].intercalate (items.map fun x => write (text x)))).length + 1 <
      (Text.encode ([','].intercalate (items.map fun x => write (text x))) ++
        byte ']' :: tail).length + 1 := by
    simp
  have hRead := readItems_written (fun x _ => begins_write (text x)) hItems tail hRounds
  rw [write, writeItems_eq_map, hTexts, encode_enclosed (by decide) (by decide), list, container,
    afterSpaces_cons _ (by decide)]
  simp only [if_true, hRead, bind, Except.bind, closeList_closing]

theorem map_rereads {depth : Nat} {fields : Fields} (hSorted : Sorted fields)
    (hFields : ∀ f ∈ fields, Readable depth f.2) :
    Rereads (map (depth + 1)) (write (.object fields)) fields := by
  intro tail _
  have hRounds : (Text.encode ([','].intercalate (writeFields fields))).length + 1 <
      (Text.encode ([','].intercalate (writeFields fields)) ++ byte '\x7d' :: tail).length + 1 := by
    simp
  have hRead := foldFields_written (folds_anyField [] fun f hf => (hFields f hf).rereads) tail
    hRounds
  rw [write, encode_enclosed (by decide) (by decide), map, container,
    afterSpaces_cons _ (by decide)]
  simp only [if_true, hRead, bind, Except.bind, closeObject_closing, setAll_nil hSorted]

/-- A record reads back from its fields, if the state that they are folded into makes it. -/
theorem fields_rereads {σ : Type} {initial last : σ} {field : (depth : Nat) → σ → String → Reader σ}
    {build : σ → Except Cause α} {depth : Nat} {parts : Fields} {x : α} (expected : String)
    (hFolds : Folds (field depth) initial parts last) (hBuild : build last = .ok x) :
    Rereads (container '\x7b' expected (fields initial field build) (depth + 1))
      ('\x7b' :: [','].intercalate (writeFields parts) ++ ['\x7d']) x := by
  intro tail _
  have hRounds : (Text.encode ([','].intercalate (writeFields parts))).length + 1 <
      (Text.encode ([','].intercalate (writeFields parts)) ++ byte '\x7d' :: tail).length + 1 := by
    simp
  have hRead := foldFields_written hFolds tail hRounds
  rw [encode_enclosed (by decide) (by decide), container, afterSpaces_cons _ (by decide)]
  simp only [if_true, fields, hRead, bind, Except.bind, hBuild, closeObject_closing]

theorem once_eq_ok {name : String} {seen : Option α} {depth : Nat} {input rest : Bytes}
    {x : Option α} (h : once name seen value depth input = .ok (x, rest)) :
    ∃ start y, value depth start = .ok (y, rest) ∧ x = some y := by
  simp only [once, bind, Except.bind] at h
  split at h
  · cases h
  · split at h
    · cases h
    · split at h
      · cases h
      · rename_i found hFound
        cases h
        exact ⟨_, _, hFound, rfl⟩

theorem optional_eq_ok {depth : Nat} {input rest : Bytes} {x : α}
    (h : optional value depth input = .ok (some x, rest)) :
    ∃ start, value depth start = .ok (x, rest) := by
  simp only [optional, bind, Except.bind] at h
  split at h
  · split at h
    · split at h <;> cases h
    · split at h
      · cases h
      · rename_i found hFound
        cases h
        exact ⟨_, hFound⟩
  · split at h
    · cases h
    · rename_i found hFound
      cases h
      exact ⟨_, hFound⟩

/-- A natural number that was read is below its bound. -/
theorem natural_lt {bound n : Nat} {name : String} {depth : Nat} {input rest : Bytes}
    (h : natural bound name depth input = .ok (n, rest)) : n < bound := by
  unfold natural at h
  extract_lets take at h
  have hTake {isNegative : Bool} {digits : Bytes} (h : take isNegative digits = .ok (n, rest)) :
      n < bound := by
    obtain ⟨⟨number, last⟩, -, h⟩ := Log.bind_eq_ok h
    cases number with
    | integer m =>
        simp only at h
        split at h
        · rename_i hRange
          simp only [Bool.and_eq_true, decide_eq_true_eq] at hRange
          cases h
          omega
        · cases h
    | float x => cases h
  split at h
  · split at h
    · exact hTake h
    · split at h
      · exact hTake h
      · cases h
  · cases h

theorem container_eq_ok {opening : Char} {expected : String} {content : Decoder α} {depth : Nat}
    {input rest : Bytes} {x : α}
    (h : container opening expected content depth input = .ok (x, rest)) :
    ∃ less start, depth = less + 1 ∧ content less start = .ok (x, rest) := by
  simp only [container] at h
  split at h
  · split at h
    · cases depth with
      | zero => cases h
      | succ less => exact ⟨less, _, rfl, h⟩
    · cases h
  · cases h

/-- The fields of an object of any values. -/
theorem map_eq_ok {depth : Nat} {input rest : Bytes} {fields : Fields}
    (h : map depth input = .ok (fields, rest)) :
    ∃ less, depth = less + 1 ∧ AllFields (FormedWithin less) fields := by
  obtain ⟨less, start, rfl, hContent⟩ := container_eq_ok h
  obtain ⟨⟨found, behind⟩, hFound, hContent⟩ := Log.bind_eq_ok hContent
  obtain ⟨closed, -, hContent⟩ := Log.bind_eq_ok hContent
  cases hContent
  exact ⟨less, rfl, foldFields_invariant
    (allFields_anyField fun _ _ _ hRead => readValue_formed hRead) (allFields_nil _) hFound⟩

end Decoder

end PolicyBundle.Json
