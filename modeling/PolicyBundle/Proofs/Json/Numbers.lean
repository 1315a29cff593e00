import PolicyBundle.Json.Reader
import PolicyBundle.Proofs.Json.Delimiters
import PolicyBundle.Proofs.Text.Utf8
import Mathlib.Algebra.Ring.Int.Defs

/-! Numbers read back from what is written of them. For integers this is proved; a number of double
precision does so if it does by itself, since a reader that rounds twice may miss one. -/

namespace PolicyBundle.Json

theorem toNat_of_isDigit {c : Char} (h : c.isDigit = true) : 48 ≤ c.toNat ∧ c.toNat ≤ 57 := by
  simp only [Char.isDigit, Bool.and_eq_true, decide_eq_true_eq] at h
  exact h

theorem isDigit_byte {c : Char} (h : c.isDigit = true) : isDigit c.toUInt8 = true := by
  have hRange := toNat_of_isDigit h
  have hByte := Text.toNat_toUInt8 (c := c) (by omega)
  simp only [isDigit, Bool.and_eq_true, decide_eq_true_eq, UInt8.le_iff_toNat_le, hByte]
  exact hRange

theorem isSpace_of_isDigit {b : UInt8} (h : isDigit b = true) : isSpace b = false := by
  simp only [isSpace, Bool.or_eq_false_iff, beq_eq_false_iff_ne]
  refine ⟨⟨⟨?_, ?_⟩, ?_⟩, ?_⟩ <;> (rintro rfl; revert h; decide)

theorem ne_of_isDigit {b c : UInt8} (h : isDigit b = true) (hOther : isDigit c = false) : b ≠ c := by
  rintro rfl
  rw [h] at hOther
  cases hOther

/-- Input that begins with a token. -/
theorem afterSpaces_cons {b : UInt8} (rest : Bytes) (h : isSpace b = false) :
    afterSpaces (b :: rest) = b :: rest := by
  rw [afterSpaces, List.dropWhile_cons_of_neg (by simp [h])]

theorem valueWith_minus (inner : Option (Reader Json)) (rest : Bytes) :
    valueWith inner (byte '-' :: rest) =
      (readNumber true rest).map fun found => (.number found.1, found.2) := by
  rw [valueWith, afterSpaces_cons rest (by decide)]
  simp only [bind, Except.bind]
  rw [if_neg (by decide), if_neg (by decide), if_neg (by decide), if_pos trivial]
  cases readNumber true rest <;> rfl

theorem valueWith_digit (inner : Option (Reader Json)) {d : UInt8} (rest : Bytes)
    (h : isDigit d = true) :
    valueWith inner (d :: rest) =
      (readNumber false (d :: rest)).map fun found => (.number found.1, found.2) := by
  rw [valueWith, afterSpaces_cons rest (isSpace_of_isDigit h)]
  simp only [bind, Except.bind]
  rw [if_neg (ne_of_isDigit h (by decide)), if_neg (ne_of_isDigit h (by decide)),
    if_neg (ne_of_isDigit h (by decide)), if_neg (ne_of_isDigit h (by decide)), if_pos h]
  cases readNumber false (d :: rest) <;> rfl

/-- A character of a number: a digit, a point, a sign or the letter of an exponent. -/
def isNumeric (c : Char) : Bool :=
  c.isDigit || ['.', 'e', '+', '-'].contains c

theorem isNumeric_of_isDigit {c : Char} (h : c.isDigit = true) : isNumeric c = true := by
  simp [isNumeric, h]

theorem isDigit_of_mem {n : Nat} {c : Char} (h : c ∈ Nat.toDigits 10 n) : c.isDigit = true :=
  Nat.isDigit_of_mem_toDigits (by omega) (by omega) h

theorem isNumeric_of_mem_writeDecimal {digits : Nat} {exponent : Int} {c : Char}
    (h : c ∈ writeDecimal digits exponent) : isNumeric c = true := by
  have hDigits {n : Nat} (h : c ∈ Nat.toDigits 10 n) : isNumeric c = true :=
    isNumeric_of_isDigit (isDigit_of_mem h)
  have hZeros {n : Nat} (h : c ∈ List.replicate n '0') : isNumeric c = true := by
    rw [List.eq_of_mem_replicate h]
    decide
  simp only [writeDecimal] at h
  split at h
  · simp only [List.mem_append, List.mem_cons, List.not_mem_nil, or_false] at h
    rcases h with (h | h) | rfl | rfl
    · exact hDigits h
    · exact hZeros h
    · decide
    · decide
  · split at h
    · rcases List.mem_append.mp h with h | h
      · exact hDigits (List.mem_of_mem_take h)
      · rcases List.mem_cons.mp h with rfl | h
        · decide
        · exact hDigits (List.mem_of_mem_drop h)
    · split at h
      · simp only [List.mem_append, List.mem_cons, List.not_mem_nil, or_false] at h
        rcases h with ((rfl | rfl) | h) | h
        · decide
        · decide
        · exact hZeros h
        · exact hDigits h
      · rcases List.mem_append.mp h with h | h
        · rcases List.mem_append.mp h with h | h
          · exact hDigits (List.mem_of_mem_take h)
          · split at h
            · cases h
            · rcases List.mem_cons.mp h with rfl | h
              · decide
              · exact hDigits (List.mem_of_mem_drop h)
        · simp only [List.mem_cons] at h
          rcases h with rfl | rfl | h
          · decide
          · split <;> decide
          · exact hDigits h

theorem writeDecimal_cons (digits : Nat) (exponent : Int) :
    ∃ c rest, writeDecimal digits exponent = c :: rest ∧ c.isDigit = true := by
  obtain ⟨c, rest, hText⟩ := List.exists_cons_of_ne_nil (Nat.toDigits_ne_nil (n := digits) (b := 10))
  have hDigit : c.isDigit = true := isDigit_of_mem (hText ▸ List.mem_cons_self)
  simp only [writeDecimal, hText]
  split
  · exact ⟨c, _, rfl, hDigit⟩
  · split
    · rename_i hPoint
      simp only [Bool.and_eq_true, decide_eq_true_eq] at hPoint
      obtain ⟨places, hPlaces⟩ := Int.eq_succ_of_zero_lt hPoint.1
      rw [hPlaces]
      exact ⟨c, _, rfl, hDigit⟩
    · split
      · exact ⟨'0', _, rfl, by decide⟩
      · exact ⟨c, _, rfl, hDigit⟩

theorem isSpace_of_isNumeric {c : Char} (h : isNumeric c = true) :
    c.toNat < 0x80 ∧ isSpace c.toUInt8 = false := by
  simp only [isNumeric, Bool.or_eq_true, List.contains_iff_mem, List.mem_cons, List.not_mem_nil,
    or_false] at h
  rcases h with h | rfl | rfl | rfl | rfl
  · have hRange := toNat_of_isDigit h
    exact ⟨by omega, isSpace_of_isDigit (isDigit_byte h)⟩
  all_goals decide

theorem isSpace_of_mem_encode {chars : List Char} (hNumeric : ∀ c ∈ chars, isNumeric c = true)
    {b : UInt8} (hb : b ∈ Text.encode chars) : isSpace b = false := by
  obtain ⟨c, hc, hByte⟩ := List.mem_flatMap.mp hb
  obtain ⟨hLow, hSpace⟩ := isSpace_of_isNumeric (hNumeric c hc)
  rw [Text.encodeChar_of_lt hLow, List.mem_singleton] at hByte
  rw [hByte, hSpace]

/-- A number of double precision that is read back from its decimal. -/
def Binary64.ReadsBack (x : Binary64) : Prop :=
  parseText (Json.number (.float x)).compact = .ok (.number (.float x))

theorem runReader_eq_ok {α : Type} {reader : Reader α} {input : Bytes} {value : α}
    (h : runReader reader input = .ok value) :
    ∃ rest, reader input = .ok (value, rest) ∧ afterSpaces rest = [] := by
  simp only [runReader, bind, Except.bind] at h
  cases hRead : reader input with
  | error s =>
      rw [hRead] at h
      cases h
  | ok found =>
      obtain ⟨found, rest⟩ := found
      simp only [hRead, finish] at h
      cases hSpaces : afterSpaces rest with
      | nil =>
          simp only [hSpaces] at h
          cases h
          exact ⟨rest, rfl, hSpaces⟩
      | cons b behind =>
          simp only [hSpaces] at h
          cases h

/-- The reader behind the sign of a number. -/
def afterSign (isNegative : Bool) (chars : List Char) (n : Number) : Prop :=
  ∀ tail, Delimited tail → readNumber isNegative (Text.encode chars ++ tail) = .ok (n, tail)

/-- A number that reads back by itself does so before every delimiter. -/
theorem afterSign_of_readNumber {isNegative : Bool} {chars : List Char} {n : Number}
    {rest : Bytes} (hNumeric : ∀ c ∈ chars, isNumeric c = true)
    (hRead : readNumber isNegative (Text.encode chars) = .ok (n, rest))
    (hRest : afterSpaces rest = []) : afterSign isNegative chars n := by
  obtain ⟨used, hUsed, hTails⟩ := local_readNumber _ _ _ _ hRead
  have hNil : rest = [] := by
    cases rest with
    | nil => rfl
    | cons b rest =>
        have hSpace : isSpace b = false :=
          isSpace_of_mem_encode hNumeric (hUsed ▸ List.mem_append_right _ List.mem_cons_self)
        rw [afterSpaces_cons rest hSpace] at hRest
        cases hRest
  rw [hNil, List.append_nil] at hUsed
  exact fun tail hTail => hUsed ▸ hTails tail hTail

theorem readValue_eq_valueWith (depth : Nat) :
    ∃ inner, readValue depth = valueWith inner := by
  cases depth with
  | zero => exact ⟨none, rfl⟩
  | succ depth => exact ⟨some (readValue depth), rfl⟩

theorem valueWith_number (inner : Option (Reader Json)) (isNegative : Bool) {c : Char}
    (chars : List Char) (hDigit : c.isDigit = true) (behind : Bytes) :
    valueWith inner (Text.encode ((if isNegative then ['-'] else []) ++ c :: chars) ++ behind) =
      (readNumber isNegative (Text.encode (c :: chars) ++ behind)).map fun found =>
        (.number found.1, found.2) := by
  have hLow : c.toNat < 0x80 := by
    have hRange := toNat_of_isDigit hDigit
    omega
  cases isNegative with
  | true =>
      rw [if_pos rfl, Text.encode_append, Text.encode_cons_of_lt [] (by decide), Text.encode_nil,
        List.append_assoc, List.singleton_append]
      exact valueWith_minus inner _
  | false =>
      rw [if_neg (by decide), List.nil_append, Text.encode_cons_of_lt _ hLow, List.cons_append]
      exact valueWith_digit inner _ (isDigit_byte hDigit)

theorem writeFloat_cons (x : Binary64) : ∃ c chars,
    writeFloat x = (if x.negative then ['-'] else []) ++ c :: chars ∧ c.isDigit = true ∧
      ∀ d ∈ c :: chars, isNumeric d = true := by
  obtain ⟨c, chars, hChars, hDigit⟩ := writeDecimal_cons (Binary64.shortest x.magnitude).1
    (Binary64.shortest x.magnitude).2
  refine ⟨c, chars, ?_, hDigit, fun d hd => isNumeric_of_mem_writeDecimal (hChars ▸ hd)⟩
  rw [← hChars]
  rfl

theorem writeInteger_cons (n : Int) : ∃ c chars, Nat.toDigits 10 n.natAbs = c :: chars ∧
    writeNumber (.integer n) = (if decide (n < 0) = true then ['-'] else []) ++ c :: chars ∧
      c.isDigit = true := by
  obtain ⟨c, chars, hChars⟩ :=
    List.exists_cons_of_ne_nil (Nat.toDigits_ne_nil (n := n.natAbs) (b := 10))
  refine ⟨c, chars, hChars, ?_, isDigit_of_mem (hChars ▸ List.mem_cons_self)⟩
  rw [← hChars]
  simp [writeNumber]

/-- A number of double precision that reads back by itself. -/
theorem Binary64.ReadsBack.readValue {x : Binary64} (h : x.ReadsBack) (depth : Nat) {tail : Bytes}
    (hTail : Delimited tail) :
    readValue depth (Text.encode (writeFloat x) ++ tail) = .ok (.number (.float x), tail) := by
  obtain ⟨c, chars, hFloat, hDigit, hNumeric⟩ := writeFloat_cons x
  have hText : Text.utf8 (Json.number (.float x)).compact = Text.encode (writeFloat x) :=
    Text.utf8_ofList _
  obtain ⟨rest, hRead, hRest⟩ := runReader_eq_ok h
  obtain ⟨inner, hInner⟩ := readValue_eq_valueWith maxDepth
  have hWhole := valueWith_number inner x.negative chars hDigit []
  rw [List.append_nil, List.append_nil, ← hFloat, ← hInner, ← hText, hRead] at hWhole
  cases hNumber : readNumber x.negative (Text.encode (c :: chars)) with
  | error s =>
      rw [hNumber] at hWhole
      cases hWhole
  | ok found =>
      rw [hNumber] at hWhole
      obtain ⟨n, behind⟩ := found
      cases hWhole
      have hTails := afterSign_of_readNumber hNumeric hNumber hRest
      obtain ⟨inner, hInner⟩ := readValue_eq_valueWith depth
      rw [hInner, hFloat, valueWith_number inner x.negative chars hDigit tail, hTails tail hTail]
      rfl

theorem le_ofDigitChars (chars : List Char) (start : Nat) :
    start ≤ Nat.ofDigitChars 10 chars start := by
  induction chars generalizing start with
  | nil => exact Nat.le_refl _
  | cons c chars ih =>
      rw [Nat.ofDigitChars_cons]
      exact Nat.le_trans (by omega) (ih _)

theorem encode_digits {chars : List Char} (hDigits : ∀ c ∈ chars, c.isDigit = true) :
    Text.encode chars = chars.map Char.toUInt8 := by
  induction chars with
  | nil => rfl
  | cons c chars ih =>
      have hRange := toNat_of_isDigit (hDigits c List.mem_cons_self)
      rw [Text.encode_cons_of_lt chars (by omega), List.map_cons,
        ih fun d hd => hDigits d (List.mem_cons_of_mem _ hd)]

/-- Digits whose value fits are all taken. -/
theorem significand_digits {chars : List Char} (hDigits : ∀ c ∈ chars, c.isDigit = true)
    {start : Nat} (hFits : Nat.ofDigitChars 10 chars start < Nat.pow 2 64) :
    significand start (chars.map Char.toUInt8) =
      (Nat.ofDigitChars 10 chars start, chars.length) := by
  induction chars generalizing start with
  | nil => rfl
  | cons c chars ih =>
      have hRange := toNat_of_isDigit (hDigits c List.mem_cons_self)
      have hValue : digitValue c.toUInt8 = c.toNat - '0'.toNat := by
        rw [digitValue, Text.toNat_toUInt8 (by omega)]
        rfl
      rw [Nat.ofDigitChars_cons] at hFits ⊢
      have hRest := ih (fun d hd => hDigits d (List.mem_cons_of_mem _ hd)) hFits
      have hLe := le_ofDigitChars chars (10 * start + (c.toNat - '0'.toNat))
      have hNext : 10 * start + (c.toNat - '0'.toNat) < Nat.pow 2 64 := by omega
      simp only [List.map_cons, significand, hValue, if_pos hNext, hRest, List.length_cons]

theorem digitChar_ne_zero : ∀ d < 10, 0 < d → d.digitChar ≠ '0' := by
  decide

theorem toDigits_head {n : Nat} (hPositive : 0 < n) :
    ∃ c rest, Nat.toDigits 10 n = c :: rest ∧ c ≠ '0' := by
  induction n using Nat.strongRecOn with
  | ind n ih =>
      by_cases hSmall : n < 10
      · exact ⟨n.digitChar, [], Nat.toDigits_of_lt_base hSmall,
          digitChar_ne_zero n hSmall hPositive⟩
      · obtain ⟨c, rest, hRest, hc⟩ := ih (n / 10) (by omega) (by omega)
        exact ⟨c, rest ++ [(n % 10).digitChar],
          by rw [Nat.toDigits_of_base_le (by omega) (by omega), hRest, List.cons_append], hc⟩

/-- The digits of a number that fits read back as the number. -/
theorem readNumber_toDigits (isNegative : Bool) {n : Nat} (hFits : n < Nat.pow 2 64) {tail : Bytes}
    (hTail : Delimited tail) :
    readNumber isNegative (Text.encode (Nat.toDigits 10 n) ++ tail) =
      wholeNumber isNegative n tail := by
  rcases Nat.eq_zero_or_pos n with rfl | hPositive
  · rw [Nat.toDigits_zero, encode_digits (List.forall_mem_singleton.mpr (by decide))]
    exact (readNumber_zero isNegative hTail.noDigit).trans (shortNumber_delimited _ _ hTail)
  · obtain ⟨c, chars, hChars, hZero⟩ := toDigits_head hPositive
    have hDigits : ∀ d ∈ c :: chars, d.isDigit = true :=
      fun d hd => isDigit_of_mem (hChars ▸ hd)
    have hValue : Nat.ofDigitChars 10 (c :: chars) 0 = n := by
      rw [← hChars, Nat.ofDigitChars_ten_toDigits]
    have hBound : Nat.ofDigitChars 10 (c :: chars) 0 < Nat.pow 2 64 := by
      rwa [hValue]
    have hSignificand := significand_digits hDigits hBound
    rw [hValue] at hSignificand
    have hBytes : ∀ b ∈ (c :: chars).map Char.toUInt8, isDigit b = true := by
      intro b hb
      obtain ⟨d, hd, rfl⟩ := List.mem_map.mp hb
      exact isDigit_byte (hDigits d hd)
    have hFirst : c.toUInt8 ≠ byte '0' := by
      have hRange := toNat_of_isDigit (hDigits c List.mem_cons_self)
      intro hEq
      have hNat := congrArg UInt8.toNat hEq
      rw [byte_eq, Text.toNat_toUInt8 (by omega), Text.toNat_toUInt8 (by decide)] at hNat
      exact hZero (Char.toNat_inj.mp hNat)
    rw [hChars, encode_digits hDigits]
    rw [List.map_cons] at hBytes hSignificand ⊢
    rw [readNumber_digits isNegative hFirst hBytes hTail.noDigit, behindDigits, hSignificand,
      if_pos (by simp), shortNumber_delimited _ _ hTail]

/-- An integer that fits into 64 bits, signed or not. -/
def IntegerFits (n : Int) : Prop :=
  -(2 ^ 63) ≤ n ∧ n < 2 ^ 64

/-- An integer reads back. -/
theorem readValue_integer {n : Int} (hFits : IntegerFits n) (depth : Nat) {tail : Bytes}
    (hTail : Delimited tail) :
    readValue depth (Text.encode (writeNumber (.integer n)) ++ tail) =
      .ok (.number (.integer n), tail) := by
  obtain ⟨c, chars, hChars, hText, hDigit⟩ := writeInteger_cons n
  have hPower : Nat.pow 2 64 = 18446744073709551616 := by decide
  simp only [IntegerFits] at hFits
  obtain ⟨inner, hInner⟩ := readValue_eq_valueWith depth
  rw [hInner, hText, valueWith_number inner _ chars hDigit tail, ← hChars,
    readNumber_toDigits _ (by omega) hTail, wholeNumber]
  by_cases hNegative : n < 0
  · have hSmall : n.natAbs ≤ Nat.pow 2 63 := by
      have hHalf : Nat.pow 2 63 = 9223372036854775808 := by decide
      omega
    have hValue : -(n.natAbs : Int) = n := by omega
    rw [if_neg (by simp [hNegative]), if_pos (by simp [hSmall]; omega), hValue]
    rfl
  · have hValue : (n.natAbs : Int) = n := by omega
    rw [if_pos (by simp [hNegative]), hValue]
    rfl

end PolicyBundle.Json
