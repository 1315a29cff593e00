import PolicyBundle.Archive.Pack
import PolicyBundle.Proofs.Text.Utf8
import Mathlib.Data.List.Basic

/-! The fields of a header read back: octal numbers and sizes as the numbers that were written, and
the block of a header as the header. -/

namespace PolicyBundle

theorem Text.trim_of_forall {text : List Char} (h : ∀ c ∈ text, isBlank c = false) :
    trim text = text := by
  have hDrop {chars : List Char} (hChars : ∀ c ∈ chars, isBlank c = false) :
      chars.dropWhile isBlank = chars := by
    cases chars with
    | nil => rfl
    | cons c chars =>
        have hFirst := hChars c (by simp)
        rw [List.dropWhile_cons_of_neg (by simp [hFirst])]
  have hReverse : ∀ c ∈ text.reverse, isBlank c = false :=
    fun c hc => h c (List.mem_reverse.mp hc)
  rw [trim, dropEnds, hDrop h, hDrop hReverse, List.reverse_reverse]

namespace Archive

open Pack

/-- The last octal digits of a number as characters. -/
def octalChars : (width : Nat) → Nat → List Char
  | 0, _ => []
  | width + 1, n => octalChars width (n / 8) ++ [Nat.digitChar (n % 8)]

theorem octal_digit : ∀ d < 8, (Nat.digitChar d).toNat = '0'.toNat + d ∧
    '0' ≤ Nat.digitChar d ∧ Nat.digitChar d ≤ '7' := by
  decide

theorem octalChars_range {width n : Nat} {c : Char} (h : c ∈ octalChars width n) :
    '0' ≤ c ∧ c ≤ '7' := by
  induction width generalizing n with
  | zero => cases h
  | succ width ih =>
      rcases List.mem_append.mp h with h | h
      · exact ih h
      · obtain rfl := List.mem_singleton.mp h
        exact (octal_digit (n % 8) (Nat.mod_lt n (by omega))).2

theorem toNat_octalChars {width n : Nat} {c : Char} (h : c ∈ octalChars width n) :
    48 ≤ c.toNat ∧ c.toNat ≤ 55 := by
  exact octalChars_range h

theorem octalDigits_eq (width n : Nat) :
    octalDigits width n = Text.utf8 (String.ofList (octalChars width n)) := by
  rw [Text.utf8_ofList]
  induction width generalizing n with
  | zero => rfl
  | succ width ih =>
      have hDigit := octal_digit (n % 8) (Nat.mod_lt n (by omega))
      have hByte : UInt8.ofNat ('0'.toNat + n % 8) = (Nat.digitChar (n % 8)).toUInt8 := by
        rw [← hDigit.1]
        rfl
      have hLow : (Nat.digitChar (n % 8)).toNat < 0x80 := by
        have hZero : '0'.toNat = 48 := rfl
        omega
      rw [octalDigits, octalChars, ih, Text.encode_append, Text.encode_cons_of_lt _ hLow,
        Text.encode_nil, hByte]

theorem foldl_octalChars (width n : Nat) :
    (octalChars width n).foldl (fun n c => 8 * n + (c.toNat - '0'.toNat)) 0 =
      n % Nat.pow 8 width := by
  induction width generalizing n with
  | zero => exact (Nat.mod_one n).symm
  | succ width ih =>
      have hDigit := octal_digit (n % 8) (Nat.mod_lt n (by omega))
      have hPow : Nat.pow 8 (width + 1) = 8 * Nat.pow 8 width := Nat.mul_comm _ _
      rw [octalChars, List.foldl_append, ih, List.foldl_cons, List.foldl_nil, hDigit.1, hPow,
        Nat.mod_mul]
      omega

theorem text_padTo {bytes : Bytes} (width : Nat) (hZero : (0 : UInt8) ∉ bytes) :
    Header.text (padTo width bytes) = bytes := by
  have hAll : ∀ b ∈ bytes, decide (b ≠ 0) = true :=
    fun b hb => decide_eq_true fun hEq => hZero (hEq ▸ hb)
  rw [Header.text, padTo, List.takeWhile_append_of_pos hAll, zeros, List.takeWhile_replicate]
  simp

theorem zero_notMem_octalDigits (width n : Nat) : (0 : UInt8) ∉ octalDigits width n := by
  rw [octalDigits_eq]
  intro hMem
  have hChar := (Text.mem_utf8_iff (c := '\x00') (by decide) _).mp hMem
  rw [String.toList_ofList] at hChar
  exact absurd (toNat_octalChars hChar).1 (by decide)

theorem ofOctal?_octalChars {width n : Nat} (hWidth : 0 < width) (hFits : n < Nat.pow 8 width) :
    Header.ofOctal? (octalChars width n) = some n := by
  have hNonempty : (octalChars width n).isEmpty = false := by
    obtain ⟨width, rfl⟩ : ∃ less, width = less + 1 := ⟨width - 1, by omega⟩
    simp [octalChars]
  have hOctal : (octalChars width n).all (fun c => '0' ≤ c && c ≤ '7') = true := by
    rw [List.all_eq_true]
    intro c hc
    simp [octalChars_range hc]
  have hValue := foldl_octalChars width n
  rw [Nat.mod_eq_of_lt hFits] at hValue
  simp only [Header.ofOctal?, hNonempty, hOctal]
  exact congrArg some hValue

/-- Octal digits read back as the number, if it fits. -/
theorem octal_octalField (purpose : String) {width n : Nat} (hWidth : 2 ≤ width)
    (hFits : n < Nat.pow 8 (width - 1)) :
    Header.octal purpose (octalField width n) = .ok n := by
  have hText : Header.text (octalField width n) = octalDigits (width - 1) n := by
    have hPad := text_padTo ((octalDigits (width - 1) n).length + 1)
      (zero_notMem_octalDigits (width - 1) n)
    simpa [padTo, zeros, octalField] using hPad
  have hTrim : Text.trim (octalChars (width - 1) n) = octalChars (width - 1) n := by
    apply Text.trim_of_forall
    intro c hc
    have hRange := toNat_octalChars hc
    simp only [Text.isBlank, Bool.or_eq_false_iff, Bool.and_eq_false_iff, decide_eq_false_iff_not,
      beq_eq_false_iff_ne]
    omega
  have hValue := ofOctal?_octalChars (by omega) hFits
  simp only [Header.octal, hText, octalDigits_eq, Text.ofUtf8?_utf8, String.toList_ofList, hTrim]
  split
  · rename_i number hNumber
    split at hNumber
    · rename_i rest hPlus
      have hRange := toNat_octalChars (hPlus ▸ List.mem_cons_self)
      exact absurd hRange.1 (by decide)
    · rw [hValue] at hNumber
      exact congrArg _ (Option.some.inj hNumber).symm
  · rename_i hNumber
    split at hNumber
    · rename_i rest hPlus
      have hRange := toNat_octalChars (hPlus ▸ List.mem_cons_self)
      exact absurd hRange.1 (by decide)
    · rw [hValue] at hNumber
      cases hNumber

theorem length_octalDigits (width n : Nat) : (octalDigits width n).length = width := by
  induction width generalizing n with
  | zero => rfl
  | succ width ih => simp [octalDigits, ih]

theorem length_octalField {width : Nat} (n : Nat) (hWidth : 0 < width) :
    (octalField width n).length = width := by
  rw [octalField, List.length_append, length_octalDigits, List.length_singleton]
  omega

theorem lt_of_mem_octalField {width n : Nat} {b : UInt8} (h : b ∈ octalField width n) :
    b < 0x80 := by
  rcases List.mem_append.mp h with h | h
  · rw [octalDigits_eq, Text.utf8_ofList, Text.encode, List.mem_flatMap] at h
    obtain ⟨c, hc, hByte⟩ := h
    have hRange := toNat_octalChars hc
    have hLow : c.toNat < 0x80 := by omega
    rw [Text.encodeChar_of_lt hLow, List.mem_singleton] at hByte
    rwa [hByte, UInt8.lt_iff_toNat_lt, Text.toNat_toUInt8 hLow]
  · rw [List.mem_singleton.mp h]
    decide

/-- A size reads back, written in octal digits or not. -/
theorem number_sizeField (purpose : String) {size : Nat} (hFits : size < Nat.pow 2 64) :
    Header.number purpose (sizeField size) = .ok size := by
  rw [sizeField]
  split
  · rename_i hOctal
    have hHead : ¬(octalField 12 size).headD 0 ≥ 0x80 := by
      cases hField : octalField 12 size with
      | nil => decide
      | cons b rest =>
          have hLow : b < 0x80 := lt_of_mem_octalField (hField ▸ List.mem_cons_self)
          simpa using hLow
    rw [Header.number, if_neg hHead, octal_octalField purpose (by omega) hOctal]
  · have hDrop : (0x80 :: zeros 3 ++ bigEndian 8 size).drop 4 = bigEndian 8 size := rfl
    have hHead : (0x80 :: zeros 3 ++ bigEndian 8 size).headD 0 ≥ 0x80 :=
      show (0x80 : UInt8) ≥ 0x80 by decide
    rw [Header.number, if_pos hHead, hDrop, ofBigEndian_bigEndian,
      Nat.mod_eq_of_lt (Nat.lt_of_lt_of_le hFits (by decide))]

theorem length_sizeField (size : Nat) : (sizeField size).length = 12 := by
  rw [sizeField]
  split
  · exact length_octalField size (by omega)
  · simp [zeros]

end Archive

end PolicyBundle
