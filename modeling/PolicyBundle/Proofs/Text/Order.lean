import Mathlib.Data.String.Basic
import PolicyBundle.Proofs.Text.Utf8

/-! Texts are in the order of their characters, and that is the order of their bytes: of two
characters, the first byte that differs is less in the lesser one. -/

namespace PolicyBundle.Text

theorem toNat_val_lt (c : Char) : c.val.toNat < 0x110000 := by
  have hValid := c.valid
  simp only [UInt32.isValidChar, Nat.isValidChar] at hValid
  omega

/-- The bytes of a lesser character come first, whatever stands behind. -/
theorem encodeChar_append_lt {c d : Char} (h : c < d) (left right : Bytes) :
    String.utf8EncodeChar c ++ left < String.utf8EncodeChar d ++ right := by
  have hLess : c.val.toNat < d.val.toNat := UInt32.lt_iff_toNat_lt.mp (Char.lt_def.mp h)
  have hByte (m n : Nat) : UInt8.ofNat m < UInt8.ofNat n ↔ m % 256 < n % 256 := by
    rw [UInt8.lt_iff_toNat_lt, UInt8.toNat_ofNat', UInt8.toNat_ofNat']
  have hSame (m n : Nat) : UInt8.ofNat m = UInt8.ofNat n ↔ m % 256 = n % 256 := by
    rw [← UInt8.toNat_inj, UInt8.toNat_ofNat', UInt8.toNat_ofNat']
  -- no bit is lost above a byte, and the high bits of a character are those of its quotients
  have hWhole (n : Nat) : (n % 64 + 128) % 256 = n % 64 + 128 ∧ (n % 8 + 240) % 256 = n % 8 + 240 :=
    ⟨Nat.mod_eq_of_lt (by omega), Nat.mod_eq_of_lt (by omega)⟩
  have hDigits (n : Nat) (hLarge : n < 0x110000) :
      n / 64 / 64 = n / 4096 ∧ n / 4096 / 64 = n / 262144 ∧ n / 262144 % 8 = n / 262144 := by
    rw [Nat.div_div_eq_div_mul, Nat.div_div_eq_div_mul]
    exact ⟨rfl, rfl, Nat.mod_eq_of_lt (by omega)⟩
  have hLeft := hDigits _ (toNat_val_lt c)
  have hRight := hDigits _ (toNat_val_lt d)
  generalize hm : c.val.toNat = m at *
  generalize hn : d.val.toNat = n at *
  simp only [String.utf8EncodeChar, hm, hn]
  repeat' split
  all_goals
    simp only [List.cons_append, List.nil_append, List.cons_lt_cons_iff, hByte, hSame, hWhole]
    omega

/-- Characters that come first do so in their bytes. -/
theorem encode_lt {left right : List Char} (h : left < right) : encode left < encode right := by
  induction left generalizing right with
  | nil =>
      cases right with
      | nil => exact absurd h (List.not_lt_nil _)
      | cons d right =>
          have hSome : 0 < (encode (d :: right)).length := by
            rw [encode, List.flatMap_cons, List.length_append, String.length_utf8EncodeChar]
            exact Nat.add_pos_left d.utf8Size_pos _
          obtain ⟨b, rest, hBytes⟩ := List.exists_cons_of_length_pos hSome
          rw [hBytes]
          exact List.nil_lt_cons b rest
  | cons c left ih =>
      cases right with
      | nil => exact absurd h (List.not_lt_nil _)
      | cons d right =>
          simp only [encode, List.flatMap_cons]
          rcases List.cons_lt_cons_iff.mp h with hLess | ⟨rfl, hRest⟩
          · exact encodeChar_append_lt hLess _ _
          · exact List.append_left_lt (ih hRest)

/-- The order of texts is the order of their bytes. -/
theorem utf8_lt_iff {left right : String} : utf8 left < utf8 right ↔ left < right := by
  rw [utf8_eq_encode, utf8_eq_encode, String.lt_iff_toList_lt]
  refine ⟨fun h => ?_, encode_lt⟩
  rcases lt_trichotomy left.toList right.toList with hLess | hEq | hMore
  · exact hLess
  · rw [hEq] at h
    exact absurd h (List.lt_irrefl _)
  · exact absurd (encode_lt hMore) (List.lt_asymm h)

end PolicyBundle.Text
