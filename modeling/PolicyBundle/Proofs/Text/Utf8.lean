import PolicyBundle.Text.Basic
import PolicyBundle.Text.Utf8

/-! The UTF-8 form of a text, character by character. A character of ASCII is a single byte, and the
bytes of all others lie above those, so a text can be searched for it in its bytes. The first byte of
a character stands at no other place in one, so a text can be cut where a character stands. -/

namespace PolicyBundle.Text

/-- The bytes of characters. -/
def encode (chars : List Char) : Bytes :=
  chars.flatMap String.utf8EncodeChar

@[simp] theorem encode_nil : encode [] = [] := rfl

@[simp] theorem encode_append (left right : List Char) :
    encode (left ++ right) = encode left ++ encode right :=
  List.flatMap_append

theorem utf8_ofList (chars : List Char) : utf8 (String.ofList chars) = encode chars := by
  rw [utf8, String.toUTF8_eq_toByteArray, String.toByteArray_ofList, List.utf8Encode, encode]
  simp

theorem utf8_eq_encode (text : String) : utf8 text = encode text.toList := by
  rw [← utf8_ofList, String.ofList_toList]

theorem utf8_injective {left right : String} (h : utf8 left = utf8 right) : left = right := by
  have hRead := congrArg ofUtf8? h
  rwa [ofUtf8?_utf8, ofUtf8?_utf8, Option.some.injEq] at hRead

theorem utf8_eq_nil_iff (text : String) : utf8 text = [] ↔ text = "" :=
  ⟨fun h => utf8_injective (h.trans rfl), fun h => h ▸ rfl⟩

/-- The bytes of a join are the joined bytes. -/
theorem utf8_join (separator : String) (parts : List String) :
    utf8 (join separator parts) = (utf8 separator).intercalate (parts.map utf8) := by
  rw [join, utf8_ofList]
  induction parts with
  | nil => rfl
  | cons part parts ih =>
      cases parts with
      | nil => simp [utf8_eq_encode]
      | cons next parts =>
          simp only [List.map_cons, List.intercalate_cons_cons, encode_append] at ih ⊢
          rw [ih, utf8_eq_encode separator, utf8_eq_encode part]

theorem encodeChar_of_lt {c : Char} (h : c.toNat < 0x80) :
    String.utf8EncodeChar c = [c.toUInt8] := by
  have hSize : c.utf8Size = 1 := by
    rw [Char.utf8Size_eq_one_iff, UInt32.le_iff_toNat_le]
    exact Nat.le_of_lt_succ h
  rw [String.utf8EncodeChar_eq_singleton hSize]
  rfl

theorem encode_cons_of_lt {c : Char} (chars : List Char) (h : c.toNat < 0x80) :
    encode (c :: chars) = c.toUInt8 :: encode chars := by
  rw [encode, List.flatMap_cons, encodeChar_of_lt h, List.singleton_append, encode]

theorem le_of_mem_encodeChar {c : Char} {b : UInt8} (hHigh : 0x80 ≤ c.toNat)
    (hMem : b ∈ String.utf8EncodeChar c) : 0x80 ≤ b := by
  have hLarge : ¬c.val.toNat ≤ 127 := by
    have hVal : c.toNat = c.val.toNat := rfl
    omega
  have hByte (n : Nat) (hLow : 128 ≤ n) (hUp : n < 256) : (0x80 : UInt8) ≤ UInt8.ofNat n := by
    rw [UInt8.le_iff_toNat_le, UInt8.toNat_ofNat']
    simpa [Nat.mod_eq_of_lt hUp] using hLow
  simp only [String.utf8EncodeChar, hLarge, if_false] at hMem
  split at hMem
  · rcases List.mem_cons.mp hMem with rfl | hMem
    · exact hByte _ (by omega) (by omega)
    · obtain rfl := List.mem_singleton.mp hMem
      exact hByte _ (by omega) (by omega)
  · split at hMem
    · simp only [List.mem_cons, List.not_mem_nil, or_false] at hMem
      rcases hMem with rfl | rfl | rfl <;> exact hByte _ (by omega) (by omega)
    · simp only [List.mem_cons, List.not_mem_nil, or_false] at hMem
      rcases hMem with rfl | rfl | rfl | rfl <;> exact hByte _ (by omega) (by omega)

theorem toNat_toUInt8 {c : Char} (h : c.toNat < 0x80) : c.toUInt8.toNat = c.toNat := by
  rw [Char.toUInt8, UInt32.toNat_toUInt8]
  exact Nat.mod_eq_of_lt (Nat.lt_of_lt_of_le h (by omega))

/-- The bytes of a text have a character of ASCII where the text has it. -/
theorem mem_utf8_iff {c : Char} (hLow : c.toNat < 0x80) (text : String) :
    c.toUInt8 ∈ utf8 text ↔ c ∈ text.toList := by
  rw [utf8_eq_encode, encode, List.mem_flatMap]
  constructor
  · rintro ⟨d, hMem, hByte⟩
    by_cases hAscii : d.toNat < 0x80
    · rw [encodeChar_of_lt hAscii, List.mem_singleton] at hByte
      have hNat : c.toNat = d.toNat := by
        rw [← toNat_toUInt8 hLow, ← toNat_toUInt8 hAscii, hByte]
      rwa [← Char.toNat_inj.mp hNat] at hMem
    · have hLe := UInt8.le_iff_toNat_le.mp (le_of_mem_encodeChar (by omega) hByte)
      rw [toNat_toUInt8 hLow] at hLe
      exact absurd hLow (Nat.not_lt.mpr hLe)
  · intro hMem
    exact ⟨c, hMem, by simp [encodeChar_of_lt hLow]⟩

/-- Bytes that are the UTF-8 form of a text. -/
def IsText (bytes : Bytes) : Prop :=
  ∃ chars, encode chars = bytes

theorem isText_nil : IsText [] :=
  ⟨[], rfl⟩

theorem IsText.append {left right : Bytes} (hLeft : IsText left) (hRight : IsText right) :
    IsText (left ++ right) := by
  obtain ⟨chars, rfl⟩ := hLeft
  obtain ⟨more, rfl⟩ := hRight
  exact ⟨chars ++ more, encode_append chars more⟩

theorem ofUtf8?_eq_some_iff {bytes : Bytes} {text : String} :
    ofUtf8? bytes = some text ↔ bytes = utf8 text := by
  constructor
  · intro h
    simp only [ofUtf8?, String.fromUTF8?] at h
    split at h
    · cases h
      simp [utf8, String.fromUTF8]
    · cases h
  · rintro rfl
    exact ofUtf8?_utf8 text

theorem isText_iff {bytes : Bytes} : IsText bytes ↔ ∃ text, ofUtf8? bytes = some text := by
  constructor
  · rintro ⟨chars, rfl⟩
    exact ⟨String.ofList chars, ofUtf8?_eq_some_iff.mpr (utf8_ofList chars).symm⟩
  · rintro ⟨text, hText⟩
    exact ⟨text.toList, by rw [ofUtf8?_eq_some_iff.mp hText, utf8_eq_encode]⟩

/-- A byte of ASCII is a character. -/
theorem encode_ofUInt8 {b : UInt8} (h : b < 0x80) : encode [Char.ofUInt8 b] = [b] := by
  have hNat : (Char.ofUInt8 b).toNat = b.toNat := UInt8.toNat_toUInt32 b
  have hLow : (Char.ofUInt8 b).toNat < 0x80 := by
    rw [hNat]
    exact UInt8.lt_iff_toNat_lt.mp h
  rw [encode_cons_of_lt _ hLow, encode_nil]
  congr 1
  apply UInt8.toNat_inj.mp
  rw [toNat_toUInt8 hLow, hNat]

theorem isText_of_ascii {bytes : Bytes} (h : ∀ b ∈ bytes, b < 0x80) : IsText bytes := by
  induction bytes with
  | nil => exact isText_nil
  | cons b bytes ih =>
      obtain ⟨hFirst, hRest⟩ := List.forall_mem_cons.mp h
      exact IsText.append ⟨_, encode_ofUInt8 hFirst⟩ (ih hRest)

/-- A text can be cut in front of a byte that begins a character. -/
theorem encode_eq_append_cons {chars : List Char} {front behind : Bytes} {b : UInt8}
    (hFirst : b.IsUTF8FirstByte) (h : encode chars = front ++ b :: behind) :
    IsText front ∧ IsText (b :: behind) := by
  induction chars generalizing front with
  | nil => simp at h
  | cons c chars ih =>
      have hCons : encode (c :: chars) = String.utf8EncodeChar c ++ encode chars := rfl
      rw [hCons, List.append_eq_append_iff] at h
      rcases h with ⟨more, rfl, hMore⟩ | ⟨piece, hPiece, hRest⟩
      · obtain ⟨hFront, hBehind⟩ := ih hMore
        exact ⟨IsText.append ⟨[c], List.flatMap_singleton _ _⟩ hFront, hBehind⟩
      · cases piece with
        | nil =>
            rw [List.append_nil] at hPiece
            exact ⟨⟨[c], by rw [← hPiece]; exact List.flatMap_singleton _ _⟩, chars, hRest.symm⟩
        | cons d piece =>
            obtain ⟨rfl, rfl⟩ : b = d ∧ behind = piece ++ encode chars := by simpa using hRest
            have hIndex : front.length < (String.utf8EncodeChar c).length := by simp [hPiece]
            have hByte : (String.utf8EncodeChar c)[front.length] = b := by simp [hPiece]
            have hZero : front.length = 0 := by
              rw [← hByte] at hFirst
              exact UInt8.isUTF8FirstByte_getElem_utf8EncodeChar.mp hFirst
            rw [List.length_eq_zero_iff] at hZero
            subst hZero
            refine ⟨isText_nil, c :: chars, ?_⟩
            rw [hCons, hPiece, List.nil_append, List.cons_append]

/-- What stands around a character of a text is text. -/
theorem IsText.around {front behind : Bytes} (c : Char)
    (h : IsText (front ++ encode [c] ++ behind)) : IsText front ∧ IsText behind := by
  obtain ⟨chars, hChars⟩ := h
  have hSome : 0 < (String.utf8EncodeChar c).length := by
    rw [String.length_utf8EncodeChar]
    exact c.utf8Size_pos
  obtain ⟨b, rest, hChar⟩ := List.exists_cons_of_length_pos hSome
  have hFirst : b.IsUTF8FirstByte := by
    have hHead : (String.utf8EncodeChar c)[0] = b := by simp [hChar]
    rw [← hHead]
    exact UInt8.isUTF8FirstByte_getElem_utf8EncodeChar.mpr rfl
  have hEncode : encode [c] = b :: rest := by
    rw [← hChar]
    exact List.flatMap_singleton _ _
  rw [List.append_assoc, hEncode, List.cons_append] at hChars
  obtain ⟨hFront, more, hMore⟩ := encode_eq_append_cons hFirst hChars
  refine ⟨hFront, ?_⟩
  rw [← List.cons_append, ← hEncode] at hMore
  have hBytes : [c].utf8Encode ++ behind.toByteArray = more.utf8Encode := by
    rw [List.utf8Encode, List.utf8Encode, ← List.toByteArray_append]
    exact congrArg List.toByteArray hMore.symm
  obtain ⟨left, rfl⟩ := List.isPrefix_of_utf8Encode_append_eq_utf8Encode _ hBytes
  rw [encode_append] at hMore
  exact ⟨left, List.append_cancel_left hMore⟩

end PolicyBundle.Text
