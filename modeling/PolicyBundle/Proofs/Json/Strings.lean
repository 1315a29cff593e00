import PolicyBundle.Proofs.Json.Delimiters
import PolicyBundle.Proofs.Text.Utf8

/-! Strings read back from what is written of them, character by character: an escape as the
character that it stands for, and every other character as its bytes. -/

namespace PolicyBundle.Json

theorem hexValue?_digitChar : ∀ d < 16, hexValue? (Nat.digitChar d).toUInt8 = some d := by
  decide

theorem toNat_digitChar_lt : ∀ d < 16, (Nat.digitChar d).toNat < 0x80 := by
  decide

theorem utf8_toString (c : Char) : Text.utf8 c.toString = Text.encode [c] := by
  rw [Text.utf8_eq_encode]
  simp

/-- The bytes of a character below the space are itself. -/
theorem encode_control {c : Char} (h : c.toNat < 0x20) : Text.encode [c] = [c.toUInt8] :=
  Text.encode_cons_of_lt [] (by omega)

/-- The code point of a control character is read from its hexadecimal digits. -/
theorem unicodeEscape_control {c : Char} (hControl : c.toNat < 0x20) (rest : Bytes) :
    unicodeEscape (Text.encode ['0', '0', Nat.digitChar (c.toNat / 16),
      Nat.digitChar (c.toNat % 16)] ++ rest) = .ok (c, rest) := by
  have hHigh : c.toNat / 16 < 16 := by omega
  have hLow : c.toNat % 16 < 16 := by omega
  have hZero : hexValue? '0'.toUInt8 = some 0 := by decide
  have hValue : ((0 * 16 + 0) * 16 + c.toNat / 16) * 16 + c.toNat % 16 = c.toNat := by omega
  have hEscape : hexEscape (Text.encode ['0', '0', Nat.digitChar (c.toNat / 16),
      Nat.digitChar (c.toNat % 16)] ++ rest) = .ok (c.toNat, rest) := by
    rw [Text.encode_cons_of_lt _ (by decide), Text.encode_cons_of_lt _ (by decide),
      Text.encode_cons_of_lt _ (toNat_digitChar_lt _ hHigh),
      Text.encode_cons_of_lt _ (toNat_digitChar_lt _ hLow)]
    simp only [Text.encode_nil, List.cons_append, List.nil_append, hexEscape, hZero,
      hexValue?_digitChar _ hHigh, hexValue?_digitChar _ hLow, hValue]
  simp only [unicodeEscape, hEscape, bind, Except.bind]
  rw [if_neg (by simp; omega), if_pos (by simp; omega), Char.ofNat_toNat]

/-- A control character reads back from its escape. -/
theorem readEscape_control {c : Char} (hControl : c.toNat < 0x20) (rest : Bytes) :
    ∃ escaped, controlEscape c = '\\' :: escaped ∧
      readEscape (Text.encode escaped ++ rest) = .ok (Text.encode [c], rest) := by
  rw [encode_control hControl]
  simp only [controlEscape]
  split
  · rename_i hc
    subst hc
    exact ⟨['n'], rfl, rfl⟩
  · split
    · rename_i hc
      subst hc
      exact ⟨['r'], rfl, rfl⟩
    · split
      · rename_i hc
        subst hc
        exact ⟨['t'], rfl, rfl⟩
      · split
        · rename_i hc
          obtain rfl : c = Char.ofNat 8 := Char.toNat_inj.mp (by rw [hc]; rfl)
          exact ⟨['b'], rfl, rfl⟩
        · split
          · rename_i hc
            obtain rfl : c = Char.ofNat 12 := Char.toNat_inj.mp (by rw [hc]; rfl)
            exact ⟨['f'], rfl, rfl⟩
          · refine ⟨['u', '0', '0', Nat.digitChar (c.toNat / 16), Nat.digitChar (c.toNat % 16)],
              rfl, ?_⟩
            have hRead := unicodeEscape_control hControl rest
            rw [← encode_control hControl, Text.encode_cons_of_lt _ (by decide), List.cons_append,
              readEscape, if_pos (by decide), hRead]
            simp only [bind, Except.bind, utf8_toString]

/-- Bytes that a string has as they are. -/
def IsPlain (b : UInt8) : Prop :=
  b ≠ byte '"' ∧ b ≠ byte '\\' ∧ ¬b < 0x20

theorem stringFrom_plain {bytes : Bytes} (hPlain : ∀ b ∈ bytes, IsPlain b) (rounds : Nat)
    (done rest : Bytes) :
    stringFrom (rounds + bytes.length) done (bytes ++ rest) =
      stringFrom rounds (bytes.reverse ++ done) rest := by
  induction bytes generalizing done with
  | nil => rfl
  | cons b bytes ih =>
      obtain ⟨hQuote, hBackslash, hControl⟩ := hPlain b List.mem_cons_self
      have hRest := ih (fun c hc => hPlain c (List.mem_cons_of_mem _ hc)) (b :: done)
      rw [List.length_cons, ← Nat.add_assoc, List.cons_append, List.reverse_cons,
        List.append_assoc, List.singleton_append, ← hRest, stringFrom, if_neg hQuote,
        if_neg hBackslash, if_neg hControl]

/-- The bytes of a character that is no control, no quote and no backslash. -/
theorem isPlain_of_mem {c : Char} (hQuote : c ≠ '"') (hBackslash : c ≠ '\\')
    (hControl : ¬c.toNat < 0x20) {b : UInt8} (hb : b ∈ Text.encode [c]) : IsPlain b := by
  by_cases hLow : c.toNat < 0x80
  · rw [Text.encode_cons_of_lt [] hLow, Text.encode_nil, List.mem_singleton] at hb
    subst hb
    have hNat := Text.toNat_toUInt8 hLow
    have hOther {d : Char} (hAscii : d.toNat < 0x80) (hNe : c ≠ d) : c.toUInt8 ≠ byte d := by
      intro hEq
      have hEqual := congrArg UInt8.toNat hEq
      rw [byte_eq, hNat, Text.toNat_toUInt8 hAscii] at hEqual
      exact hNe (Char.toNat_inj.mp hEqual)
    refine ⟨hOther (by decide) hQuote, hOther (by decide) hBackslash, ?_⟩
    rw [UInt8.lt_iff_toNat_lt, hNat]
    exact hControl
  · rw [Text.encode, List.flatMap_singleton] at hb
    have hHigh := UInt8.le_iff_toNat_le.mp (Text.le_of_mem_encodeChar (by omega) hb)
    have hNe {d : UInt8} (hAscii : d.toNat < 0x80) : b ≠ d := by
      rintro rfl
      exact absurd hHigh (Nat.not_le.mpr hAscii)
    refine ⟨hNe (by decide), hNe (by decide), ?_⟩
    rw [UInt8.lt_iff_toNat_lt]
    have hBound : (0x80 : UInt8).toNat = 128 := rfl
    have hSpace : (0x20 : UInt8).toNat = 32 := rfl
    omega

/-- One written character of a string, with rounds left for what is behind it. -/
theorem stringFrom_escape (c : Char) (rounds : Nat) (done rest : Bytes) :
    ∃ left, rounds ≤ left ∧
      stringFrom (rounds + (Text.encode (escape c)).length) done (Text.encode (escape c) ++ rest) =
        stringFrom left ((Text.encode [c]).reverse ++ done) rest := by
  have hEscaped {escaped : List Char} (hEscape : escape c = '\\' :: escaped)
      (hRead : readEscape (Text.encode escaped ++ rest) = .ok (Text.encode [c], rest)) :
      ∃ left, rounds ≤ left ∧
        stringFrom (rounds + (Text.encode (escape c)).length) done
          (Text.encode (escape c) ++ rest) =
            stringFrom left ((Text.encode [c]).reverse ++ done) rest := by
    refine ⟨rounds + (Text.encode escaped).length, by omega, ?_⟩
    rw [hEscape, Text.encode_cons_of_lt _ (by decide), List.length_cons, ← Nat.add_assoc,
      List.cons_append, stringFrom, if_neg (by decide), if_pos (by decide), hRead]
    rfl
  by_cases hQuote : c = '"'
  · subst hQuote
    exact hEscaped rfl rfl
  · by_cases hBackslash : c = '\\'
    · subst hBackslash
      exact hEscaped rfl rfl
    · by_cases hControl : c.toNat < 0x20
      · obtain ⟨escaped, hEscape, hRead⟩ := readEscape_control hControl rest
        have hWritten : escape c = '\\' :: escaped := by
          rw [escape, if_neg hQuote, if_neg hBackslash, if_pos hControl, hEscape]
        exact hEscaped hWritten hRead
      · have hEscape : escape c = [c] := by
          rw [escape, if_neg hQuote, if_neg hBackslash, if_neg hControl]
        rw [hEscape]
        exact ⟨rounds, Nat.le_refl _,
          stringFrom_plain (fun b hb => isPlain_of_mem hQuote hBackslash hControl hb) _ _ _⟩

theorem stringFrom_written (chars : List Char) {rounds : Nat} (done rest : Bytes)
    (hRounds : (Text.encode (chars.flatMap escape)).length < rounds) :
    stringFrom rounds done (Text.encode (chars.flatMap escape) ++ byte '"' :: rest) =
      .ok (Text.ofUtf8? (done.reverse ++ Text.encode chars), rest) := by
  induction chars generalizing rounds done with
  | nil =>
      obtain ⟨rounds, rfl⟩ : ∃ less, rounds = less + 1 := ⟨rounds - 1, by omega⟩
      simp [stringFrom]
  | cons c chars ih =>
      rw [List.flatMap_cons, Text.encode_append, List.length_append] at hRounds
      obtain ⟨left, hLeft, hFirst⟩ := stringFrom_escape c
        (rounds - (Text.encode (escape c)).length) done
        (Text.encode (chars.flatMap escape) ++ byte '"' :: rest)
      rw [Nat.sub_add_cancel (by omega)] at hFirst
      rw [List.flatMap_cons, Text.encode_append, List.append_assoc, hFirst,
        ih _ (by omega)]
      have hCons : Text.encode (c :: chars) = Text.encode [c] ++ Text.encode chars :=
        Text.encode_append [c] chars
      rw [hCons]
      simp

/-- A string reads back behind its opening quote, whatever follows. -/
theorem readString_written (text : String) (rest : Bytes) :
    readString (Text.encode (text.toList.flatMap escape) ++ byte '"' :: rest) =
      .ok (text, rest) := by
  have hRounds : (Text.encode (text.toList.flatMap escape)).length <
      (Text.encode (text.toList.flatMap escape) ++ byte '"' :: rest).length := by
    simp
  have hFrom := stringFrom_written text.toList [] rest hRounds
  rw [List.reverse_nil, List.nil_append, ← Text.utf8_eq_encode, Text.ofUtf8?_utf8] at hFrom
  simp only [readString, hFrom]

end PolicyBundle.Json
