import PolicyBundle.Proofs.Text.Utf8

/-! The lenient reading of bytes makes up no characters of ASCII: where the text has one, the bytes
have it too. So what was looked for in the bytes need not be looked for again in the text. -/

namespace PolicyBundle.Text

/-- Numbers of no character become the zero character, all others are themselves. -/
theorem toNat_ofNat_eq {n : Nat} (h : Char.ofNat n ≠ '\x00') : (Char.ofNat n).toNat = n := by
  by_cases hValid : n.isValidChar
  · rw [Char.ofNat, dif_pos hValid]
    exact UInt32.toNat_ofNatLT
  · rw [Char.ofNat, dif_neg hValid] at h
    exact absurd rfl h

theorem withTail_eq (high : Nat) (b : UInt8) :
    withTail high b = 64 * high + (b.toNat - 0x80) := rfl

/-- The bits that the first two bytes of a character give: with those that follow, they give a
character beyond ASCII. -/
theorem le_withTail {a b : UInt8} (h : mayFollow a b = true) :
    (a < 0xE0 → 0x80 ≤ withTail (a.toNat - 0xC0) b) ∧
    (¬a < 0xE0 → 2 ≤ withTail (a.toNat - 0xE0) b) ∧
    (¬a < 0xF0 → 2 ≤ withTail (a.toNat - 0xF0) b) := by
  have hLead : 0xC2 ≤ a.toNat := by
    rcases Nat.lt_or_ge a.toNat 0xC2 with hLow | hHigh
    · have hLess : a < 0xC2 := UInt8.lt_iff_toNat_lt.mpr hLow
      simp [mayFollow, hLess] at h
    · exact hHigh
  have hThree (hA : a.toNat = 0xE0) : 0xA0 ≤ b.toNat := by
    obtain rfl : a = 0xE0 := UInt8.toNat_inj.mp hA
    simp [mayFollow, UInt8.le_iff_toNat_le] at h
    exact h.1
  have hFour (hA : a.toNat = 0xF0) : 0x90 ≤ b.toNat := by
    obtain rfl : a = 0xF0 := UInt8.toNat_inj.mp hA
    simp [mayFollow, UInt8.le_iff_toNat_le] at h
    exact h.1
  have hTwo := withTail_eq (a.toNat - 0xC0) b
  have hSmall := withTail_eq (a.toNat - 0xE0) b
  have hLarge := withTail_eq (a.toNat - 0xF0) b
  have hE : a < 0xE0 ↔ a.toNat < 0xE0 := UInt8.lt_iff_toNat_lt
  have hF : a < 0xF0 ↔ a.toNat < 0xF0 := UInt8.lt_iff_toNat_lt
  rw [hE, hF]
  omega

theorem le_withTail_of_le {high : Nat} (h : 2 ≤ high) (b : UInt8) : 0x80 ≤ withTail high b := by
  have hHigh : 0x80 ≤ 64 * high := Nat.mul_le_mul_left 64 h
  exact Nat.le_trans hHigh (Nat.le_add_right _ _)

/-- The reading of bytes begins with a byte of ASCII or with a character beyond. -/
theorem repair_cons (a : UInt8) (rest : Bytes) :
    repair (a :: rest) = Char.ofNat a.toNat :: repair rest ∨
      ∃ n tail, 0x80 ≤ n ∧ tail <:+ rest ∧ repair (a :: rest) = Char.ofNat n :: repair tail := by
  generalize hRepair : repair (a :: rest) = chars
  rw [repair.eq_def] at hRepair
  simp only at hRepair
  split at hRepair
  · exact .inl hRepair.symm
  · right
    split at hRepair
    · exact ⟨0xFFFD, [], by decide, List.suffix_refl _, hRepair.symm⟩
    · rename_i b afterB
      split at hRepair
      · exact ⟨0xFFFD, b :: afterB, by decide, List.suffix_refl _, hRepair.symm⟩
      · rename_i hSecond
        obtain ⟨hTwo, hThree, hFour⟩ := le_withTail (by simpa using hSecond)
        split at hRepair
        · rename_i hLead
          exact ⟨_, afterB, hTwo hLead, List.suffix_cons _ _, hRepair.symm⟩
        · rename_i hLead
          split at hRepair
          · exact ⟨0xFFFD, [], by decide, List.nil_suffix, hRepair.symm⟩
          · rename_i d afterC
            split at hRepair
            · exact ⟨0xFFFD, d :: afterC, by decide, List.suffix_cons _ _, hRepair.symm⟩
            · split at hRepair
              · exact ⟨_, afterC, le_withTail_of_le (hThree hLead) d,
                  (List.suffix_cons _ _).trans (List.suffix_cons _ _), hRepair.symm⟩
              · rename_i hWide
                split at hRepair
                · exact ⟨0xFFFD, [], by decide, List.nil_suffix, hRepair.symm⟩
                · rename_i f afterD
                  have hTail : f :: afterD <:+ b :: d :: f :: afterD :=
                    (List.suffix_cons _ _).trans (List.suffix_cons _ _)
                  split at hRepair
                  · exact ⟨0xFFFD, f :: afterD, by decide, hTail, hRepair.symm⟩
                  · have hHigh : 2 ≤ withTail (withTail (a.toNat - 0xF0) b) d :=
                      Nat.le_trans (by decide) (le_withTail_of_le (hFour hWide) d)
                    exact ⟨_, afterD, le_withTail_of_le hHigh f, (List.suffix_cons _ _).trans hTail,
                      hRepair.symm⟩

section Ascii

variable {c : Char} (hLow : c.toNat < 0x80) (hNonzero : c ≠ '\x00')
include hLow hNonzero

theorem ofNat_ne_of_le {n : Nat} (h : 0x80 ≤ n) : Char.ofNat n ≠ c := by
  rintro rfl
  rw [toNat_ofNat_eq hNonzero] at hLow
  exact absurd h (Nat.not_le.mpr hLow)

theorem toUInt8_of_ofNat {a : UInt8} (h : Char.ofNat a.toNat = c) : a = c.toUInt8 := by
  subst h
  rw [← UInt8.toNat_inj, toNat_toUInt8 hLow, toNat_ofNat_eq hNonzero]

/-- A character of ASCII that the reading of bytes begins with is the first of them. -/
theorem repair_eq_cons {bytes : Bytes} {chars : List Char} (h : repair bytes = c :: chars) :
    ∃ rest, bytes = c.toUInt8 :: rest ∧ repair rest = chars := by
  cases bytes with
  | nil => simp [repair] at h
  | cons a rest =>
      rcases repair_cons a rest with hRepair | ⟨n, tail, hWide, -, hRepair⟩
      · obtain ⟨hFirst, hRest⟩ := List.cons.inj (hRepair.symm.trans h)
        exact ⟨rest, by rw [toUInt8_of_ofNat hLow hNonzero hFirst], hRest⟩
      · obtain ⟨hFirst, -⟩ := List.cons.inj (hRepair.symm.trans h)
        exact absurd hFirst (ofNat_ne_of_le hLow hNonzero hWide)

/-- The bytes have every character of ASCII that comes of reading them. -/
theorem mem_of_mem_repair {bytes : Bytes} (h : c ∈ repair bytes) : c.toUInt8 ∈ bytes := by
  induction hLength : bytes.length using Nat.strongRecOn generalizing bytes with
  | ind length ih =>
      cases bytes with
      | nil => simp [repair] at h
      | cons a rest =>
          rw [List.length_cons] at hLength
          rcases repair_cons a rest with hRepair | ⟨n, tail, hWide, hTail, hRepair⟩
          · rcases List.mem_cons.mp (hRepair ▸ h) with hFirst | hRest
            · exact List.mem_cons.mpr (.inl (toUInt8_of_ofNat hLow hNonzero hFirst.symm).symm)
            · exact List.mem_cons_of_mem _ (ih rest.length (by omega) hRest rfl)
          · rcases List.mem_cons.mp (hRepair ▸ h) with hFirst | hRest
            · exact absurd hFirst.symm (ofNat_ne_of_le hLow hNonzero hWide)
            · have hShort := hTail.length_le
              exact List.mem_cons_of_mem _ (hTail.mem (ih tail.length (by omega) hRest rfl))

/-- Lenient or not, the text has a character of ASCII only where the bytes have it. -/
theorem mem_of_mem_ofUtf8Lossy {bytes : Bytes} (h : c ∈ (ofUtf8Lossy bytes).toList) :
    c.toUInt8 ∈ bytes := by
  unfold ofUtf8Lossy at h
  split at h
  · rename_i text hText
    rw [ofUtf8?_eq_some_iff.mp hText, mem_utf8_iff hLow]
    exact h
  · rw [String.toList_ofList] at h
    exact mem_of_mem_repair hLow hNonzero h

end Ascii

/-- A text of ASCII comes of no other bytes than its own. -/
theorem eq_of_repair {chars : List Char} (hChars : ∀ c ∈ chars, c.toNat < 0x80 ∧ c ≠ '\x00')
    {bytes : Bytes} (h : repair bytes = chars) : bytes = encode chars := by
  induction chars generalizing bytes with
  | nil =>
      cases bytes with
      | nil => rfl
      | cons a rest =>
          rcases repair_cons a rest with hRepair | ⟨n, tail, -, -, hRepair⟩
          · cases hRepair.symm.trans h
          · cases hRepair.symm.trans h
  | cons c chars ih =>
      obtain ⟨⟨hLow, hNonzero⟩, hRest⟩ := List.forall_mem_cons.mp hChars
      obtain ⟨rest, rfl, hRepair⟩ := repair_eq_cons hLow hNonzero h
      rw [encode_cons_of_lt _ hLow, ih hRest hRepair]

theorem eq_utf8_of_ofUtf8Lossy {text : String}
    (hText : ∀ c ∈ text.toList, c.toNat < 0x80 ∧ c ≠ '\x00') {bytes : Bytes}
    (h : ofUtf8Lossy bytes = text) : bytes = utf8 text := by
  unfold ofUtf8Lossy at h
  split at h
  · rename_i found hFound
    rw [ofUtf8?_eq_some_iff.mp hFound, h]
  · rw [utf8_eq_encode]
    refine eq_of_repair hText ?_
    rw [← h, String.toList_ofList]

end PolicyBundle.Text
