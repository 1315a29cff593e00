import PolicyBundle.Archive.Gzip

/-! Compressed files read back as the data that was written to them: first one stored block, then
the run of all of them, then the header and the trailer around it. -/

namespace PolicyBundle.Archive

theorem littleEndian_two (n : Nat) :
    littleEndian 2 n = [UInt8.ofNat (n % 256), UInt8.ofNat (n / 256 % 256)] := rfl

/-- The contents of a stored block behind its first byte. -/
theorem stored_block (output : Array UInt8) (pending : List Bool) {contents : Bytes} (rest : Bytes)
    (hLength : contents.length ≤ Gzip.maxStored) :
    Inflate.stored output ⟨pending, littleEndian 2 contents.length ++
        littleEndian 2 (Gzip.maxStored - contents.length) ++ contents ++ rest⟩ =
      (output ++ contents, .ok ⟨[], rest⟩) := by
  have hMax : Gzip.maxStored = 65535 := rfl
  have hLow : contents.length % 256 + 256 * (contents.length / 256 % 256) = contents.length := by
    omega
  have hHigh : contents.length + ((Gzip.maxStored - contents.length) % 256 +
      256 * ((Gzip.maxStored - contents.length) / 256 % 256)) = 0xFFFF := by
    omega
  simp [Inflate.stored, littleEndian_two, hLow, hHigh]

/-- A stored block in front of other blocks. -/
theorem blocks_storedBlock (size rounds : Nat) (output : Array UInt8) (isLast : Bool)
    {contents : Bytes} (rest : Bytes) (hLength : contents.length ≤ Gzip.maxStored) :
    Inflate.blocks size (rounds + 1) output ⟨[], Gzip.storedBlock isLast contents ++ rest⟩ =
      if isLast then (output ++ contents, .ok ⟨[], rest⟩)
      else Inflate.blocks size rounds (output ++ contents) ⟨[], rest⟩ := by
  -- The first byte has the flag, the kind of the block and five bits that are not read.
  have hFlag : Inflate.Bits.next ⟨[], Gzip.storedBlock isLast contents ++ rest⟩ =
      .ok (isLast, ⟨List.replicate 7 false, littleEndian 2 contents.length ++
        littleEndian 2 (Gzip.maxStored - contents.length) ++ contents ++ rest⟩) := by
    cases isLast <;> rfl
  have hKind (behind : Bytes) : Inflate.Bits.number 2 ⟨List.replicate 7 false, behind⟩ =
      .ok (0, ⟨List.replicate 5 false, behind⟩) := rfl
  have hStored := stored_block output (List.replicate 5 false) rest hLength
  simp only [Inflate.blocks, Inflate.block, hFlag, hKind, hStored, bind, Except.bind, if_true]

theorem length_le_storedBlocks (rounds : Nat) {data : Bytes}
    (hLength : data.length ≤ (rounds + 1) * Gzip.maxStored) :
    data.length ≤ (Gzip.storedBlocks rounds data).length := by
  induction rounds generalizing data with
  | zero =>
      rw [Gzip.storedBlocks, List.take_of_length_le (by omega)]
      simp [Gzip.storedBlock]
      omega
  | succ rounds ih =>
      simp only [Gzip.storedBlocks]
      split
      · simp [Gzip.storedBlock]
        omega
      · have hMore : (data.drop Gzip.maxStored).length ≤ (rounds + 1) * Gzip.maxStored := by
          rw [Nat.succ_mul] at hLength
          rw [List.length_drop]
          omega
        have hLater := ih hMore
        simp [Gzip.storedBlock] at hLater ⊢
        omega

theorem length_storedBlocks_le (rounds : Nat) (data : Bytes) :
    (Gzip.storedBlocks rounds data).length ≤ data.length + 5 * (rounds + 1) := by
  induction rounds generalizing data with
  | zero =>
      simp [Gzip.storedBlocks, Gzip.storedBlock]
      omega
  | succ rounds ih =>
      have hLater := ih (data.drop Gzip.maxStored)
      simp only [Gzip.storedBlocks]
      split
      · simp [Gzip.storedBlock]
        omega
      · simp [Gzip.storedBlock] at hLater ⊢
        omega

/-- All stored blocks of some data. -/
theorem blocks_storedBlocks (size : Nat) {rounds reader : Nat} (output : Array UInt8)
    {data : Bytes} (rest : Bytes) (hLength : data.length ≤ (rounds + 1) * Gzip.maxStored)
    (hReader : rounds < reader) :
    Inflate.blocks size reader output ⟨[], Gzip.storedBlocks rounds data ++ rest⟩ =
      (output ++ data, .ok ⟨[], rest⟩) := by
  induction rounds generalizing data reader output with
  | zero =>
      obtain ⟨reader, rfl⟩ := Nat.exists_eq_add_of_lt hReader
      have hShort : data.length ≤ Gzip.maxStored := by omega
      rw [Gzip.storedBlocks, List.take_of_length_le hShort,
        blocks_storedBlock size _ output true rest hShort]
      rfl
  | succ rounds ih =>
      obtain ⟨reader, rfl⟩ : ∃ less, reader = less + 1 := ⟨reader - 1, by omega⟩
      simp only [Gzip.storedBlocks]
      split
      · rename_i hEmpty
        have hShort : data.length ≤ Gzip.maxStored := by
          simpa using hEmpty
        rw [blocks_storedBlock size reader output true rest hShort]
        rfl
      · have hTake : (data.take Gzip.maxStored).length ≤ Gzip.maxStored := by
          rw [List.length_take]
          omega
        have hMore : (data.drop Gzip.maxStored).length ≤ (rounds + 1) * Gzip.maxStored := by
          rw [Nat.succ_mul] at hLength
          rw [List.length_drop]
          omega
        rw [List.append_assoc, blocks_storedBlock size reader output false _ hTake]
        simp only [Bool.false_eq_true, if_false]
        have hWhole : output ++ data.take Gzip.maxStored ++ data.drop Gzip.maxStored =
            output ++ data := by
          apply Array.toList_inj.mp
          simp
        rw [ih _ hMore (by omega), hWhole]

theorem skipHeader_header (rest : Bytes) : Gzip.skipHeader (Gzip.header ++ rest) = .ok rest := by
  simp [Gzip.skipHeader, Gzip.header, Gzip.skip]
  rfl

/-- A compressed file is longer than its data, but not by much. -/
theorem length_encode (data : Bytes) : data.length ≤ (Gzip.encode data).length ∧
    (Gzip.encode data).length ≤ data.length + 5 * (data.length / Gzip.maxStored) + 23 := by
  have hRounds : data.length ≤ (data.length / Gzip.maxStored + 1) * Gzip.maxStored := by
    have hMax : Gzip.maxStored = 65535 := rfl
    rw [hMax]
    omega
  have hLeast := length_le_storedBlocks _ hRounds
  have hMost := length_storedBlocks_le (data.length / Gzip.maxStored) data
  have hTrailer : (Gzip.trailer data).length = 8 := by
    simp [Gzip.trailer]
  have hHeader : Gzip.header.length = 10 := rfl
  rw [Gzip.encode, List.length_append, List.length_append, hTrailer, hHeader]
  omega

/-- What was compressed reads back, without a fault behind it. -/
theorem decode_encode (data : Bytes) : Gzip.decode (Gzip.encode data) = ⟨data, none, 0⟩ := by
  have hRounds : data.length ≤ (data.length / Gzip.maxStored + 1) * Gzip.maxStored := by
    have hMax : Gzip.maxStored = 65535 := rfl
    rw [hMax]
    omega
  have hReader : data.length / Gzip.maxStored <
      8 * (Gzip.storedBlocks (data.length / Gzip.maxStored) data ++ Gzip.trailer data).length
        + 1 := by
    have hLe := length_le_storedBlocks _ hRounds
    have hDiv := Nat.div_le_self data.length Gzip.maxStored
    rw [List.length_append]
    omega
  rw [Gzip.encode, List.append_assoc, Gzip.decode, skipHeader_header]
  simp only [Inflate.inflate, Inflate.allBlocks]
  rw [blocks_storedBlocks _ _ _ hRounds hReader]
  have hTrailer : (Gzip.trailer data).length = 8 := by
    simp [Gzip.trailer]
  simp [Gzip.trailerFault, List.take_of_length_le, hTrailer]

end PolicyBundle.Archive
