import PolicyBundle.Proofs.Archive.Fields

/-! The block of a header reads back as the header, and the sum in it is found to be right. -/

namespace PolicyBundle.Archive

namespace Header

theorem field_skip {front : Bytes} (behind : Bytes) {offset : Nat} (width : Nat)
    (hFront : front.length ≤ offset) :
    field (front ++ behind) offset width = field behind (offset - front.length) width := by
  rw [field, field, List.drop_append, List.drop_eq_nil_of_le hFront, List.nil_append]

theorem field_cons (b : UInt8) (behind : Bytes) {offset : Nat} (width : Nat)
    (hOffset : 0 < offset) :
    field (b :: behind) offset width = field behind (offset - 1) width :=
  @field_skip [b] behind offset width hOffset

theorem field_front {front : Bytes} (behind : Bytes) {width : Nat} (hFront : front.length = width) :
    field (front ++ behind) 0 width = front := by
  rw [field, List.drop_zero, ← hFront, List.take_left]

theorem field_whole {bytes : Bytes} {width : Nat} (hBytes : bytes.length = width) :
    field bytes 0 width = bytes := by
  rw [field, List.drop_zero, ← hBytes, List.take_length]

/-- A header whose fields have their widths. -/
structure Sized (h : Header) : Prop where
  name : h.name.length = 100
  mode : h.mode.length = 8
  owner : h.owner.length = 8
  group : h.group.length = 8
  size : h.size.length = 12
  modified : h.modified.length = 12
  sum : h.sum.length = 8
  link : h.link.length = 100
  magic : h.magic.length = 8
  ownerName : h.ownerName.length = 32
  groupName : h.groupName.length = 32
  device : h.device.length = 16
  rest : h.rest.length = 167

variable {h : Header}

theorem Sized.length_toBlock (hSized : h.Sized) : h.toBlock.length = blockSize := by
  simp [toBlock, hSized.name, hSized.mode, hSized.owner, hSized.group, hSized.size,
    hSized.modified, hSized.sum, hSized.link, hSized.magic, hSized.ownerName, hSized.groupName,
    hSized.device, hSized.rest, blockSize]

theorem Sized.ofBlock_toBlock (hSized : h.Sized) : ofBlock h.toBlock = h := by
  have hKind : h.toBlock.getD 156 0 = h.kind := by
    simp [toBlock, List.getElem?_append_right, hSized.name, hSized.mode, hSized.owner,
      hSized.group, hSized.size, hSized.modified, hSized.sum]
  rw [ofBlock, hKind]
  simp [toBlock, field_skip, field_cons, field_front, field_whole, hSized.name, hSized.mode,
    hSized.owner, hSized.group, hSized.size, hSized.modified, hSized.sum, hSized.link,
    hSized.magic, hSized.ownerName, hSized.groupName, hSized.device, hSized.rest]

theorem Sized.take_toBlock (hSized : h.Sized) : h.toBlock.take 148 =
    h.name ++ h.mode ++ h.owner ++ h.group ++ h.size ++ h.modified := by
  have hBlock : h.toBlock = (h.name ++ h.mode ++ h.owner ++ h.group ++ h.size ++ h.modified) ++
      (h.sum ++ h.kind :: h.link ++ h.magic ++ h.ownerName ++ h.groupName ++ h.device ++
        h.rest) := by
    simp [toBlock]
  rw [hBlock, List.take_left']
  simp [hSized.name, hSized.mode, hSized.owner, hSized.group, hSized.size, hSized.modified]

theorem Sized.drop_toBlock (hSized : h.Sized) : h.toBlock.drop 156 =
    h.kind :: h.link ++ h.magic ++ h.ownerName ++ h.groupName ++ h.device ++ h.rest := by
  have hBlock : h.toBlock =
      (h.name ++ h.mode ++ h.owner ++ h.group ++ h.size ++ h.modified ++ h.sum) ++
        (h.kind :: h.link ++ h.magic ++ h.ownerName ++ h.groupName ++ h.device ++ h.rest) := by
    simp [toBlock]
  rw [hBlock, List.drop_left']
  simp [hSized.name, hSized.mode, hSized.owner, hSized.group, hSized.size, hSized.modified,
    hSized.sum]

theorem foldl_byte_le (bytes : Bytes) (start : Nat) :
    bytes.foldl (fun n b => n + b.toNat) start ≤ start + 255 * bytes.length := by
  induction bytes generalizing start with
  | nil => simp
  | cons b bytes ih =>
      have hByte : b.toNat < 256 := b.toNat_lt
      have hRest := ih (start + b.toNat)
      simp only [List.foldl_cons, List.length_cons]
      omega

theorem sumOf_lt {block : Bytes} (hLength : block.length = blockSize) :
    sumOf block < Nat.pow 8 7 := by
  have hFront := foldl_byte_le (block.take 148) 0
  have hBehind := foldl_byte_le (block.drop 156) 0
  have hPow : Nat.pow 8 7 = 2097152 := by decide
  simp only [List.length_take, List.length_drop, hLength, blockSize] at hFront hBehind
  simp only [sumOf, hPow]
  omega

end Header

namespace Pack

theorem withSum_sized {h : Header} (hSized : h.Sized) : (withSum h).Sized :=
  { hSized with sum := length_octalField _ (by omega) }

theorem sumOf_withSum {h : Header} (hSized : h.Sized) :
    Header.sumOf (withSum h).toBlock = Header.sumOf h.toBlock := by
  simp only [Header.sumOf, hSized.take_toBlock, hSized.drop_toBlock,
    (withSum_sized hSized).take_toBlock, (withSum_sized hSized).drop_toBlock]
  rfl

/-- The block of a header with its sum is found to be right. -/
theorem check_withSum {h : Header} (hSized : h.Sized) :
    Header.check (withSum h).toBlock = .ok (withSum h) := by
  have hSum : (withSum h).recordedSum = .ok (Header.sumOf h.toBlock) :=
    octal_octalField _ (by omega) (Header.sumOf_lt hSized.length_toBlock)
  simp only [Header.check, (withSum_sized hSized).ofBlock_toBlock, hSum, sumOf_withSum hSized]
  simp [bind, Except.bind]

end Pack

end PolicyBundle.Archive
