import PolicyBundle.Archive.Cursor
import PolicyBundle.Archive.Header

/-!
# Sparse members

A sparse member lists the pieces of a file that are stored, in its header and in blocks behind it.
No bundle may hold one; the list is checked all the same before the member is refused, because a
broken archive is refused as such.
-/

namespace PolicyBundle.Archive.Sparse

/-- A piece of a sparse file: the fields for its offset and its length. -/
structure Piece where
  offset : Bytes
  length : Bytes

/-- So many pieces, one behind the other. -/
def piecesOf (count : Nat) (bytes : Bytes) : List Piece :=
  (List.range count).map fun i =>
    ⟨Header.field bytes (24 * i) 12, Header.field bytes (24 * i + 12) 12⟩

/-- How far the list has been checked: the end of the last piece in the file, and what of the member
its pieces leave over. -/
structure Extent where
  reached : Nat
  left : Nat

/-- Checks the next piece of a member of the given size. A piece whose fields begin with zero
bytes is no piece. -/
def Extent.add (size : Nat) (extent : Extent) (piece : Piece) : Except Fault Extent := do
  if piece.offset.headD 0 = 0 || piece.length.headD 0 = 0 then return extent
  let offset ← Header.number "offset from sparse header" piece.offset
  let length ← Header.number "length from sparse header" piece.length
  if length ≠ 0 && (size - extent.left) % blockSize ≠ 0 then throw .sparseUnaligned
  if offset < extent.reached then throw .sparseOutOfOrder
  if offset + length ≥ Nat.pow 2 64 then throw .sparseTooLong
  if extent.left < length then throw .sparseTooMuch
  return ⟨offset + length, extent.left - length⟩

/-- Checks the blocks of further pieces, as long as each says that another one follows. `rounds`
bounds their number. -/
def addBlocks (size : Nat) : (rounds : Nat) → Extent → Stream → Except Fault (Extent × Stream)
  | 0, _, _ => .error .sparseExtension
  | rounds + 1, extent, s => do
    match ← s.block? blockSize with
    | none => .error .sparseExtension
    | some (block, after) =>
      let extent ← (piecesOf 21 block).foldlM (Extent.add size) extent
      if block.getD 504 0 = 1 then addBlocks size rounds extent after else .ok (extent, after)

/-- Checks a sparse member of the given size, whose contents the stream begins with. -/
def check (h : Header) (size : Nat) (s : Stream) : Except Fault Unit := do
  if !h.isExtended then throw .sparseHeader
  let fields := h.rest.drop 41
  let extent ← (piecesOf 4 fields).foldlM (Extent.add size) ⟨0, size⟩
  let more := fields.getD 96 0 = 1
  let (extent, _) ←
    if more then addBlocks size (s.data.length + 1) extent s else .ok (extent, s)
  let owners := Text.ofUtf8Lossy (Header.text h.groupName) ++ ":" ++
    Text.ofUtf8Lossy (Header.text h.ownerName)
  let fileSize ← Header.number ("real_size for " ++ owners) (Header.field fields 97 12)
  if extent.reached ≠ fileSize then throw .sparseSize
  if extent.left > 0 then throw .sparseEntrySize

end PolicyBundle.Archive.Sparse
