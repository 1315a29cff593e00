import PolicyBundle.Archive.ByteOrder
import PolicyBundle.Archive.Checksum
import PolicyBundle.Archive.Fault
import PolicyBundle.Archive.Inflate

/-!
# Compressed files

Writing puts the data into stored blocks between a plain header and a trailer. Reading takes any
compressed file apart into the data that can be read of it and the fault that a reader meets who
asks for more. A reader who stops early never meets it: the trailer is looked at behind the data.
-/

namespace PolicyBundle.Archive

/-- What can be read of a file: the data, and the fault behind it, none at a proper end. -/
structure Stream where
  data : Bytes
  fault : Option Fault
  /-- How many bytes stood before the data. -/
  position : Nat

namespace Gzip

/-- The most bytes of a stored block. -/
def maxStored : Nat := 65535

/-- A stored block. -/
def storedBlock (isLast : Bool) (contents : Bytes) : Bytes :=
  let length := contents.length
  (if isLast then 1 else 0) :: littleEndian 2 length ++ littleEndian 2 (maxStored - length) ++
    contents

/-- Stored blocks for all of the data, the last one marked. `rounds` bounds their number. -/
def storedBlocks : (rounds : Nat) → Bytes → Bytes
  | 0, data => storedBlock true (data.take maxStored)
  | rounds + 1, data =>
    let later := data.drop maxStored
    if later.isEmpty then storedBlock true data
    else storedBlock false (data.take maxStored) ++ storedBlocks rounds later

/-- The header of a file without a name, of no time and of an unknown system. -/
def header : Bytes := [0x1F, 0x8B, 8, 0, 0, 0, 0, 0, 0, 0xFF]

/-- The trailer of a file: the checksum and the length of its data. -/
def trailer (data : Bytes) : Bytes :=
  littleEndian 4 (checksum data).toNat ++ littleEndian 4 data.length

/-- The compressed file of some data. It stores the data where a program deflates it, so neither the bytes
nor the length are those of the program's files. Results about archives rest on `decode_encode` alone,
and where they bound the length of a file they bound this form of it. -/
def encode (data : Bytes) : Bytes :=
  header ++ storedBlocks (data.length / maxStored) data ++ trailer data

/-- The input behind so many bytes. -/
def skip (count : Nat) (input : Bytes) : Except Fault Bytes :=
  if (input.take count).length < count then .error .unexpectedEnd else .ok (input.drop count)

/-- The input behind a field that ends with a zero byte. -/
def skipText (input : Bytes) : Except Fault Bytes :=
  if (input.takeWhile (· ≠ 0)).length > 65535 then .error .headerFieldTooLong
  else
    match input.dropWhile (· ≠ 0) with
    | [] => .error .unexpectedEnd
    | _ :: rest => .ok rest

/-- The input behind a field that begins with its length. -/
def skipExtra (input : Bytes) : Except Fault Bytes := do
  let rest ← skip 2 input
  skip (ofLittleEndian (input.take 2)) rest

/-- The input behind the checksum of the header, which the input begins after `consumed`. -/
def skipHeaderSum (whole input : Bytes) : Except Fault Bytes := do
  let rest ← skip 2 input
  let consumed := whole.take (whole.length - input.length)
  if (checksum consumed).toNat % 65536 = ofLittleEndian (input.take 2) then .ok rest
  else .error .wrongChecksum

/-- The input behind the header. -/
def skipHeader (input : Bytes) : Except Fault Bytes := do
  let rest ← skip 10 input
  let field (i : Nat) : Nat := (input.getD i 0).toNat
  let flag (bit : Nat) : Bool := (field 3).testBit bit
  if field 0 ≠ 0x1F || field 1 ≠ 0x8B || field 2 ≠ 8 || field 3 ≥ 32 then
    throw .invalidHeader
  let rest ← if flag 2 then skipExtra rest else .ok rest
  let rest ← if flag 3 then skipText rest else .ok rest
  let rest ← if flag 4 then skipText rest else .ok rest
  if flag 1 then skipHeaderSum input rest else .ok rest

/-- The fault of a trailer behind the data, if it has one. -/
def trailerFault (data rest : Bytes) : Option Fault :=
  let found := rest.take 8
  if found.length < 8 then some .unexpectedEnd
  else if found = trailer data then none
  else some .wrongChecksum

/-- What can be read of a compressed file. -/
def decode (input : Bytes) : Stream :=
  match skipHeader input with
  | .error fault => ⟨[], some fault, 0⟩
  | .ok rest =>
    match Inflate.inflate (input.length - rest.length) rest with
    | (data, .ok rest) => ⟨data, trailerFault data rest, 0⟩
    | (data, .error .incomplete) => ⟨data, some .incompleteData, 0⟩
    | (data, .error .corrupt) => ⟨data, some .corruptData, 0⟩

end Gzip

end PolicyBundle.Archive
