import PolicyBundle.Archive.ByteOrder
import PolicyBundle.Archive.Fault
import PolicyBundle.Text.Blank

/-!
# Headers of archive members

A member of an archive begins with a block of 512 bytes, divided into fields of fixed width. Texts
end at the first zero byte of their field. Numbers are octal digits; sizes may also be binary, which
the top bit of their field tells.
-/

namespace PolicyBundle.Archive

/-- The length of a block. -/
def blockSize : Nat := 512

/-- A length rounded up to whole blocks. -/
def wholeBlocks (length : Nat) : Nat :=
  (length + (blockSize - 1)) / blockSize * blockSize

/-- What a member is. -/
inductive Kind where
  | regular
  | link
  | symlink
  | charDevice
  | blockDevice
  | directory
  | fifo
  | continuous
  /-- Extension records for the next member. -/
  | extensions
  /-- Extension records for all members that follow. -/
  | globalExtensions
  /-- The name of the next member. -/
  | longName
  /-- The link target of the next member. -/
  | longLink
  | sparse
  | other (byte : UInt8)
  deriving DecidableEq, Repr

namespace Kind

/-- The kind that a byte of a header stands for. -/
def ofByte (byte : UInt8) : Kind :=
  if byte = 0 then .regular
  else
    match Char.ofNat byte.toNat with
    | '0' => .regular
    | '1' => .link
    | '2' => .symlink
    | '3' => .charDevice
    | '4' => .blockDevice
    | '5' => .directory
    | '6' => .fifo
    | '7' => .continuous
    | 'x' => .extensions
    | 'g' => .globalExtensions
    | 'L' => .longName
    | 'K' => .longLink
    | 'S' => .sparse
    | _ => .other byte

/-- Whether a member of this kind only tells something of others. -/
def isExtension : Kind → Bool
  | .extensions | .globalExtensions | .longName | .longLink => true
  | _ => false

/-- The name of a kind. -/
def name : Kind → String
  | .regular => "Regular"
  | .link => "Link"
  | .symlink => "Symlink"
  | .charDevice => "Char"
  | .blockDevice => "Block"
  | .directory => "Directory"
  | .fifo => "Fifo"
  | .continuous => "Continuous"
  | .extensions => "XHeader"
  | .globalExtensions => "XGlobalHeader"
  | .longName => "GNULongName"
  | .longLink => "GNULongLink"
  | .sparse => "GNUSparse"
  | .other byte => "__Nonexhaustive(" ++ Text.decimal byte.toNat ++ ")"

end Kind

/-- A header, each field as the bytes it holds. -/
structure Header where
  name : Bytes
  mode : Bytes
  owner : Bytes
  group : Bytes
  size : Bytes
  modified : Bytes
  sum : Bytes
  kind : UInt8
  link : Bytes
  magic : Bytes
  ownerName : Bytes
  groupName : Bytes
  device : Bytes
  /-- The rest of the block. Its use depends on the magic bytes. -/
  rest : Bytes

namespace Header

/-- The bytes of a field, which begins at an offset. -/
def field (block : Bytes) (offset width : Nat) : Bytes :=
  (block.drop offset).take width

/-- The header in a block. -/
def ofBlock (block : Bytes) : Header where
  name := field block 0 100
  mode := field block 100 8
  owner := field block 108 8
  group := field block 116 8
  size := field block 124 12
  modified := field block 136 12
  sum := field block 148 8
  kind := block.getD 156 0
  link := field block 157 100
  magic := field block 257 8
  ownerName := field block 265 32
  groupName := field block 297 32
  device := field block 329 16
  rest := field block 345 167

/-- The block of a header. -/
def toBlock (h : Header) : Bytes :=
  h.name ++ h.mode ++ h.owner ++ h.group ++ h.size ++ h.modified ++ h.sum ++ h.kind :: h.link ++
    h.magic ++ h.ownerName ++ h.groupName ++ h.device ++ h.rest

/-- The sum of a block's bytes, for which the field of the sum itself counts as blanks. -/
def sumOf (block : Bytes) : Nat :=
  let total (bytes : Bytes) := bytes.foldl (fun n b => n + b.toNat) 0
  total (block.take 148) + 8 * 32 + total (block.drop 156)

/-- The text of a field. -/
def text (field : Bytes) : Bytes :=
  field.takeWhile (· ≠ 0)

/-- The magic bytes of headers with long names and sparse members. -/
def extendedMagic : Bytes := Text.utf8 "ustar  " ++ [0]

/-- The magic bytes of headers whose names may have a second part. -/
def splitMagic : Bytes := Text.utf8 "ustar" ++ [0] ++ Text.utf8 "00"

/-- Whether a header is of one of the two later formats. -/
def isExtended (h : Header) : Bool :=
  h.magic = extendedMagic

/-- Whether the name of a member may be divided. -/
def isSplit (h : Header) : Bool :=
  h.magic = splitMagic

/-- The path that a header gives. A divided name has its first part in the rest of the block. -/
def path (h : Header) : Bytes :=
  let name := text h.name
  let first := text (h.rest.take 155)
  if h.isSplit && !first.isEmpty then first ++ '/'.toUInt8 :: name else name

/-- The value of octal digits. -/
def ofOctal? (digits : List Char) : Option Nat :=
  let isOctal (c : Char) : Bool := '0' ≤ c && c ≤ '7'
  if digits.isEmpty || !digits.all isOctal then none
  else some (digits.foldl (fun n c => 8 * n + (c.toNat - '0'.toNat)) 0)

/-- The number in a field of octal digits, with blanks around them and at most one plus sign in
front. `purpose` tells what it is needed for. -/
def octal (purpose : String) (field : Bytes) : Except Fault Nat :=
  let bytes := text field
  match Text.ofUtf8? bytes with
  | none => .error (.notText (Text.ofUtf8Lossy bytes) purpose)
  | some digits =>
    let number := match Text.trim digits.toList with
      | '+' :: rest => ofOctal? rest
      | all => ofOctal? all
    match number with
    | some n => .ok n
    | none => .error (.notNumber digits purpose)

/-- What a number is needed for in the header of a member. -/
def purpose (h : Header) (what : String) : String :=
  what ++ " for " ++ Text.ofUtf8Lossy h.path

/-- The sum recorded in a header. -/
def recordedSum (h : Header) : Except Fault Nat :=
  octal (h.purpose "cksum") h.sum

/-- The number in a field for a size, which `purpose` tells the use of. A binary number is in the
last eight of its twelve bytes. -/
def number (purpose : String) (field : Bytes) : Except Fault Nat :=
  if field.headD 0 ≥ 0x80 then .ok (ofBigEndian (field.drop 4)) else octal purpose field

/-- The size of a member as its header gives it. -/
def recordedSize (h : Header) : Except Fault Nat :=
  number (h.purpose "size") h.size

/-- The header in a block whose sum is right. -/
def check (block : Bytes) : Except Fault Header := do
  let h := ofBlock block
  let sum ← h.recordedSum
  if sum = sumOf block then .ok h else .error .wrongHeaderSum

end Header

end PolicyBundle.Archive
