import PolicyBundle.Archive.Gzip
import PolicyBundle.Archive.Header

/-!
# Writing archives

A member is a header and its contents, filled up with zeros to whole blocks, and two blocks of
zeros end the archive. All members are regular files of the same mode and of no time, so equal
contents give equal archives. A path that does not fit into a header stands in a record before it,
and the header then has the beginning of the path.
-/

namespace PolicyBundle.Archive

/-- Why a path cannot be written. -/
inductive PathFault where
  | parentSegment
  | zeroByte
  | tooLong
  deriving DecidableEq, Repr

/-- A path that cannot be written, with the part of it that was written before. -/
structure PathError where
  fault : PathFault
  written : Bytes
  deriving DecidableEq, Repr

/-- The text of a path that cannot be written. -/
def PathError.message (e : PathError) : String :=
  let cause := match e.fault with
    | .parentSegment => "paths in archives must not have `..`"
    | .zeroByte => "provided value contains a nul byte"
    | .tooLong => "provided value is too long"
  cause ++ " when setting path for " ++ Text.ofUtf8Lossy e.written

namespace Pack

/-- The width of the field for a path. -/
def pathWidth : Nat := 100

/-- What is written with one more piece behind it. -/
def addPiece (written piece : Bytes) : Except PathError Bytes :=
  if written.length + piece.length > pathWidth then .error ⟨.tooLong, written⟩
  else if piece.contains 0 then .error ⟨.zeroByte, written⟩
  else .ok (written ++ piece)

/-- The segment that leads to the parent directory. -/
def parentSegment : Bytes := ['.'.toUInt8, '.'.toUInt8]

/-- What is written with more segments behind it. The last segment of a path that was cut may be the
beginning of a longer one, so there the parent segment is let through. -/
def addSegments (cut : Bool) : (written : Bytes) → List Bytes → Except PathError Bytes
  | written, [] => .ok written
  | written, segment :: rest =>
    if segment = parentSegment && !(cut && rest.isEmpty) then .error ⟨.parentSegment, written⟩
    else do
      let written ← if written.isEmpty then .ok written else addPiece written ['/'.toUInt8]
      let written ← addPiece written segment
      addSegments cut written rest

/-- The segments of a path, without those that lead nowhere. -/
def segments (path : Bytes) : List Bytes :=
  (path.splitOn '/'.toUInt8).filter fun s => !s.isEmpty && s ≠ ['.'.toUInt8]

/-- The text of the field for a path. -/
def pathField (cut : Bool) (path : Bytes) : Except PathError Bytes := do
  let written ← addSegments cut [] (segments path)
  if path.getLast? = some '/'.toUInt8 then addPiece written ['/'.toUInt8] else .ok written

/-- The greatest length up to `length` at which text may be cut between two characters. -/
def boundary (text : Bytes) : (length : Nat) → Nat
  | 0 => 0
  | length + 1 =>
    if Text.isTail (text.getD (length + 1) 0) then boundary text length else length + 1

/-- So many zero bytes. -/
def zeros (count : Nat) : Bytes :=
  List.replicate count 0

/-- Bytes filled up with zeros to a width. -/
def padTo (width : Nat) (bytes : Bytes) : Bytes :=
  bytes ++ zeros (width - bytes.length)

/-- The last octal digits of a number. -/
def octalDigits : (width : Nat) → Nat → Bytes
  | 0, _ => []
  | width + 1, n => octalDigits width (n / 8) ++ [UInt8.ofNat ('0'.toNat + n % 8)]

/-- A field of octal digits with a zero byte behind them. -/
def octalField (width n : Nat) : Bytes :=
  octalDigits (width - 1) n ++ [0]

/-- The field for a size, which is binary where the octal digits do not suffice. -/
def sizeField (size : Nat) : Bytes :=
  if size < Nat.pow 8 11 then octalField 12 size else 0x80 :: zeros 3 ++ bigEndian 8 size

/-- A header with its sum. -/
def withSum (h : Header) : Header :=
  { h with sum := octalField 8 (Header.sumOf h.toBlock) }

/-- The header of a member. -/
def headerOf (path : Bytes) (owner : Bytes) (kind : Char) (size : Nat) : Header :=
  withSum {
    name := padTo pathWidth path
    mode := octalField 8 0o644
    owner
    group := owner
    size := sizeField size
    modified := octalField 12 0
    sum := zeros 8
    kind := kind.toUInt8
    link := zeros 100
    magic := Header.extendedMagic
    ownerName := zeros 32
    groupName := zeros 32
    device := zeros 16
    rest := zeros 167 }

/-- The header of a regular file. It leaves the owner open. -/
def fileHeader (path : Bytes) (size : Nat) : Header :=
  headerOf path (zeros 8) '0' size

/-- The header of the record that gives the path of the next member. -/
def longNameHeader (size : Nat) : Header :=
  headerOf (Text.utf8 "././@LongLink") (octalField 8 0) 'L' size

/-- A header and contents as blocks. -/
def blocks (h : Header) (contents : Bytes) : Bytes :=
  h.toBlock ++ padTo (wholeBlocks contents.length) contents

end Pack

/-- An archive that is being written: the blocks so far. -/
structure Pack where
  written : Array UInt8

namespace Pack

/-- The archive that nothing has been written to. -/
def empty : Pack := ⟨#[]⟩

/-- The archive with a header and contents behind it. -/
def append (pack : Pack) (h : Header) (contents : Bytes) : Pack :=
  ⟨pack.written ++ blocks h contents⟩

/-- The field for a path, and whether the whole path must stand in a record before the header, of
which the field then has the beginning. A path that is short enough is never cut. -/
def nameField (path : Bytes) : Except PathError (Bytes × Bool) :=
  match pathField false path with
  | .ok name => .ok (name, false)
  | .error e =>
    if path.length < pathWidth then .error e
    else (pathField true (path.take (boundary path pathWidth))).map fun name => (name, true)

/-- Adds a file. A path that cannot be written leaves the archive as it is. -/
def add (pack : Pack) (path contents : Bytes) : Except PathError Pack := do
  let (name, isCut) ← nameField path
  let pack :=
    if isCut then pack.append (longNameHeader (path.length + 1)) (path ++ [0]) else pack
  .ok (pack.append (fileHeader name contents.length) contents)

/-- The finished archive, not yet compressed. -/
def toArchive (pack : Pack) : Bytes :=
  pack.written.toList ++ zeros (2 * blockSize)

/-- The finished archive. -/
def finish (pack : Pack) : Bytes :=
  Gzip.encode pack.toArchive

end Pack

end PolicyBundle.Archive
