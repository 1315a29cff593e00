import PolicyBundle.Text.Utf8

/-!
# Compressed data

The format of blocks that are stored as they are or coded with prefix codes and references
backwards. Decoding always has some output: what was decoded before a fault counts, because a
reader may never get as far as the fault. A reference that reaches back beyond the start of the
output finds zeros.
-/

namespace PolicyBundle.Archive.Inflate

/-- Why compressed data ends too early. -/
inductive Fault where
  /-- The data stops inside a block. -/
  | incomplete
  /-- The data breaks a rule of the format. -/
  | corrupt
  deriving DecidableEq, Repr

/-- A position in the compressed data: the bits left of the byte that was begun, lowest first, and
the bytes behind it. -/
structure Bits where
  pending : List Bool
  rest : Bytes

namespace Bits

/-- The next bit. -/
def next : Bits → Except Fault (Bool × Bits)
  | ⟨bit :: pending, rest⟩ => .ok (bit, ⟨pending, rest⟩)
  | ⟨[], byte :: rest⟩ =>
    .ok (byte.toNat.testBit 0, ⟨[1, 2, 3, 4, 5, 6, 7].map byte.toNat.testBit, rest⟩)
  | ⟨[], []⟩ => .error .incomplete

/-- A number of so many bits, lowest first. -/
def number : Nat → Bits → Except Fault (Nat × Bits)
  | 0, bits => .ok (0, bits)
  | width + 1, bits => do
    let (bit, bits) ← bits.next
    let (high, bits) ← number width bits
    .ok (bit.toNat + 2 * high, bits)

end Bits

/-- A prefix code in canonical order: how many code words there are of each length from one on, and
the symbols in the order of their code words. -/
structure Code where
  counts : List Nat
  symbols : Array Nat

namespace Code

/-- The longest code word. -/
def maxLength : Nat := 15

/-- The code words left over, of those of the greatest length, when so many of each length are
taken; none when more are taken than there are. -/
def spare? : Nat → List Nat → Option Nat
  | room, [] => some room
  | room, count :: longer => if 2 * room < count then none else spare? (2 * room - count) longer

/-- The code in which each symbol has a code word of the given length, zero meaning none. The code
words must fill all the space; where `partly` is set, a code may leave some of it that has no code
word longer than one bit. -/
def ofLengths (partly : Bool) (lengths : List Nat) : Except Fault Code :=
  let sizes := (List.range maxLength).map (· + 1)
  let withSize (size : Nat) := (lengths.zipIdx.filter (·.1 = size)).map (·.2)
  let groups := sizes.map withSize
  let counts := groups.map List.length
  let code : Code := ⟨counts, groups.flatten.toArray⟩
  match spare? 1 counts with
  | some 0 => .ok code
  | some _ => if partly && counts.tail.all (· = 0) then .ok code else .error .corrupt
  | none => .error .corrupt

/-- Reads on in a code word. `word` holds its bits so far, `first` twice what comes behind the last
shorter code word and `index` the number of shorter code words. Bits that no code word begins with
are corrupt as soon as no longer code word is left. -/
def search (symbols : Array Nat) :
    (counts : List Nat) → (word first index : Nat) → Bits → Except Fault (Nat × Bits)
  | [], _, _, _, _ => .error .corrupt
  | count :: longer, word, first, index, bits => do
    let (bit, bits) ← bits.next
    let word := 2 * word + bit.toNat
    if word < first + count then
      match symbols[index + (word - first)]? with
      | some symbol => .ok (symbol, bits)
      | none => .error .corrupt
    else if longer.all (· = 0) then .error .corrupt
    else search symbols longer word (2 * (first + count)) (index + count) bits

/-- The next symbol. -/
def read (code : Code) (bits : Bits) : Except Fault (Nat × Bits) :=
  search code.symbols code.counts 0 0 0 bits

end Code

/-- The least length and the number of extra bits of each symbol for a length. -/
def lengthTable : Array (Nat × Nat) := #[
  (3, 0), (4, 0), (5, 0), (6, 0), (7, 0), (8, 0), (9, 0), (10, 0), (11, 1), (13, 1), (15, 1),
  (17, 1), (19, 2), (23, 2), (27, 2), (31, 2), (35, 3), (43, 3), (51, 3), (59, 3), (67, 4), (83, 4),
  (99, 4), (115, 4), (131, 5), (163, 5), (195, 5), (227, 5), (258, 0)]

/-- The least distance and the number of extra bits of each symbol for a distance. -/
def distanceTable : Array (Nat × Nat) := #[
  (1, 0), (2, 0), (3, 0), (4, 0), (5, 1), (7, 1), (9, 2), (13, 2), (17, 3), (25, 3), (33, 4),
  (49, 4), (65, 5), (97, 5), (129, 6), (193, 6), (257, 7), (385, 7), (513, 8), (769, 8), (1025, 9),
  (1537, 9), (2049, 10), (3073, 10), (4097, 11), (6145, 11), (8193, 12), (12289, 12), (16385, 13),
  (24577, 13)]

/-- A value of a table, with its extra bits. -/
def readExtra (table : Array (Nat × Nat)) (symbol : Nat) (bits : Bits) :
    Except Fault (Nat × Bits) :=
  match table[symbol]? with
  | none => .error .corrupt
  | some (least, width) => do
    let (extra, bits) ← bits.number width
    .ok (least + extra, bits)

/-- The codes of a block: one for bytes and lengths, one for distances. -/
structure Codes where
  literals : Code
  distances : Code

/-- The codes of a block that brings none of its own. -/
def fixedCodes : Except Fault Codes := do
  let lengths := List.replicate 144 8 ++ List.replicate 112 9 ++ List.replicate 24 7 ++
    List.replicate 8 8
  .ok ⟨← Code.ofLengths false lengths, ← Code.ofLengths false (List.replicate 32 5)⟩

/-- The order in which the lengths of the code for code lengths are written. -/
def lengthOrder : List Nat := [16, 17, 18, 0, 8, 7, 9, 6, 10, 5, 11, 4, 12, 3, 13, 2, 14, 1, 15]

/-- Numbers of so many bits, one after the other. -/
def readNumbers (width : Nat) : Nat → Bits → Except Fault (List Nat × Bits)
  | 0, bits => .ok ([], bits)
  | count + 1, bits => do
    let (value, bits) ← bits.number width
    let (values, bits) ← readNumbers width count bits
    .ok (value :: values, bits)

/-- Code lengths until there are `total` of them. `done` holds those read, the last one first.
`rounds` bounds the number of symbols. -/
def readLengths (code : Code) (total : Nat) :
    (rounds : Nat) → (done : List Nat) → Bits → Except Fault (List Nat × Bits)
  | 0, _, _ => .error .corrupt
  | rounds + 1, done, bits =>
    if done.length = total then .ok (done.reverse, bits)
    else do
      let (symbol, bits) ← code.read bits
      if symbol < 16 then readLengths code total rounds (symbol :: done) bits
      else
        let repeated : Option (Nat × Nat × Nat) :=
          if symbol = 16 then done.head?.map fun last => (last, 3, 2)
          else if symbol = 17 then some (0, 3, 3)
          else some (0, 11, 7)
        match repeated with
        | none => .error .corrupt
        | some (value, least, width) =>
          let (extra, bits) ← bits.number width
          let done := List.replicate (least + extra) value ++ done
          if done.length > total then .error .corrupt
          else readLengths code total rounds done bits

/-- The codes that a block brings along. -/
def readCodes (bits : Bits) : Except Fault (Codes × Bits) := do
  let (literalCount, bits) ← bits.number 5
  let (distanceCount, bits) ← bits.number 5
  let (lengthCount, bits) ← bits.number 4
  let literalCount := literalCount + 257
  let distanceCount := distanceCount + 1
  if literalCount > 286 || distanceCount > 30 then throw .corrupt
  let (written, bits) ← readNumbers 3 (lengthCount + 4) bits
  let table := lengthOrder.zip written
  let lengthCode ← Code.ofLengths false
    ((List.range 19).map fun symbol => (table.lookup symbol).getD 0)
  let total := literalCount + distanceCount
  let (lengths, bits) ← readLengths lengthCode total (total + 1) [] bits
  let literals ← Code.ofLengths true (lengths.take literalCount)
  let distances ← Code.ofLengths true (lengths.drop literalCount)
  .ok (⟨literals, distances⟩, bits)

/-- The output with `length` bytes from `distance` back appended, one at a time, so that a copy may
read what it has written. -/
def copyBack (output : Array UInt8) (distance : Nat) : (length : Nat) → Array UInt8
  | 0 => output
  | length + 1 =>
    let byte := if distance ≤ output.size then output.getD (output.size - distance) 0 else 0
    copyBack (output.push byte) distance length

/-- What decoding has made: the output, and where the data goes on or why it does not. -/
abbrev Progress := Array UInt8 × Except Fault Bits

/-- A reference backwards whose length begins with `symbol`: the length and the distance. -/
def readReference (codes : Codes) (symbol : Nat) (bits : Bits) :
    Except Fault (Nat × Nat × Bits) := do
  let (length, bits) ← readExtra lengthTable (symbol - 257) bits
  let (distanceSymbol, bits) ← codes.distances.read bits
  let (distance, bits) ← readExtra distanceTable distanceSymbol bits
  .ok (length, distance, bits)

/-- The coded contents of a block. `rounds` bounds the number of symbols. -/
def coded (codes : Codes) : (rounds : Nat) → Array UInt8 → Bits → Progress
  | 0, output, _ => (output, .error .incomplete)
  | rounds + 1, output, bits =>
    match codes.literals.read bits with
    | .error fault => (output, .error fault)
    | .ok (symbol, bits) =>
      if symbol < 256 then coded codes rounds (output.push (UInt8.ofNat symbol)) bits
      else if symbol = 256 then (output, .ok bits)
      else
        match readReference codes symbol bits with
        | .error fault => (output, .error fault)
        | .ok (length, distance, bits) => coded codes rounds (copyBack output distance length) bits

/-- The contents of a stored block. They begin with the next byte. -/
def stored (output : Array UInt8) (bits : Bits) : Progress :=
  match bits.rest with
  | a :: b :: c :: d :: rest =>
    let length := a.toNat + 256 * b.toNat
    if length + (c.toNat + 256 * d.toNat) ≠ 0xFFFF then (output, .error .corrupt)
    else
      let contents := rest.take length
      let output := output ++ contents
      if contents.length < length then (output, .error .incomplete)
      else (output, .ok ⟨[], rest.drop length⟩)
  | _ => (output, .error .incomplete)

/-- The contents of a block of the given type. -/
def block (rounds : Nat) (type : Nat) (output : Array UInt8) (bits : Bits) : Progress :=
  if type = 0 then stored output bits
  else
    let codes : Except Fault (Codes × Bits) :=
      if type = 1 then fixedCodes.map fun codes => (codes, bits)
      else if type = 2 then readCodes bits
      else .error .corrupt
    match codes with
    | .error fault => (output, .error fault)
    | .ok (codes, bits) => coded codes rounds output bits

/-- The blocks up to the last one. `rounds` bounds their number and the length of each. -/
def blocks (size : Nat) : (rounds : Nat) → Array UInt8 → Bits → Progress
  | 0, output, _ => (output, .error .incomplete)
  | rounds + 1, output, bits =>
    let header : Except Fault (Bool × Nat × Bits) := do
      let (isLast, bits) ← bits.next
      let (type, bits) ← bits.number 2
      .ok (isLast, type, bits)
    match header with
    | .error fault => (output, .error fault)
    | .ok (isLast, type, bits) =>
      match block size type output bits with
      | (output, .error fault) => (output, .error fault)
      | (output, .ok bits) =>
        if isLast then (output, .ok bits) else blocks size rounds output bits

/-- All blocks of compressed bytes. -/
def allBlocks (input : Bytes) : Progress :=
  let rounds := 8 * input.length + 1
  blocks rounds rounds #[] ⟨[], input⟩

/-- The length of the pieces in which a file is taken in and data is handed on. -/
def pieceSize : Nat := 32768

/-- How much data is handed on when a rule is broken behind `size` bytes of it: the pieces of data
that more data followed, and whatever the pieces of the file before the broken one gave. `start` is
the position of the input in the file, and `pieces` a number of pieces among which the broken one
may still be the last. -/
def handedOn (start size : Nat) (input : Bytes) : (pieces : Nat) → Nat
  | 0 => (size - 1) / pieceSize * pieceSize
  | pieces + 1 =>
    match allBlocks (input.take ((pieces + 1) * pieceSize - start)) with
    | (output, .error .incomplete) => max output.size ((size - 1) / pieceSize * pieceSize)
    | _ => handedOn start size input pieces

/-- The data that compressed bytes stand for, which begin at the position `start` of their file, with
the bytes behind the last block or the fault that comes before its end. Where a rule is broken, data
that was not handed on before is lost. -/
def inflate (start : Nat) (input : Bytes) : Bytes × Except Fault Bytes :=
  match allBlocks input with
  | (output, .ok bits) => (output.toList, .ok bits.rest)
  | (output, .error .incomplete) => (output.toList, .error .incomplete)
  | (output, .error .corrupt) =>
    let pieces := (start + input.length - 1) / pieceSize
    (output.toList.take (handedOn start output.size input pieces), .error .corrupt)

end PolicyBundle.Archive.Inflate
