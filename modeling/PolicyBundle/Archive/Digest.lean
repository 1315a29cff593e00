import PolicyBundle.Archive.ByteOrder

/-!
# Digests

The digest of 256 bits by which one output is told from another: SHA-256. The bytes are padded to
whole blocks of 64 bytes, and each block is worked into a state of eight words in 64 rounds. Words
have 32 bits, and their sums wrap.
-/

namespace PolicyBundle.Archive.Digest

/-- The words of a state. -/
structure State where
  a : UInt32
  b : UInt32
  c : UInt32
  d : UInt32
  e : UInt32
  f : UInt32
  g : UInt32
  h : UInt32

/-- The state before any block: the fractions of the square roots of the first eight primes. -/
def State.initial : State :=
  ⟨0x6A09E667, 0xBB67AE85, 0x3C6EF372, 0xA54FF53A,
    0x510E527F, 0x9B05688C, 0x1F83D9AB, 0x5BE0CD19⟩

/-- The words of a state in order. -/
def State.words (s : State) : List UInt32 :=
  [s.a, s.b, s.c, s.d, s.e, s.f, s.g, s.h]

/-- The state whose words are the sums of those of two states. -/
def State.add (s t : State) : State :=
  ⟨s.a + t.a, s.b + t.b, s.c + t.c, s.d + t.d, s.e + t.e, s.f + t.f, s.g + t.g, s.h + t.h⟩

/-- The constants of the rounds: the fractions of the cube roots of the first 64 primes. -/
def roundConstants : List UInt32 := [
  0x428A2F98, 0x71374491, 0xB5C0FBCF, 0xE9B5DBA5, 0x3956C25B, 0x59F111F1, 0x923F82A4, 0xAB1C5ED5,
  0xD807AA98, 0x12835B01, 0x243185BE, 0x550C7DC3, 0x72BE5D74, 0x80DEB1FE, 0x9BDC06A7, 0xC19BF174,
  0xE49B69C1, 0xEFBE4786, 0x0FC19DC6, 0x240CA1CC, 0x2DE92C6F, 0x4A7484AA, 0x5CB0A9DC, 0x76F988DA,
  0x983E5152, 0xA831C66D, 0xB00327C8, 0xBF597FC7, 0xC6E00BF3, 0xD5A79147, 0x06CA6351, 0x14292967,
  0x27B70A85, 0x2E1B2138, 0x4D2C6DFC, 0x53380D13, 0x650A7354, 0x766A0ABB, 0x81C2C92E, 0x92722C85,
  0xA2BFE8A1, 0xA81A664B, 0xC24B8B70, 0xC76C51A3, 0xD192E819, 0xD6990624, 0xF40E3585, 0x106AA070,
  0x19A4C116, 0x1E376C08, 0x2748774C, 0x34B0BCB5, 0x391C0CB3, 0x4ED8AA4A, 0x5B9CCA4F, 0x682E6FF3,
  0x748F82EE, 0x78A5636F, 0x84C87814, 0x8CC70208, 0x90BEFFFA, 0xA4506CEB, 0xBEF9A3F7, 0xC67178F2]

/-- A word with its bits moved down, those at the end coming in at the top. -/
def rotate (word count : UInt32) : UInt32 :=
  (word >>> count) ||| (word <<< (32 - count))

/-- The words of a block, each with its highest byte first. -/
def wordsOf : Bytes → List UInt32
  | a :: b :: c :: d :: rest =>
    (a.toUInt32 <<< 24 ||| b.toUInt32 <<< 16 ||| c.toUInt32 <<< 8 ||| d.toUInt32) :: wordsOf rest
  | _ => []

/-- So many more words behind those of a block, each made of four words before it. -/
def extend : (count : Nat) → Array UInt32 → Array UInt32
  | 0, words => words
  | count + 1, words =>
    let back (n : Nat) : UInt32 := words.getD (words.size - n) 0
    let low := rotate (back 15) 7 ^^^ rotate (back 15) 18 ^^^ back 15 >>> 3
    let high := rotate (back 2) 17 ^^^ rotate (back 2) 19 ^^^ back 2 >>> 10
    extend count (words.push (back 16 + low + back 7 + high))

/-- One round, with the sum of its constant and its word. -/
def round (s : State) (addend : UInt32) : State :=
  let mixed := rotate s.e 6 ^^^ rotate s.e 11 ^^^ rotate s.e 25
  let chosen := (s.e &&& s.f) ^^^ (~~~s.e &&& s.g)
  let first := s.h + mixed + chosen + addend
  let blended := rotate s.a 2 ^^^ rotate s.a 13 ^^^ rotate s.a 22
  let agreed := (s.a &&& s.b) ^^^ (s.a &&& s.c) ^^^ (s.b &&& s.c)
  ⟨first + (blended + agreed), s.a, s.b, s.c, s.d + first, s.e, s.f, s.g⟩

/-- A state with one more block worked in. -/
def addBlock (s : State) (block : Bytes) : State :=
  let words := extend 48 (wordsOf block).toArray
  s.add ((roundConstants.zipWith (· + ·) words.toList).foldl round s)

/-- A state with so many blocks worked in. -/
def addBlocks : (count : Nat) → State → Bytes → State
  | 0, s, _ => s
  | count + 1, s, bytes => addBlocks count (addBlock s (bytes.take 64)) (bytes.drop 64)

/-- The bytes with one bit, zeros and their length in bits behind them. -/
def padded (bytes : Bytes) : Bytes :=
  let zeros := (119 - bytes.length % 64) % 64
  bytes ++ 0x80 :: List.replicate zeros 0 ++ bigEndian 8 (8 * bytes.length)

/-- The state when all bytes are worked in. -/
def digest (bytes : Bytes) : State :=
  let bytes := padded bytes
  addBlocks (bytes.length / 64) .initial bytes

/-- A word in eight hexadecimal digits. -/
def hexWord (word : UInt32) : List Char :=
  let digits := Nat.toDigits 16 word.toNat
  List.replicate (8 - digits.length) '0' ++ digits

/-- The digest of some bytes in hexadecimal digits. -/
def text (bytes : Bytes) : String :=
  String.ofList ((digest bytes).words.flatMap hexWord)

end PolicyBundle.Archive.Digest
