import PolicyBundle.Json.Fault

/-!
# The smallest parts of a document

Blanks, keywords, numbers and strings, each read from the front of the input. A reader of a value
returns it with the rest of the input. Beside the readers stand skippers, which check less: a
skipped number may be too large, and a skipped string may hold escapes that name no character.
-/

namespace PolicyBundle.Json

/-- A byte of ASCII. -/
def byte (c : Char) : UInt8 := c.toNat.toUInt8

/-- Whether a byte separates tokens. -/
def isSpace (b : UInt8) : Bool :=
  b == 0x20 || b == 0x0A || b == 0x09 || b == 0x0D

/-- The input from the next token on. -/
def afterSpaces (input : Bytes) : Bytes :=
  input.dropWhile isSpace

/-- Whether a byte is a decimal digit. -/
def isDigit (b : UInt8) : Bool :=
  0x30 ≤ b && b ≤ 0x39

/-- The value of a decimal digit. -/
def digitValue (b : UInt8) : Nat :=
  b.toNat - 0x30

/-- The rest of a keyword whose first letter is consumed. -/
def keyword : List Char → Bytes → Except Stop Bytes
  | [], rest => .ok rest
  | _ :: _, [] => .error (stop .unfinishedValue [])
  | c :: letters, b :: rest =>
    if b = byte c then keyword letters rest else .error (stop .expectedKeyword rest)

/-- The digits of a number taken into its significand as long as that stays below `2 ^ 64`: the
significand and the number of digits taken. -/
def significand : Nat → Bytes → Nat × Nat
  | n, [] => (n, 0)
  | n, d :: digits =>
    let next := 10 * n + digitValue d
    if next < Nat.pow 2 64 then
      let (m, taken) := significand next digits
      (m, taken + 1)
    else (n, 0)

/-- A number of double precision, given by sign, significand and exponent of ten, that ends before
`rest`. -/
def floating (isNegative : Bool) (digits : Nat) (exponent : Int) (rest : Bytes) :
    Except Stop (Number × Bytes) :=
  match Binary64.ofDecimal? digits exponent with
  | some magnitude => .ok (.float (Binary64.withSign isNegative magnitude), rest)
  | none => .error (stop .numberOutOfRange rest)

/-- The digits of an exponent as long as their value stays below `2 ^ 31`: the value, whether one
digit more would be too much, and the input behind what was looked at. -/
def exponentValue : Nat → Bytes → Nat × Bool × Bytes
  | n, [] => (n, false, [])
  | n, d :: rest =>
    if isDigit d then
      let next := 10 * n + digitValue d
      if next < Nat.pow 2 31 then exponentValue next rest else (n, true, rest)
    else (n, false, d :: rest)

/-- The exponent of a number, behind its letter. An exponent of `2 ^ 31` and more gives zero when
it is negative or the significand is zero. -/
def exponentPart (isNegative : Bool) (digits : Nat) (before : Int) (input : Bytes) :
    Except Stop (Number × Bytes) :=
  let (below, input) := match input with
    | b :: rest => if b = byte '+' then (false, rest)
      else if b = byte '-' then (true, rest) else (false, b :: rest)
    | [] => (false, [])
  match input with
  | [] => .error (stop .unfinishedValue [])
  | d :: rest =>
    if isDigit d then
      match exponentValue (digitValue d) rest with
      | (n, false, rest) =>
        floating isNegative digits (if below then before - n else before + n) rest
      | (_, true, rest) =>
        if digits ≠ 0 && !below then .error (stop .numberOutOfRange rest)
        else .ok (.float (Binary64.withSign isNegative 0), rest.dropWhile isDigit)
    else .error (stop .invalidNumber rest)

/-- What may follow the digits of a number that has a point or too many digits. -/
def afterDigits (isNegative : Bool) (digits : Nat) (exponent : Int) (input : Bytes) :
    Except Stop (Number × Bytes) :=
  match input with
  | b :: rest =>
    if b = byte 'e' || b = byte 'E' then exponentPart isNegative digits exponent rest
    else floating isNegative digits exponent (b :: rest)
  | [] => floating isNegative digits exponent []

/-- The digits behind the point of a number. Digits that the significand has no room for are
dropped. -/
def fractionPart (isNegative : Bool) (digits : Nat) (exponent : Int) (input : Bytes) :
    Except Stop (Number × Bytes) :=
  let places := input.takeWhile isDigit
  let rest := input.dropWhile isDigit
  if places.isEmpty then
    .error (stopAt (if rest.isEmpty then .unfinishedValue else .invalidNumber) rest)
  else
    let (digits, taken) := significand digits places
    afterDigits isNegative digits (exponent - taken) rest

/-- A number whose digits before the point fit into the significand. It is an integer if nothing
follows and it fits into 64 bits; a negative zero is a number of double precision. -/
def shortNumber (isNegative : Bool) (digits : Nat) (input : Bytes) :
    Except Stop (Number × Bytes) :=
  let whole (rest : Bytes) : Except Stop (Number × Bytes) :=
    if !isNegative then .ok (.integer digits, rest)
    else if 0 < digits && digits ≤ Nat.pow 2 63 then .ok (.integer (-digits), rest)
    else floating true digits 0 rest
  match input with
  | b :: rest =>
    if b = byte '.' then fractionPart isNegative digits 0 rest
    else if b = byte 'e' || b = byte 'E' then exponentPart isNegative digits 0 rest
    else whole (b :: rest)
  | [] => whole []

/-- A number whose digits before the point exceed the significand by `excess` places. -/
def longNumber (isNegative : Bool) (digits excess : Nat) (input : Bytes) :
    Except Stop (Number × Bytes) :=
  match input with
  | b :: rest =>
    if b = byte '.' then fractionPart isNegative digits excess rest
    else afterDigits isNegative digits excess (b :: rest)
  | [] => afterDigits isNegative digits excess []

/-- A number behind its sign. A zero in front of another digit is refused. -/
def readNumber (isNegative : Bool) (input : Bytes) : Except Stop (Number × Bytes) :=
  match input with
  | [] => .error (stop .unfinishedValue [])
  | d :: rest =>
    if d = byte '0' then
      match rest with
      | next :: after =>
        if isDigit next then .error (stop .invalidNumber after)
        else shortNumber isNegative 0 (next :: after)
      | [] => shortNumber isNegative 0 []
    else if isDigit d then
      let digits := input.takeWhile isDigit
      let rest := input.dropWhile isDigit
      let (value, taken) := significand 0 digits
      if taken = digits.length then shortNumber isNegative value rest
      else longNumber isNegative value (digits.length - taken) rest
    else .error (stop .invalidNumber rest)

/-- The value of a hexadecimal digit. -/
def hexValue? (b : UInt8) : Option Nat :=
  if isDigit b then some (digitValue b)
  else if byte 'a' ≤ b && b ≤ byte 'f' then some (b.toNat - 0x61 + 10)
  else if byte 'A' ≤ b && b ≤ byte 'F' then some (b.toNat - 0x41 + 10)
  else none

/-- The four hexadecimal digits of an escape. -/
def hexEscape : Bytes → Except Stop (Nat × Bytes)
  | a :: b :: c :: d :: rest =>
    match hexValue? a, hexValue? b, hexValue? c, hexValue? d with
    | some a, some b, some c, some d => .ok (((a * 16 + b) * 16 + c) * 16 + d, rest)
    | _, _, _, _ => .error (stop .invalidEscape rest)
  | _ => .error (stop .unfinishedString [])

/-- The byte that must come next inside a surrogate pair, consumed in either case. -/
def pairByte (expected : Char) : Bytes → Except Stop Bytes
  | [] => .error (stop .unfinishedString [])
  | b :: rest => if b = byte expected then .ok rest else .error (stop .unfinishedSurrogate rest)

/-- A character written by its code point. One beyond the basic plane is a pair of surrogates. -/
def unicodeEscape (input : Bytes) : Except Stop (Char × Bytes) := do
  let (n, rest) ← hexEscape input
  if 0xDC00 ≤ n && n ≤ 0xDFFF then .error (stop .loneSurrogate rest)
  else if n < 0xD800 || n > 0xDBFF then .ok (Char.ofNat n, rest)
  else
    let rest ← pairByte '\\' rest
    let rest ← pairByte 'u' rest
    let (low, rest) ← hexEscape rest
    if low < 0xDC00 || low > 0xDFFF then .error (stop .loneSurrogate rest)
    else .ok (Char.ofNat ((n - 0xD800) * 0x400 + (low - 0xDC00) + 0x10000), rest)

/-- The byte that a letter behind a backslash stands for. -/
def letterEscape? (b : UInt8) : Option UInt8 :=
  if b = byte '"' || b = byte '\\' || b = byte '/' then some b
  else if b = byte 'b' then some 0x08
  else if b = byte 'f' then some 0x0C
  else if b = byte 'n' then some 0x0A
  else if b = byte 'r' then some 0x0D
  else if b = byte 't' then some 0x09
  else none

/-- The bytes of an escape, behind its backslash. -/
def readEscape : Bytes → Except Stop (Bytes × Bytes)
  | [] => .error (stop .unfinishedString [])
  | b :: rest =>
    if b = byte 'u' then do
      let (c, rest) ← unicodeEscape rest
      .ok (Text.utf8 c.toString, rest)
    else
      match letterEscape? b with
      | some value => .ok ([value], rest)
      | none => .error (stop .invalidEscape rest)

/-- The rest of a string whose opening quote is consumed; none when its bytes are no text. `done`
has its bytes so far, backwards, and `rounds` bounds the number of steps. -/
def stringFrom (rounds : Nat) (done : Bytes) (input : Bytes) :
    Except Stop (Option String × Bytes) :=
  match rounds, input with
  | _, [] => .error (stop .unfinishedString [])
  | 0, _ => .error (stop .unfinishedString [])
  | rounds + 1, b :: rest =>
    if b = byte '"' then .ok (Text.ofUtf8? done.reverse, rest)
    else if b = byte '\\' then do
      let (bytes, rest) ← readEscape rest
      stringFrom rounds (bytes.reverse ++ done) rest
    else if b < 0x20 then .error (stop .controlInString rest)
    else stringFrom rounds (b :: done) rest

/-- A string whose opening quote is consumed. Where its bytes are no text, the first one of them
that belongs to no character is told. -/
def readString (input : Bytes) : Except Stop (String × Bytes) :=
  match stringFrom input.length [] input with
  | .ok (some text, rest) => .ok (text, rest)
  | .ok (none, _) => .error (stopAt .invalidCodePoint (Text.afterCharacters input))
  | .error s => .error s

/-- Skips a string whose opening quote is consumed; `rounds` bounds the number of steps. -/
def skipStringFrom (rounds : Nat) (input : Bytes) : Except Stop Bytes :=
  match rounds, input with
  | _, [] => .error (stop .unfinishedString [])
  | 0, _ => .error (stop .unfinishedString [])
  | rounds + 1, b :: rest =>
    if b = byte '"' then .ok rest
    else if b = byte '\\' then
      match rest with
      | [] => .error (stop .unfinishedString [])
      | e :: rest =>
        if e = byte 'u' then do
          let (_, rest) ← hexEscape rest
          skipStringFrom rounds rest
        else if (letterEscape? e).isSome then skipStringFrom rounds rest
        else .error (stop .invalidEscape rest)
    else if b < 0x20 then .error (stop .controlInString (b :: rest))
    else skipStringFrom rounds rest

/-- Skips a string whose opening quote is consumed. -/
def skipString (input : Bytes) : Except Stop Bytes :=
  skipStringFrom input.length input

/-- Skips the exponent of a number, behind its letter. -/
def skipExponent (input : Bytes) : Except Stop Bytes :=
  let input := match input with
    | b :: rest => if b = byte '+' || b = byte '-' then rest else b :: rest
    | [] => []
  match input with
  | d :: rest =>
    if isDigit d then .ok (rest.dropWhile isDigit) else .error (stop .invalidNumber rest)
  | [] => .error (stop .invalidNumber [])

/-- Skips the part of a number behind its digits. -/
def skipAfterDigits (input : Bytes) : Except Stop Bytes :=
  match input with
  | b :: rest =>
    if b = byte 'e' || b = byte 'E' then skipExponent rest else .ok (b :: rest)
  | [] => .ok []

/-- Skips a number behind its sign. -/
def skipNumber (input : Bytes) : Except Stop Bytes :=
  let afterWhole (input : Bytes) : Except Stop Bytes :=
    match input with
    | b :: rest =>
      if b = byte '.' then
        if (rest.takeWhile isDigit).isEmpty then .error (stopAt .invalidNumber rest)
        else skipAfterDigits (rest.dropWhile isDigit)
      else skipAfterDigits (b :: rest)
    | [] => .ok []
  match input with
  | [] => .error (stop .invalidNumber [])
  | d :: rest =>
    if d = byte '0' then
      match rest with
      | next :: after =>
        if isDigit next then .error (stop .invalidNumber after) else afterWhole (next :: after)
      | [] => .ok []
    else if isDigit d then afterWhole (rest.dropWhile isDigit)
    else .error (stop .invalidNumber rest)

end PolicyBundle.Json
