import PolicyBundle.Json.Basic
import PolicyBundle.Json.Shortest
import PolicyBundle.Text.Basic

/-!
# Writing JSON

A document is written in one line without blanks, or over several lines with two blanks per level.
Strings escape quotes, backslashes and the controls below the space, and nothing else. A number of
double precision is its shortest decimal and shows that it is one: it has a point or an exponent.
-/

namespace PolicyBundle.Json

/-- The form of a control character below the space: a letter where there is one, four hexadecimal
digits otherwise. -/
def controlEscape (c : Char) : List Char :=
  if c = '\n' then ['\\', 'n']
  else if c = '\r' then ['\\', 'r']
  else if c = '\t' then ['\\', 't']
  else if c.toNat = 8 then ['\\', 'b']
  else if c.toNat = 12 then ['\\', 'f']
  else ['\\', 'u', '0', '0'] ++ [Nat.digitChar (c.toNat / 16), Nat.digitChar (c.toNat % 16)]

/-- The form of one character of a string. -/
def escape (c : Char) : List Char :=
  if c = '"' then ['\\', '"']
  else if c = '\\' then ['\\', '\\']
  else if c.toNat < 0x20 then controlEscape c
  else [c]

/-- A string with its quotes. -/
def writeString (text : String) : List Char :=
  '"' :: text.toList.flatMap escape ++ ['"']

/-- A decimal, given by its digits and the exponent of ten. Between `10 ^ -5` and `10 ^ 16` it is
written with a point, and with an exponent that has a sign beyond. -/
def writeDecimal (digits : Nat) (exponent : Int) : List Char :=
  let text := Nat.toDigits 10 digits
  let point : Int := text.length + exponent
  let zeros (n : Int) := List.replicate n.toNat '0'
  if 0 ≤ exponent && point ≤ 16 then text ++ zeros exponent ++ ['.', '0']
  else if 0 < point && point ≤ 16 then text.take point.toNat ++ '.' :: text.drop point.toNat
  else if -5 < point && point ≤ 0 then ['0', '.'] ++ zeros (-point) ++ text
  else
    let tail := if text.length = 1 then [] else '.' :: text.drop 1
    let sign := if point > 0 then '+' else '-'
    text.take 1 ++ tail ++ 'e' :: sign :: Nat.toDigits 10 (point - 1).natAbs

/-- A number of double precision. -/
def writeFloat (x : Binary64) : List Char :=
  let (digits, exponent) := Binary64.shortest x.magnitude
  (if x.negative then ['-'] else []) ++ writeDecimal digits exponent

/-- A number. -/
def writeNumber : Number → List Char
  | .integer n => (if n < 0 then ['-'] else []) ++ Nat.toDigits 10 n.natAbs
  | .float x => writeFloat x

mutual

/-- A value in one line. -/
def write : Json → List Char
  | .null => ['n', 'u', 'l', 'l']
  | .bool true => ['t', 'r', 'u', 'e']
  | .bool false => ['f', 'a', 'l', 's', 'e']
  | .number n => writeNumber n
  | .string s => writeString s
  | .array items => '[' :: [','].intercalate (writeItems items) ++ [']']
  | .object fields => '\x7b' :: [','].intercalate (writeFields fields) ++ ['\x7d']

/-- The items of an array, each in one line. -/
def writeItems : List Json → List (List Char)
  | [] => []
  | item :: rest => write item :: writeItems rest

/-- The fields of an object, each in one line. -/
def writeFields : List (String × Json) → List (List Char)
  | [] => []
  | (name, value) :: rest => (writeString name ++ ':' :: write value) :: writeFields rest

end

/-- The text of a value in one line. -/
def compact (value : Json) : String :=
  String.ofList value.write

/-- The text of an object whose fields stay in the order given. -/
def compactFields (fields : List (String × Json)) : String :=
  String.ofList ('\x7b' :: [','].intercalate (writeFields fields) ++ ['\x7d'])

/-- A container over several lines: an opening, the parts each on a line of its own one level
deeper, and a closing. A container without parts stays in one line. -/
def writeBlock (indent : Nat) (opening closing : Char) (parts : List (List Char)) : List Char :=
  if parts.isEmpty then [opening, closing]
  else
    let inner := '\n' :: List.replicate (2 * (indent + 1)) ' '
    opening :: inner ++ (',' :: inner).intercalate parts ++
      '\n' :: List.replicate (2 * indent) ' ' ++ [closing]

mutual

/-- A value over several lines, `indent` levels deep. -/
def writePretty (indent : Nat) : Json → List Char
  | .array items => writeBlock indent '[' ']' (prettyItems (indent + 1) items)
  | .object fields => writeBlock indent '\x7b' '\x7d' (prettyFields (indent + 1) fields)
  | .null => write .null
  | .bool b => write (.bool b)
  | .number n => write (.number n)
  | .string s => write (.string s)

/-- The items of an array, `indent` levels deep. -/
def prettyItems (indent : Nat) : List Json → List (List Char)
  | [] => []
  | item :: rest => writePretty indent item :: prettyItems indent rest

/-- The fields of an object, `indent` levels deep. -/
def prettyFields (indent : Nat) : List (String × Json) → List (List Char)
  | [] => []
  | (name, value) :: rest =>
    (writeString name ++ ':' :: ' ' :: writePretty indent value) :: prettyFields indent rest

end

/-- The text of a value over several lines. The fields of an object stay in the order they have. -/
def pretty (value : Json) : String :=
  String.ofList (value.writePretty 0)

end PolicyBundle.Json
