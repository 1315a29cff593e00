import PolicyBundle.Json.Printer
import PolicyBundle.Text.Quoted
import PolicyBundle.Text.Utf8

/-!
# Faults of documents

Why a document could not be read, and where. A reader that stops says what was left of the input;
line and column follow from what was consumed before. Lines are counted from one. The column counts
the bytes consumed on the line, so it is zero directly after a line feed.
-/

namespace PolicyBundle.Json

/-- What stands where something else was expected. -/
inductive Found where
  | null
  | bool (value : Bool)
  | number (value : Number)
  | string (value : String)
  | sequence
  | map
  deriving DecidableEq, Repr

/-- Why a document cannot be read: first the faults of its syntax, then those of its shape. -/
inductive Cause where
  | unfinishedList
  | unfinishedObject
  | unfinishedString
  | unfinishedValue
  | expectedColon
  | expectedListEnd
  | expectedObjectEnd
  | expectedKeyword
  | expectedValue
  | invalidEscape
  | invalidNumber
  | numberOutOfRange
  | invalidCodePoint
  | controlInString
  | keyNotString
  | loneSurrogate
  | unfinishedSurrogate
  | trailingComma
  | trailingCharacters
  | tooDeep
  | wrongType (found : Found) (expected : String)
  | wrongValue (found : Found) (expected : String)
  | missingField (name : String)
  | duplicateField (name : String)
  | wrongLength (length : Nat) (expected : String)
  deriving DecidableEq, Repr

/-- What was found, as a message names it. -/
def Found.describe : Found → String
  | .null => "null"
  | .bool b => "boolean `" ++ (if b then "true" else "false") ++ "`"
  | .number (.integer n) => "integer `" ++ String.ofList (writeNumber (.integer n)) ++ "`"
  | .number (.float x) => "floating point `" ++ String.ofList (writeFloat x) ++ "`"
  | .string s => "string " ++ Text.quoted s
  | .sequence => "sequence"
  | .map => "map"

/-- The text of a cause. -/
def Cause.message : Cause → String
  | .unfinishedList => "EOF while parsing a list"
  | .unfinishedObject => "EOF while parsing an object"
  | .unfinishedString => "EOF while parsing a string"
  | .unfinishedValue => "EOF while parsing a value"
  | .expectedColon => "expected `:`"
  | .expectedListEnd => "expected `,` or `]`"
  | .expectedObjectEnd => "expected `,` or `\x7d`"
  | .expectedKeyword => "expected ident"
  | .expectedValue => "expected value"
  | .invalidEscape => "invalid escape"
  | .invalidNumber => "invalid number"
  | .numberOutOfRange => "number out of range"
  | .invalidCodePoint => "invalid unicode code point"
  | .controlInString => "control character (\\u0000-\\u001F) found while parsing a string"
  | .keyNotString => "key must be a string"
  | .loneSurrogate => "lone leading surrogate in hex escape"
  | .unfinishedSurrogate => "unexpected end of hex escape"
  | .trailingComma => "trailing comma"
  | .trailingCharacters => "trailing characters"
  | .tooDeep => "recursion limit exceeded"
  | .wrongType found expected => "invalid type: " ++ found.describe ++ ", expected " ++ expected
  | .wrongValue found expected => "invalid value: " ++ found.describe ++ ", expected " ++ expected
  | .missingField name => "missing field `" ++ name ++ "`"
  | .duplicateField name => "duplicate field `" ++ name ++ "`"
  | .wrongLength n expected => "invalid length " ++ Text.decimal n ++ ", expected " ++ expected

/-- A reader that has stopped: why, and the input behind the place it points at. -/
structure Stop where
  cause : Cause
  rest : Bytes

/-- A stop at the end of what was consumed. -/
def stop (cause : Cause) (rest : Bytes) : Stop := ⟨cause, rest⟩

/-- A stop at the byte that comes next, or at the end of the input. -/
def stopAt (cause : Cause) (rest : Bytes) : Stop := ⟨cause, rest.drop 1⟩

/-- A fault of a document with its place. -/
structure Fault where
  cause : Cause
  line : Nat
  column : Nat
  deriving DecidableEq, Repr

/-- The text of a fault. -/
def Fault.message (fault : Fault) : String :=
  fault.cause.message ++ " at line " ++ Text.decimal fault.line ++
    " column " ++ Text.decimal fault.column

/-- The place behind some consumed bytes: one line for each line feed, and the bytes since the last
one. -/
def place (consumed : Bytes) : Nat × Nat :=
  (consumed.count 0x0A + 1, (consumed.reverse.takeWhile (· ≠ 0x0A)).length)

/-- The fault of a reader that stopped on `input`. -/
def Stop.locate (input : Bytes) (s : Stop) : Fault :=
  let (line, column) := place (input.take (input.length - s.rest.length))
  ⟨s.cause, line, column⟩

end PolicyBundle.Json
