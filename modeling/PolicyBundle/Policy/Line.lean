import PolicyBundle.Text.Blank
import PolicyBundle.Text.Lines

/-!
# Lines of code

What is left of the lines of a source when comments and the contents of strings are taken away. The
quotes stay, so that a string can still be told from nothing. A string between double quotes ends
with its line; one between back quotes goes on over lines.
-/

namespace PolicyBundle.Policy

/-- Where a line is read: in code, in a string, directly behind a backslash in a string, or in a
string that goes on over lines. -/
inductive Mode where
  | code
  | string
  | escape
  | raw
  deriving DecidableEq, Repr

/-- The code of a line that is read in some mode, and whether the line ends inside a string that
goes on. A string that its line leaves open is closed. -/
def strip : Mode → List Char → List Char × Bool
  | .code, [] => ([], false)
  | .string, [] => (['"'], false)
  | .escape, [] => (['"'], false)
  | .raw, [] => ([], true)
  | .code, c :: rest =>
    if c = '#' then ([], false)
    else
      let mode := if c = '"' then Mode.string else if c = '`' then Mode.raw else Mode.code
      let (code, raw) := strip mode rest
      (c :: code, raw)
  | .string, c :: rest =>
    if c = '\\' then strip .escape rest
    else if c = '"' then
      let (code, raw) := strip .code rest
      ('"' :: code, raw)
    else strip .string rest
  | .escape, _ :: rest => strip .string rest
  | .raw, c :: rest =>
    if c = '`' then
      let (code, raw) := strip .code rest
      ('`' :: code, raw)
    else strip .raw rest

/-- A line of a source. -/
structure Line where
  /-- Its number, counted from one. -/
  number : Nat
  /-- The line as it is written. -/
  text : List Char
  /-- The line without comments and contents of strings. -/
  code : List Char
  /-- Whether it begins inside a string. -/
  inString : Bool
  deriving DecidableEq, Repr

/-- Lines numbered from `number` on, the first of which begins inside a string or not. -/
def Line.numbered (number : Nat) (inString : Bool) : List (List Char) → List Line
  | [] => []
  | text :: rest =>
    let (code, raw) := strip (if inString then .raw else .code) text
    ⟨number, text, code, inString⟩ :: Line.numbered (number + 1) raw rest

/-- The lines of a source. -/
def Line.ofSource (source : List Char) : List Line :=
  Line.numbered 1 false (Text.lines source)

/-- The number of brackets a line of code opens less the number it closes, strings apart. -/
def bracketBalance (inString : Bool) : List Char → Int
  | [] => 0
  | c :: rest =>
    if c = '"' || c = '`' then bracketBalance (!inString) rest
    else
      let here : Int :=
        if inString then 0
        else if c = '\x7b' || c = '[' || c = '(' then 1
        else if c = '\x7d' || c = ']' || c = ')' then -1
        else 0
      here + bracketBalance inString rest

/-- Whether a line of code asks for the next one: its last character is an operator or a comma. -/
def continues (code : List Char) : Bool :=
  match code.getLast? with
  | some c => [',', '+', '-', '*', '/', '|', '&', '='].contains c
  | none => false

/-- The body of a comment: the text behind the number signs. None for a line that is no comment. -/
def commentBody? (text : List Char) : Option (List Char) :=
  match Text.trim text with
  | '#' :: rest => some (Text.trim (rest.dropWhile (· = '#')))
  | _ => none

/-- Whether the body of a comment declares an entrypoint. -/
def declaresEntrypoint (body : List Char) : Bool :=
  match Text.cutFirst? ':' body with
  | some (key, value) =>
    Text.trim key = "entrypoint".toList && Text.trim value = "true".toList
  | none => false

end PolicyBundle.Policy
