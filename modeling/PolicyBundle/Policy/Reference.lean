import PolicyBundle.Text.Basic

/-!
# Names and references

Identifiers are of ASCII letters, digits and underscores. A dotted name is read as far as it goes: a
dot belongs to it only if an identifier follows. In a line of code every dotted name that does not
continue something else is a reference, and a reference with a parenthesis directly behind it is a
call.
-/

namespace PolicyBundle.Policy

/-- Whether a character may begin an identifier. -/
def isIdentStart (c : Char) : Bool :=
  c.isAlpha || c = '_'

/-- Whether a character may stand inside an identifier. -/
def isIdentChar (c : Char) : Bool :=
  c.isAlphanum || c = '_'

/-- The rest of a dotted name that has begun, and what follows it. -/
def nameTail : List Char → List Char × List Char
  | [] => ([], [])
  | c :: rest =>
    let goesOn : Bool :=
      isIdentChar c || (c = '.' && match rest with
        | d :: _ => isIdentStart d
        | [] => false)
    if goesOn then
      let (name, after) := nameTail rest
      (c :: name, after)
    else ([], c :: rest)

/-- The dotted name at the front of a text and what follows it. The name is empty when no identifier
begins there. -/
def dottedName : List Char → List Char × List Char
  | [] => ([], [])
  | c :: rest =>
    if isIdentStart c then
      let (name, after) := nameTail rest
      (c :: name, after)
    else ([], c :: rest)

/-- A dotted name in a line of code. -/
structure Reference where
  /-- The whole name. -/
  path : List Char
  /-- Whether a parenthesis follows directly. -/
  call : Bool
  /-- The number of characters of the line in front of it. -/
  start : Nat
  deriving DecidableEq, Repr

/-- Whether a name may begin behind this character. -/
def endsName : Option Char → Bool
  | none => true
  | some c => !(isIdentChar c || c = '.')

/-- The references in the rest of a line. `previous` is the character in front of the rest and
`start` the number of characters before it. Inside a name no other begins, because what stands
before is a character of the name. -/
def referencesFrom (previous : Option Char) (start : Nat) : List Char → List Reference
  | [] => []
  | c :: rest =>
    let later := referencesFrom (some c) (start + 1) rest
    if endsName previous && isIdentStart c then
      let (path, after) := dottedName (c :: rest)
      ⟨path, after.head? = some '(', start⟩ :: later
    else later

/-- The references in a line of code, from left to right. -/
def references (code : List Char) : List Reference :=
  referencesFrom none 0 code

/-- The reserved words. -/
def keywords : List (List Char) :=
  ["as", "contains", "default", "else", "every", "false", "if", "import", "in", "not", "null",
    "package", "some", "true", "with"].map String.toList

/-- Whether a dotted name may be the name of a function: it is no reserved word and no document. -/
def isCallable (path : List Char) : Bool :=
  !keywords.contains path && path ≠ "input".toList && path ≠ "data".toList &&
    !"input.".toList.isPrefixOf path

/-- The words of a line: its longest runs of identifier characters. -/
def words (code : List Char) : List (List Char) :=
  (code.splitOnP fun c => !isIdentChar c).filter fun word => !word.isEmpty

end PolicyBundle.Policy
