import PolicyBundle.Glob.Pattern
import PolicyBundle.Text.Utf8

/-!
# Matching names

A pattern matches the bytes of a whole name. Each part of a pattern may take more or less of what is
left of the name, so matching keeps all that may be left over behind the parts so far.
-/

namespace PolicyBundle.Glob

/-- What may be left of some bytes, down to nothing. -/
def tails : Bytes → List Bytes
  | [] => [[]]
  | b :: rest => (b :: rest) :: tails rest

/-- What may be left of some bytes behind a slash. -/
def behindSlash : Bytes → List Bytes
  | [] => []
  | b :: rest => if b = '/'.toUInt8 then rest :: behindSlash rest else behindSlash rest

/-- What is left of the bytes behind `front`, if they begin so. -/
def behind (front bytes : Bytes) : List Bytes :=
  if front.isPrefixOf bytes then [bytes.drop front.length] else []

/-- Whether a byte is in a class of characters. A character is its bytes there, and a range reaches
from the last byte of its first character to the first byte of its last one. -/
def inRanges (byte : UInt8) (ranges : List (Char × Char)) : Bool :=
  ranges.any fun (first, last) =>
    let firstBytes := Text.utf8 (String.ofList [first])
    let lastBytes := Text.utf8 (String.ofList [last])
    if first = last then firstBytes.contains byte
    else
      firstBytes.dropLast.contains byte || (lastBytes.drop 1).contains byte ||
        (firstBytes.getLastD 0 ≤ byte && byte ≤ lastBytes.headD 0)

mutual

/-- Whether a part takes nothing, whatever stands before it. -/
def Token.isEmpty : Token → Bool
  | .alternatives branches => allEmpty branches
  | _ => false

/-- Whether all parts of a branch take nothing. -/
def branchEmpty : List Token → Bool
  | [] => true
  | token :: rest => token.isEmpty && branchEmpty rest

/-- Whether all branches of a group take nothing. -/
def allEmpty : List (List Token) → Bool
  | [] => true
  | branch :: rest => branchEmpty branch && allEmpty rest

end

mutual

/-- What may be left behind a part. Branches that take nothing are dropped from a group. -/
def Token.leaves (bytes : Bytes) : Token → List Bytes
  | .literal c => behind (Text.utf8 (String.ofList [c])) bytes
  | .any => if bytes.isEmpty then [] else [bytes.drop 1]
  | .star => tails bytes
  | .leading => bytes :: behindSlash bytes
  | .subtree => (behind ['/'.toUInt8] bytes).flatMap tails
  | .between => (behind ['/'.toUInt8] bytes).flatMap fun rest => rest :: behindSlash rest
  | .set negated ranges =>
    match bytes with
    | [] => []
    | b :: rest => if inRanges b ranges ≠ negated then [rest] else []
  | .alternatives branches => if allEmpty branches then [bytes] else branchesLeave bytes branches

/-- What may be left behind the parts of a branch, of all that may be there before. -/
def branchLeaves : List Bytes → List Token → List Bytes
  | left, [] => left
  | left, token :: rest =>
    branchLeaves (left.flatMap fun bytes => token.leaves bytes).eraseDups rest

/-- What may be left behind one branch of a group. -/
def branchesLeave (bytes : Bytes) : List (List Token) → List Bytes
  | [] => []
  | branch :: rest =>
    (if branchEmpty branch then [] else branchLeaves [bytes] branch) ++ branchesLeave bytes rest

end

namespace Pattern

/-- Whether a pattern matches all of the bytes. Any directories alone match everything. -/
def matchesBytes (pattern : Pattern) (bytes : Bytes) : Bool :=
  match pattern.tokens with
  | [.leading] => true
  | tokens => (branchLeaves [bytes] tokens).contains []

/-- Whether a pattern matches a name. -/
def test (pattern : Pattern) (name : String) : Bool :=
  pattern.matchesBytes (Text.utf8 name)

end Pattern

/-- Patterns of which one must match. -/
abbrev Patterns := List Pattern

/-- The patterns among some texts, and each text that is none with its fault. -/
def ofTexts (texts : List String) : Patterns × List (String × Fault) :=
  (texts.filterMap fun text => (Pattern.parse text).toOption,
    texts.filterMap fun text =>
      match Pattern.parse text with
      | .ok _ => none
      | .error fault => some (text, fault))

/-- Whether one of the patterns matches a name. -/
def anyMatches (patterns : Patterns) (name : String) : Bool :=
  patterns.any (·.test name)

end PolicyBundle.Glob
