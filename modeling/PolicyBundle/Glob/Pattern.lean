import PolicyBundle.Text.Basic

/-!
# Patterns for names

The language of ignore patterns. A pattern is read character by character; stars wait until the
character behind them shows what they mean, because two stars between slashes stand for whole
directories.
-/

namespace PolicyBundle.Glob

/-- A part of a pattern. -/
inductive Token where
  | literal (c : Char)
  /-- Any one byte. -/
  | any
  /-- Any bytes. -/
  | star
  /-- Any directories at the front, or none. -/
  | leading
  /-- A slash and anything below. -/
  | subtree
  /-- A slash, or any directories between two slashes. -/
  | between
  /-- One byte of those that a character in one of the ranges has, or none of them. -/
  | set (negated : Bool) (ranges : List (Char × Char))
  | alternatives (branches : List (List Token))

/-- Why a text is no pattern. -/
inductive Fault where
  | unclosedClass
  | invalidRange (first last : Char)
  | unopenedGroup
  | unclosedGroup
  | danglingEscape
  deriving DecidableEq, Repr

/-- The text of a fault. -/
def Fault.message : Fault → String
  | .unclosedClass => "unclosed character class; missing ']'"
  | .invalidRange first last =>
    "invalid range; '" ++ String.ofList [first] ++ "' > '" ++ String.ofList [last] ++ "'"
  | .unopenedGroup =>
    "unopened alternate group; missing '\x7b' (maybe escape '\x7d' with '[\x7d]'?)"
  | .unclosedGroup =>
    "unclosed alternate group; missing '\x7d' (maybe escape '\x7b' with '[\x7b]'?)"
  | .danglingEscape => "dangling '\\'"

/-- A class that is being read. -/
structure ClassScan where
  negated : Bool
  /-- The ranges so far, the last one first. -/
  ranges : List (Char × Char)
  /-- Whether a hyphen has been read that may join the last range to the next character. -/
  joining : Bool
  /-- Whether the next character may still be the sign of a negation. -/
  atStart : Bool

/-- What the next character is read as. -/
inductive Mode where
  | plain
  | escaped
  /-- Behind one star. `before` is the character before it. -/
  | oneStar (before : Option Char)
  /-- Behind two stars. -/
  | twoStars (before : Option Char)
  | inClass (scan : ClassScan)

/-- A pattern that is being read. -/
structure Scan where
  mode : Mode
  /-- The character before the next one. -/
  previous : Option Char
  /-- The parts of the branch that is being read, the last one first. -/
  tokens : List Token
  /-- The groups that are open, innermost first: the parts before the group and its finished
  branches, the last one first. -/
  outer : List (List Token × List (List Token))

namespace Scan

/-- The start of a pattern. -/
def empty : Scan := ⟨.plain, none, [], []⟩

/-- The scan with one more part, and nothing pending. -/
def push (s : Scan) (token : Token) : Scan :=
  { s with mode := .plain, tokens := token :: s.tokens }

/-- One character where nothing is pending. -/
def plain (s : Scan) (c : Char) : Except Fault Scan :=
  match c with
  | '?' => .ok (s.push .any)
  | '*' => .ok { s with mode := .oneStar s.previous }
  | '[' => .ok { s with mode := .inClass ⟨false, [], false, true⟩ }
  | '{' => .ok { s with tokens := [], outer := (s.tokens, []) :: s.outer }
  | '}' =>
    match s.outer with
    | [] => .error .unopenedGroup
    | (front, branches) :: outer =>
      let group := Token.alternatives ((s.tokens.reverse :: branches).reverse)
      .ok { s with tokens := group :: front, outer }
  | ',' =>
    match s.outer with
    | [] => .ok (s.push (.literal ','))
    | (front, branches) :: outer =>
      .ok { s with tokens := [], outer := (front, s.tokens.reverse :: branches) :: outer }
  | '\\' => .ok { s with mode := .escaped }
  | c => .ok (s.push (.literal c))

/-- What two stars mean before the character `next`, and whether that character belongs to them.
They are any directories only where the text before them is a slash, or nothing at all. -/
def twoStars (s : Scan) (before next : Option Char) : Scan × Bool :=
  let stars := (s.push .star).push .star
  let inGroup := !s.outer.isEmpty
  match s.tokens with
  | [] => if next = none || next = some '/' then (s.push .leading, true) else (stars, false)
  | last :: earlier =>
    let bounded := before = some '/' || (inGroup && (before = some ',' || before = some '{'))
    let atEnd := next = none || (inGroup && (next = some ',' || next = some '}'))
    if !bounded then (stars, false)
    else if !(atEnd || next = some '/') then (stars, false)
    else
      let joined := match last with
        | .leading => .leading
        | .subtree => .subtree
        | _ => if atEnd then .subtree else .between
      ({ s with mode := .plain, tokens := joined :: earlier }, !atEnd)

/-- A class with the next character in it, or the end of the class. -/
def classChar (s : Scan) (scan : ClassScan) (c : Char) : Except Fault Scan :=
  let go (scan : ClassScan) : Scan := { s with mode := .inClass scan }
  if scan.atStart && !scan.negated && (c = '!' || c = '^') then
    .ok (go { scan with negated := true })
  else
    match scan.ranges with
    | [] => .ok (go { scan with ranges := [(c, c)], atStart := false })
    | (first, last) :: earlier =>
      if c = ']' then
        let ranges := if scan.joining then ('-', '-') :: scan.ranges else scan.ranges
        .ok (s.push (.set scan.negated ranges.reverse))
      else if scan.joining then
        if c < first then .error (.invalidRange first c)
        else .ok (go { scan with ranges := (first, c) :: earlier, joining := false })
      else if c = '-' then .ok (go { scan with joining := true })
      else .ok (go { scan with ranges := (c, c) :: (first, last) :: earlier })

/-- The next character, for which `previous` has yet to be set. -/
def char (s : Scan) (c : Char) : Except Fault Scan :=
  match s.mode with
  | .plain => s.plain c
  | .escaped => .ok (s.push (.literal c))
  | .oneStar before =>
    if c = '*' then .ok { s with mode := .twoStars before } else (s.push .star).plain c
  | .twoStars before =>
    match s.twoStars before (some c) with
    | (s, true) => .ok s
    | (s, false) => s.plain c
  | .inClass scan => s.classChar scan c

/-- The next character. -/
def next (s : Scan) (c : Char) : Except Fault Scan := do
  let s ← s.char c
  .ok { s with previous := some c }

/-- The parts of a pattern that ends here. -/
def finish (s : Scan) : Except Fault (List Token) := do
  let s ← match s.mode with
    | .plain => .ok s
    | .escaped => .error .danglingEscape
    | .oneStar _ => .ok (s.push .star)
    | .twoStars before => .ok (s.twoStars before none).1
    | .inClass _ => .error .unclosedClass
  if s.outer.isEmpty then .ok s.tokens.reverse else .error .unclosedGroup

end Scan

/-- A pattern. -/
structure Pattern where
  tokens : List Token

/-- The pattern that a text is. -/
def Pattern.parse (text : String) : Except Fault Pattern := do
  let s ← text.toList.foldlM Scan.next Scan.empty
  .ok ⟨← s.finish⟩

/-- The message for a text that is no pattern. -/
def describe (text : String) (fault : Fault) : String :=
  "error parsing glob '" ++ text ++ "': " ++ fault.message

end PolicyBundle.Glob
