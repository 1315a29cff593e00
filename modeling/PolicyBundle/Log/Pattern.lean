import PolicyBundle.Text.Blank
import PolicyBundle.Text.Letter

/-!
# Patterns for values

A directive may ask for a value: a number or a regular expression. No event is ever compared with
one, so all that counts is whether it is well-formed. Expressions know the classes of ASCII alone.
What would need a table of all characters is refused as long as characters are matched: classes such
as `\d`, borders of words, and letters of either case. What could match a part of a character is
refused as long as bytes are matched.
-/

namespace PolicyBundle.Log.Pattern

/-- The flags that bear on what is well-formed. -/
structure Flags where
  /-- Letters stand for both cases. -/
  anyCase : Bool
  /-- Bytes are matched, not characters. -/
  bytes : Bool
  /-- Blanks and comments are passed over. -/
  spaced : Bool

namespace Flags

/-- The flags that an expression begins with. -/
def initial : Flags := ⟨false, false, false⟩

/-- The flags with the one of the given letter set or cleared. -/
def set (flags : Flags) (letter : Char) (value : Bool) : Flags :=
  match letter with
  | 'i' => { flags with anyCase := value }
  | 'u' => { flags with bytes := !value }
  | 'x' => { flags with spaced := value }
  | _ => flags

/-- Whether a character may stand for itself. -/
def allowsLiteral (flags : Flags) : Bool :=
  flags.bytes || !flags.anyCase

/-- Whether a class may hold a character. -/
def allowsMember (flags : Flags) (c : Char) : Bool :=
  if flags.bytes then c.toNat < 0x80 else !flags.anyCase

/-- Whether a class such as `\d`, or its complement, may be used. -/
def allowsShorthand (flags : Flags) (negated : Bool) : Bool :=
  flags.bytes && !negated

/-- Whether a class may hold a class with a name, or its complement. -/
def allowsNamed (flags : Flags) (negated : Bool) : Bool :=
  if flags.bytes then !negated else !flags.anyCase

end Flags

/-- The text behind blanks and comments. `inComment` tells whether it begins within a comment, which
ends with its line. -/
def behindSpace : (inComment : Bool) → List Char → List Char
  | _, [] => []
  | true, c :: rest => behindSpace (c ≠ '\n') rest
  | false, c :: rest =>
    if Text.isBlank c then behindSpace false rest
    else if c = '#' then behindSpace true rest
    else c :: rest

/-- The text from where something stands that is not passed over. -/
def Flags.skip (flags : Flags) (text : List Char) : List Char :=
  if flags.spaced then behindSpace false text else text

/-- What an escape stands for. -/
inductive Escape where
  | character (c : Char)
  | shorthand (negated : Bool)
  | wordBorder
  | textBorder

/-- The value of a hexadecimal digit. -/
def hexDigit? (c : Char) : Option Nat :=
  if c.isDigit then some (c.toNat - '0'.toNat)
  else if 'a' ≤ c && c ≤ 'f' then some (c.toNat - 'a'.toNat + 10)
  else if 'A' ≤ c && c ≤ 'F' then some (c.toNat - 'A'.toNat + 10)
  else none

/-- The number of so many more hexadecimal digits, of which `high` has been read. -/
def hexNumber? (flags : Flags) : (width : Nat) → (high : Nat) → List Char →
    Option (Nat × List Char)
  | 0, high, text => some (high, text)
  | width + 1, high, c :: rest => do
    hexNumber? flags width (16 * high + (← hexDigit? c)) (flags.skip rest)
  | _ + 1, _, [] => none

/-- The character of so many hexadecimal digits. -/
def hexChar? (flags : Flags) (width : Nat) (text : List Char) : Option (Char × List Char) := do
  let (n, rest) ← hexNumber? flags width 0 (flags.skip text)
  if n.isValidChar then some (Char.ofNat n, rest) else none

/-- The escape whose backslash stands before the text. A byte beyond ASCII is no escape. -/
def escape? (flags : Flags) : List Char → Option (Escape × List Char)
  | [] => none
  | c :: rest =>
    match c with
    | 'x' => do
      let (c, rest) ← hexChar? flags 2 rest
      if flags.bytes && c.toNat ≥ 0x80 then none else some (.character c, rest)
    | 'u' => (hexChar? flags 4 rest).map fun (c, rest) => (.character c, rest)
    | 'U' => (hexChar? flags 8 rest).map fun (c, rest) => (.character c, rest)
    | 'd' | 's' | 'w' => some (.shorthand false, rest)
    | 'D' | 'S' | 'W' => some (.shorthand true, rest)
    | 'b' | 'B' | '<' | '>' => some (.wordBorder, rest)
    | 'A' | 'z' => some (.textBorder, rest)
    | 'a' | 'f' | 'n' | 'r' | 't' | 'v' => some (.character c, rest)
    | _ => if c.toNat < 0x80 && !c.isAlphanum then some (.character c, rest) else none

/-- A member of a class, none for a shorthand, and the text behind it. -/
def member? (flags : Flags) : List Char → Option (Option Char × List Char)
  | [] => none
  | '\\' :: rest => do
    match ← escape? flags rest with
    | (.character c, rest) => if flags.allowsMember c then some (some c, rest) else none
    | (.shorthand negated, rest) =>
      if flags.allowsShorthand negated then some (none, rest) else none
    | _ => none
  | c :: rest => if flags.allowsMember c then some (some c, rest) else none

/-- The text behind a member of a class or a range of members. A hyphen makes a range unless a
bracket or another hyphen follows it. -/
def behindMembers? (flags : Flags) (text : List Char) : Option (List Char) := do
  let (first, rest) ← member? flags text
  match flags.skip rest with
  | '-' :: behind =>
    match flags.skip behind with
    | [] => none
    | ']' :: _ | '-' :: _ => some ('-' :: behind)
    | behind =>
      let (last, rest) ← member? flags behind
      match first, last with
      | some first, some last => if first ≤ last then some rest else none
      | _, _ => none
  | rest => some rest

/-- The names of the classes that a class may name between colons. -/
def classNames : List String :=
  ["alnum", "alpha", "ascii", "blank", "cntrl", "digit", "graph", "lower", "print", "punct",
    "space", "upper", "word", "xdigit"]

/-- A class that is named behind a bracket: whether it is negated, and the text behind it. -/
def namedClass? : List Char → Option (Bool × List Char)
  | ':' :: text =>
    let (negated, text) := match text with
      | '^' :: rest => (true, rest)
      | _ => (false, text)
    let name := text.takeWhile (· ≠ ':')
    match text.drop name.length with
    | ':' :: ']' :: rest =>
      if classNames.contains (String.ofList name) then some (negated, rest) else none
    | _ => none
  | _ => none

/-- The text of a class whose opening bracket stands before it, without the mark of a complement. -/
def openedClass? (flags : Flags) (text : List Char) : Option (List Char) :=
  match flags.skip text with
  | '^' :: rest => if flags.bytes then none else some rest
  | text => some text

/-- What has been read of a class. -/
inductive ClassPlace where
  | opening
  /-- Nothing but hyphens, which stand for themselves. -/
  | hyphens
  | later

/-- The text behind a class. `depth` counts the classes around it, and `rounds` bounds the number of
steps. -/
def behindClass? (flags : Flags) :
    (rounds : Nat) → (depth : Nat) → ClassPlace → List Char → Option (List Char)
  | 0, _, _, _ => none
  | rounds + 1, depth, place, text =>
    match place, flags.skip text with
    | _, [] => none
    | .opening, ']' :: rest =>
      if flags.allowsMember ']' then behindClass? flags rounds depth .later rest else none
    | .opening, '-' :: rest | .hyphens, '-' :: rest =>
      if flags.allowsMember '-' then behindClass? flags rounds depth .hyphens rest else none
    | _, ']' :: rest =>
      match depth with
      | 0 => some rest
      | depth + 1 => behindClass? flags rounds depth .later rest
    | _, '&' :: '&' :: rest | _, '-' :: '-' :: rest | _, '~' :: '~' :: rest =>
      behindClass? flags rounds depth .later rest
    | _, '[' :: rest =>
      match namedClass? rest with
      | some (negated, rest) =>
        if flags.allowsNamed negated then behindClass? flags rounds depth .later rest else none
      | none => do behindClass? flags rounds (depth + 1) .opening (← openedClass? flags rest)
    | _, text => do behindClass? flags rounds depth .later (← behindMembers? flags text)

/-- The text behind a class whose opening bracket stands before the text. -/
def class? (flags : Flags) (text : List Char) : Option (List Char) := do
  behindClass? flags text.length 0 .opening (← openedClass? flags text)

/-- What a parenthesis opens. -/
inductive Opening where
  /-- A group, with the flags inside it and its name. -/
  | group (inside : Flags) (name : Option (List Char))
  /-- Flags for what follows. -/
  | flags (following : Flags)

/-- What flags open. `seen` holds the letters read so far, the last one first. -/
def flagged? (flags : Flags) (seen : List Char) : List Char → Option (Opening × List Char)
  | [] => none
  | ':' :: rest => if seen.head? = some '-' then none else some (.group flags none, rest)
  | ')' :: rest =>
    if seen.isEmpty || seen.head? = some '-' then none else some (.flags flags, rest)
  | c :: rest =>
    if seen.contains c || !"imsuxUR-".toList.contains c then none
    else flagged? (flags.set c !(seen.contains '-')) (c :: seen) rest

/-- Whether a text may name a group. -/
def isGroupName : List Char → Bool
  | [] => false
  | c :: rest =>
    (c = '_' || Text.isLetter c) &&
      rest.all fun c => "_.[]".toList.contains c || Text.isAlphanumeric c

/-- What is opened by a group whose name stands first in the text. -/
def named? (flags : Flags) (text : List Char) : Option (Opening × List Char) :=
  let name := text.takeWhile (· ≠ '>')
  match text.drop name.length with
  | [] => none
  | _ :: rest => if isGroupName name then some (.group flags (some name), rest) else none

/-- What is opened by the parenthesis that stands before the text. -/
def opening? (flags : Flags) (text : List Char) : Option (Opening × List Char) :=
  match flags.skip text with
  | '?' :: 'P' :: '<' :: rest | '?' :: '<' :: rest => named? flags rest
  | '?' :: rest => flagged? flags [] rest
  | rest => some (.group flags none, rest)

/-- How far an expression has been read. -/
structure Place where
  flags : Flags
  /-- The flags around each open group, the innermost group first. -/
  around : List Flags
  names : List (List Char)
  /-- Whether something has just been read that may be repeated. -/
  repeatable : Bool

/-- The place behind something that may be repeated. -/
def Place.behindItem (place : Place) : Place :=
  { place with repeatable := true }

/-- Whether the rest of an expression is well-formed. `rounds` bounds the number of steps. -/
def isRest : (rounds : Nat) → Place → List Char → Bool
  | 0, _, _ => false
  | rounds + 1, place, text =>
    match place.flags.skip text with
    | [] => place.around.isEmpty
    | '(' :: rest =>
      match opening? place.flags rest with
      | none => false
      | some (.flags flags, rest) => isRest rounds { place with flags, repeatable := false } rest
      | some (.group flags name, rest) =>
        let around := place.flags :: place.around
        !name.any place.names.contains &&
          isRest rounds ⟨flags, around, name.toList ++ place.names, false⟩ rest
    | ')' :: rest =>
      match place.around with
      | [] => false
      | flags :: around => isRest rounds ⟨flags, around, place.names, true⟩ rest
    | '|' :: rest => isRest rounds { place with repeatable := false } rest
    | '[' :: rest => (class? place.flags rest).any (isRest rounds place.behindItem)
    | '\x7b' :: _ => false
    | '\\' :: rest =>
      match escape? place.flags rest with
      | none => false
      | some (escape, rest) =>
        (match escape with
          | .character _ => place.flags.allowsLiteral
          | .shorthand negated => place.flags.allowsShorthand negated
          | .wordBorder => place.flags.bytes
          | .textBorder => true) && isRest rounds place.behindItem rest
    | c :: rest =>
      if "?*+".toList.contains c then
        let rest := match rest with
          | '?' :: rest => rest
          | _ => rest
        place.repeatable && isRest rounds place rest
      else
        (match c with
          | '.' => !place.flags.bytes
          | '^' | '$' => true
          | _ => place.flags.allowsLiteral) && isRest rounds place.behindItem rest

/-- Whether a text is a well-formed expression. Nothing is repeated a counted number of times, which
would take a closing brace: that ends the value. -/
def isExpression (text : List Char) : Bool :=
  isRest (text.length + 1) ⟨.initial, [], [], false⟩ text

/-- Whether a text is a number: an infinity, no number at all, or digits with a point and an
exponent. -/
def isNumber (text : List Char) : Bool :=
  let behindSign (text : List Char) : List Char := match text with
    | '+' :: rest | '-' :: rest => rest
    | _ => text
  let isExponent (text : List Char) : Bool := match text with
    | [] => true
    | c :: rest => c.toLower = 'e' && (Text.digits? (behindSign rest)).isSome
  let text := behindSign text
  let whole := text.takeWhile Char.isDigit
  let rest := text.drop whole.length
  let fraction := match rest with
    | '.' :: rest => rest.takeWhile Char.isDigit
    | _ => []
  let exponent := match rest with
    | '.' :: rest => rest.drop fraction.length
    | _ => rest
  ["inf", "infinity", "nan"].contains (String.ofList (text.map Char.toLower)) ||
    (!(whole.isEmpty && fraction.isEmpty) && isExponent exponent)

/-- Whether a text may stand for a value. -/
def isValue (text : String) : Bool :=
  isNumber text.toList || isExpression text.toList

end PolicyBundle.Log.Pattern
