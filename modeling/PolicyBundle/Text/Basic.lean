/-!
# Pieces of text

Beginnings, endings, cuts and joins of strings, all defined through the list of characters, so that
a fact about a string is a fact about a list. Positions never appear: a cut is a pair of texts.
-/

namespace PolicyBundle.Text

/-- Whether `text` begins with `start`. -/
def startsWith (text start : String) : Bool :=
  start.toList.isPrefixOf text.toList

/-- Whether `text` ends with `ending`. -/
def endsWith (text ending : String) : Bool :=
  ending.toList.isSuffixOf text.toList

/-- What follows `start` in a list that begins with it. -/
def afterList? : List Char → List Char → Option (List Char)
  | [], text => some text
  | _ :: _, [] => none
  | c :: start, d :: text => if c = d then afterList? start text else none

/-- What follows `start` in `text`, when `text` begins with it. -/
def after? (start text : String) : Option String :=
  (afterList? start.toList text.toList).map String.ofList

/-- `text` without `start` when it begins so, and unchanged otherwise. -/
def dropStart (start text : String) : String :=
  (after? start text).getD text

/-- The pieces of `text` between occurrences of `separator`. There is always at least one piece;
two neighbouring separators have an empty piece between them. -/
def split (separator : Char) (text : String) : List String :=
  (text.toList.splitOn separator).map String.ofList

/-- The parts with `separator` between each two neighbours. -/
def join (separator : String) (parts : List String) : String :=
  String.ofList (separator.toList.intercalate (parts.map String.toList))

/-- The text before the first `separator` and the text after it; none when there is no separator. -/
def cutFirst? (separator : Char) : List Char → Option (List Char × List Char)
  | [] => none
  | c :: rest =>
    if c = separator then some ([], rest)
    else (cutFirst? separator rest).map fun (before, after) => (c :: before, after)

/-- The text before the last `separator` and the text after it; none when there is no separator. -/
def cutLast? (separator : Char) : List Char → Option (List Char × List Char)
  | [] => none
  | c :: rest =>
    match cutLast? separator rest with
    | some (before, after) => some (c :: before, after)
    | none => if c = separator then some ([], rest) else none

/-- The directory and the name of a path with slashes; a path without a slash has the empty
directory. -/
def dirAndName (path : String) : String × String :=
  match cutLast? '/' path.toList with
  | some (dir, name) => (String.ofList dir, String.ofList name)
  | none => ("", path)

/-- `text` with `new` in the place of every `old`. -/
def replace (old new : Char) (text : String) : String :=
  String.ofList (text.toList.map fun c => if c = old then new else c)

/-- The first piece of `text` before a `separator`. -/
def firstPiece (separator : Char) (text : String) : String :=
  String.ofList (text.toList.takeWhile (· ≠ separator))

/-- `text` without the characters of the class at either end. -/
def dropEnds (class? : Char → Bool) (text : List Char) : List Char :=
  ((text.dropWhile class?).reverse.dropWhile class?).reverse

/-- The decimal digits of a number. -/
def decimal (n : Nat) : String :=
  String.ofList (Nat.toDigits 10 n)

/-- The value of a text of decimal digits, at least one of them and nothing else. -/
def digits? (text : List Char) : Option Nat :=
  if text.isEmpty || !text.all Char.isDigit then none
  else some (text.foldl (fun n c => 10 * n + (c.toNat - '0'.toNat)) 0)

/-- A number below `bound` written in decimal digits, with at most one plus sign in front and no
blanks. -/
def numberBelow? (bound : Nat) (text : String) : Option Nat :=
  let digits := match text.toList with
    | '+' :: rest => rest
    | all => all
  (digits? digits).filter (· < bound)

end PolicyBundle.Text
