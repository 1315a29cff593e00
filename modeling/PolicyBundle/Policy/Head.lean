import PolicyBundle.Policy.Line
import PolicyBundle.Policy.Module
import PolicyBundle.Policy.Reference

/-!
# Statements

The three statements that the scanner reads beyond their references: the package line, imports and
the heads of rules. Each is judged from one line of code alone.
-/

namespace PolicyBundle.Policy

/-- The package that a line of code without outer blanks declares. -/
def parsePackage (code : List Char) : Except Fault String :=
  match Text.afterList? "package".toList code with
  | none => .error .packageExpected
  | some [] => .error .packageExpected
  | some (c :: rest) =>
    if !Text.isBlank c then .error .packageExpected
    else
      match dottedName (Text.trim (c :: rest)) with
      | ([], _) => .error .invalidPackage
      | (_, _ :: _) => .error .invalidPackage
      | (path, []) => .ok (Text.dropStart "data." (String.ofList path))

/-- Whether a path can be imported. -/
def importable (path : String) : Bool :=
  let root := Text.firstPiece '.' path
  root = "data" || root = "input" || path = "rego.v1" || path = "future.keywords" ||
    Text.startsWith path "future.keywords."

/-- The name under which a path is imported when none is given: the last segment of a document's
path. -/
def defaultName (path : String) : Option String :=
  let root := Text.firstPiece '.' path
  if root = "data" || root = "input" then (Text.split '.' path).getLast? else none

/-- The import that a line of code without outer blanks declares. The line begins with `import`. -/
def parseImport (code : List Char) (line : Nat) : Except Fault Import :=
  let rest := Text.trim (code.drop "import".length)
  let (name, after) := dottedName rest
  let path := String.ofList name
  if path = "" || !importable path then .error (.unknownImport (String.ofList rest))
  else
    let tail := Text.trim after
    match Text.afterList? "as ".toList tail with
    | some name => .ok ⟨path, some (String.ofList (Text.trim name)), line⟩
    | none =>
      if tail.isEmpty then .ok ⟨path, defaultName path, line⟩
      else .error (.textAfterImport (String.ofList tail))

/-- The head of a rule in a line of code. -/
structure Head where
  name : List Char
  isFunction : Bool
  /-- The number of characters of the line in front of the name. -/
  start : Nat
  deriving DecidableEq, Repr

/-- Whether a text may follow the name of a rule. -/
def mayFollowName (rest : List Char) : Bool :=
  let rest := Text.trimStart rest
  let headLike := match rest with
    | [] => true
    | c :: _ => ['(', '[', '\x7b', '=', ':'].contains c || "if ".toList.isPrefixOf rest ||
        rest = "if".toList || "contains ".toList.isPrefixOf rest
  headLike && !"==".toList.isPrefixOf rest

/-- Where the name of a rule begins in a line: behind blanks, and behind the word `default` with the
blanks after it. The number of characters before it and the line from there on. -/
def nameStart (code : List Char) : Nat × List Char :=
  let rest := Text.trimStart code
  let (first, after) := dottedName rest
  let rest := if first = "default".toList then Text.trimStart after else rest
  (code.length - rest.length, rest)

/-- The head of a rule at the front of a line of code, if the line looks like one. -/
def parseHead (code : List Char) : Option Head :=
  let (start, rest) := nameStart code
  let (name, after) := dottedName rest
  if name.isEmpty || keywords.contains (name.takeWhile (· ≠ '.')) then none
  else if mayFollowName after then some ⟨name, after.head? = some '(', start⟩
  else none

/-- Whether a keyword of a later version is among the imports. -/
def keywordImported (imports : List Import) (keyword : String) : Bool :=
  imports.any fun i =>
    i.path = "rego.v1" || i.path = "future.keywords" || i.path = "future.keywords." ++ keyword

/-- Whether the syntax of version 1 applies behind these imports. -/
def appliesV1 (dialect : Dialect) (imports : List Import) : Bool :=
  dialect.requiresIf || imports.any (·.path = "rego.v1")

/-- The fault of a rule's line, if it has one. The syntax of version 1 asks for `if` in front of the
first brace unless an equals sign stands there; the syntax of version 0 does not know `if` and
`contains` unless they are imported. -/
def ruleFault? (dialect : Dialect) (imports : List Import) (code : List Char) : Option Fault :=
  if appliesV1 dialect imports then
    match Text.cutFirst? '\x7b' code with
    | some (before, _) =>
      if (words before).contains "if".toList || before.contains '=' then none else some .ifRequired
    | none => none
  else
    (["if", "contains"].find? fun keyword =>
      (words code).contains keyword.toList && !keywordImported imports keyword).map
      .keywordNotImported

end PolicyBundle.Policy
