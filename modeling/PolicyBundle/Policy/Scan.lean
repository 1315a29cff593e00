import PolicyBundle.Policy.Head

/-!
# Scanning a module

A source is scanned line by line. The first line of code declares the package. A statement begins on
a line that no bracket, no operator and no string reaches into from above; there an import or the
head of a rule is recognised. Every other line of code only has references. A comment `METADATA`
opens a block of comments, in which `entrypoint: true` marks the statement below.
-/

namespace PolicyBundle.Policy

/-- What a scan has found so far and what it must remember of the lines above. -/
structure Scan where
  /-- The package, once its line is read. -/
  package : Option String
  packageEntrypoint : Bool
  imports : List Import
  rules : List Rule
  calls : List Call
  dataRefs : List String
  /-- The number of brackets that are open. It has no bounds here, where a program counts in 32 bits: the
  two agree on sources with fewer than 2 to the 31 brackets. -/
  depth : Int
  /-- Whether the last line of code asks for another. -/
  continued : Bool
  /-- Whether the last line belongs to a block of comments that `METADATA` opened. -/
  inMetadata : Bool
  /-- Whether the next statement is declared an entrypoint. -/
  pendingEntrypoint : Bool
  deriving DecidableEq, Repr

namespace Scan

/-- The scan of nothing. -/
def empty : Scan := ⟨none, false, [], [], [], [], 0, false, false, false⟩

/-- A line without code: a comment, a blank line, or text inside a string. -/
def passOver (s : Scan) (line : Line) : Scan :=
  match if line.inString then none else commentBody? line.text with
  | some body =>
    if body = "METADATA".toList then { s with inMetadata := true }
    else if s.inMetadata && declaresEntrypoint body then { s with pendingEntrypoint := true }
    else s
  | none => { s with inMetadata := false }

/-- The references of a line that are no head of a rule, as documents and as calls. -/
def addReferences (s : Scan) (line : Nat) (found : List Reference) : Scan :=
  { s with
    dataRefs := s.dataRefs ++ found.filterMap fun r =>
      (Text.afterList? "data.".toList r.path).map String.ofList
    calls := s.calls ++ found.filterMap fun r =>
      if (Text.afterList? "data.".toList r.path).isNone && r.call && isCallable r.path then
        some ⟨String.ofList r.path, line⟩
      else none }

/-- The head of a rule, at the beginning of a statement. -/
def addRule (s : Scan) (line : Nat) (head : Head) : Scan :=
  { s with
    rules := s.rules ++ [⟨String.ofList head.name, head.isFunction, s.pendingEntrypoint, line⟩] }

/-- A line with code behind the package line. -/
def addCode (dialect : Dialect) (s : Scan) (line : Line) : Except Fault Scan := do
  let trimmed := Text.trim line.code
  let atStart := s.depth = 0 && !s.continued && !line.inString
  if atStart && "import ".toList.isPrefixOf trimmed then
    let found ← parseImport trimmed line.number
    .ok { s with
      imports := s.imports ++ [found], pendingEntrypoint := false, continued := false }
  else
    let head := if atStart then parseHead line.code else none
    if head.isSome then
      if let some fault := ruleFault? dialect s.imports line.code then
        throw fault
    let withRule := match head with
      | some head => s.addRule line.number head
      | none => s
    let other := (references line.code).filter fun r => head.map (·.start) ≠ some r.start
    let withReferences := withRule.addReferences line.number other
    .ok { withReferences with
      pendingEntrypoint := if atStart then false else s.pendingEntrypoint
      depth := s.depth + bracketBalance false line.code
      continued := continues trimmed }

/-- The next line. -/
def addLine (file : String) (dialect : Dialect) (s : Scan) (line : Line) :
    Except ParseError Scan :=
  if Text.blank line.code then .ok (s.passOver line)
  else
    let s := { s with inMetadata := false }
    let next : Except Fault Scan :=
      if s.package.isNone then do
        let package ← parsePackage (Text.trim line.code)
        .ok { s with
          package := some package
          packageEntrypoint := s.pendingEntrypoint
          pendingEntrypoint := false }
      else s.addCode dialect line
    next.mapError fun fault => ⟨file, line.number, fault⟩

/-- The scan of a source. -/
def ofSource (file : String) (dialect : Dialect) (source : List Char) : Except ParseError Scan :=
  (Line.ofSource source).foldlM (addLine file dialect) empty

end Scan

/-- The module in a source text. -/
def Module.parse (path source : String) (dialect : Dialect) : Except ParseError Module := do
  let s ← Scan.ofSource path dialect source.toList
  match s.package with
  | none => .error ⟨path, 1, .emptyModule⟩
  | some package =>
    .ok {
      path, package, dialect, source
      imports := s.imports
      rules := s.rules
      calls := s.calls
      dataRefs := s.dataRefs
      packageEntrypoint := s.packageEntrypoint }

end PolicyBundle.Policy
