import PolicyBundle.Policy.Dialect
import PolicyBundle.Text.Basic

/-!
# Policy modules

What a build needs to know of a module: its package, its imports, the heads of its rules, the
functions it calls and the documents under `data` it refers to. Everything is kept in the order of
the source.
-/

namespace PolicyBundle.Policy

/-- Why a source is no module. -/
inductive Fault where
  | emptyModule
  | packageExpected
  | invalidPackage
  | unknownImport (path : String)
  | textAfterImport (text : String)
  | ifRequired
  | keywordNotImported (keyword : String)
  /-- A fault that another scanner puts into its own words. -/
  | described (text : String)
  deriving DecidableEq, Repr

/-- The text of a fault. -/
def Fault.message : Fault → String
  | .emptyModule => "empty module"
  | .packageExpected => "package expected"
  | .invalidPackage => "invalid package path"
  | .unknownImport path => "unexpected import path: " ++ path
  | .textAfterImport text => "unexpected token after import path: " ++ text
  | .ifRequired => "`if` keyword is required before rule body"
  | .keywordNotImported keyword =>
    "unexpected `" ++ keyword ++ "` keyword: import future.keywords." ++ keyword ++ " or rego.v1"
  | .described text => text

/-- A fault at a line of a file. -/
structure ParseError where
  file : String
  line : Nat
  fault : Fault
  deriving DecidableEq, Repr

/-- The text of an error with its place. -/
def ParseError.message (e : ParseError) : String :=
  e.file ++ ":" ++ Text.decimal e.line ++ ": rego_parse_error: " ++ e.fault.message

/-- An import. -/
structure Import where
  /-- What is imported, such as `data.lib.util` or `rego.v1`. -/
  path : String
  /-- The name it has in the module, if it has one. -/
  localName : Option String
  line : Nat
  deriving DecidableEq, Repr

/-- The head of a rule. -/
structure Rule where
  /-- The name within the package; it may be dotted. -/
  name : String
  isFunction : Bool
  /-- Whether a comment above it declares it an entrypoint. -/
  entrypoint : Bool
  line : Nat
  deriving DecidableEq, Repr

/-- A call of a function. -/
structure Call where
  name : String
  line : Nat
  deriving DecidableEq, Repr

/-- A policy module. -/
structure Module where
  /-- The file it comes from, within its bundle or source directory. -/
  path : String
  /-- The package, dotted, without `data.` in front. -/
  package : String
  imports : List Import
  rules : List Rule
  calls : List Call
  /-- The documents it refers to, dotted, without `data.` in front. -/
  dataRefs : List String
  /-- Whether a comment above the package declares all of it an entrypoint. -/
  packageEntrypoint : Bool
  /-- The dialect it was read in. -/
  dialect : Dialect
  source : String
  deriving DecidableEq, Repr

namespace Module

/-- The full names of the rules. -/
def rulePaths (m : Module) : List String :=
  m.rules.map fun rule => m.package ++ "." ++ rule.name

/-- The names of the functions that the module defines. -/
def functionNames (m : Module) : List String :=
  (m.rules.filter (·.isFunction)).map (·.name)

/-- Whether the module imports the syntax of version 1. -/
def importsV1 (m : Module) : Bool :=
  m.imports.any (·.path = "rego.v1")

/-- The keywords of later versions that one import brings in. -/
def keywordsOfImport (path : String) : List String :=
  if path = "future.keywords" then ["contains", "every", "if", "in"]
  else (Text.after? "future.keywords." path).toList

/-- The keywords of later versions that the module imports. -/
def futureKeywords (m : Module) : List String :=
  m.imports.flatMap fun i => keywordsOfImport i.path

/-- The module without its declarations of entrypoints. -/
def withoutEntrypoints (m : Module) : Module :=
  { m with
    packageEntrypoint := false
    rules := m.rules.map fun rule => { rule with entrypoint := false } }

/-- The module as a message names it. -/
def describe (m : Module) : String :=
  m.path ++ " (package " ++ m.package ++ ")"

end Module

end PolicyBundle.Policy
