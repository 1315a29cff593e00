import PolicyBundle.Policy.Module

/-!
# Diagnostics

What a compiler finds wrong with modules, and where.
-/

namespace PolicyBundle.Build

/-- What is wrong with a module. -/
inductive Problem where
  | parse (fault : Policy.Fault)
  /-- A module of version 1, which the capabilities do not cover. -/
  | dialectUnsupported
  | importUnsupported
  | keywordUnsupported (keyword : String)
  | undefinedFunction (name : String)
  /-- A problem of types that another compiler puts into its own words. -/
  | types (text : String)
  deriving DecidableEq, Repr

namespace Problem

/-- The category of a problem. -/
def category : Problem → String
  | .undefinedFunction _ | .types _ => "rego_type_error"
  | _ => "rego_parse_error"

/-- The text of a problem. -/
def message : Problem → String
  | .parse fault => fault.message
  | .dialectUnsupported =>
    "illegal capabilities: rego_v1 feature required for parsing v1 Rego"
  | .importUnsupported =>
    "invalid import, `rego.v1` is not supported by current capabilities"
  | .keywordUnsupported keyword =>
    "unexpected keyword, `" ++ keyword ++ "` is not supported by current capabilities"
  | .undefinedFunction name => "undefined function " ++ name
  | .types text => text

end Problem

/-- A problem at a line of a file. A problem of no file has the empty file name. -/
structure Diagnostic where
  file : String
  line : Nat
  problem : Problem
  deriving DecidableEq, Repr

namespace Diagnostic

/-- The text of a diagnostic. -/
def message (d : Diagnostic) : String :=
  let place := if d.file.isEmpty then "" else d.file ++ ":" ++ Text.decimal d.line ++ ": "
  place ++ d.problem.category ++ ": " ++ d.problem.message

/-- The diagnostic of a source that is no module. -/
def ofParseError (e : Policy.ParseError) : Diagnostic :=
  ⟨e.file, e.line, .parse e.fault⟩

/-- The text of some diagnostics. -/
def report : List Diagnostic → String
  | [d] => "1 error occurred: " ++ d.message
  | ds =>
    Text.decimal ds.length ++ " errors occurred:\n" ++ Text.join "\n" (ds.map message)

end Diagnostic

end PolicyBundle.Build
