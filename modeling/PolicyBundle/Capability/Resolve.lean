import PolicyBundle.Capability.Catalog
import PolicyBundle.Capability.Document
import PolicyBundle.Files.Tree
import PolicyBundle.Log.Traced

/-!
# Resolving capabilities

A build takes its capabilities from a document, from a version by name, from both, or from
neither; then it takes those of the current version. A version is a known one, a file of the
capability directory, or else any file.
-/

namespace PolicyBundle.Capability

open Log

/-- Why capabilities cannot be had. -/
inductive Error where
  | invalidDocument (fault : Json.Fault)
  | notFound (version : String)
  | invalidFile (path : String) (fault : Json.Fault)
  deriving DecidableEq, Repr

/-- The text of an error. -/
def Error.message : Error → String
  | .invalidDocument fault => "invalid capabilities JSON: " ++ fault.message
  | .notFound version => "no such file or capabilities version found: " ++ version
  | .invalidFile path fault => "invalid capabilities file " ++ path ++ ": " ++ fault.message

/-- Tells what became of capabilities. -/
def note (message : String) (values : List (String × Value)) : Traced Unit :=
  tell .debug "rego_build::capabilities" message values

/-- The capabilities in a document. -/
def ofDocument (text : String) : Except Error Capabilities :=
  (Capabilities.ofJson text).mapError .invalidDocument

/-- The capabilities in a file. A file that cannot be read counts as missing; the error then gives
`name`. -/
def ofFile (tree : Files.Tree) (path name : String) : Except Error Capabilities :=
  match tree.readText path with
  | .error _ => .error (.notFound name)
  | .ok text => (Capabilities.ofJson text).mapError (.invalidFile path)

/-- The capabilities of a version: a known one, the file with its name in a directory, or the file
at the path that it is. -/
def ofVersion (tree : Files.Tree) (dir : Option String) (version : String) :
    Attempt Error Capabilities := do
  match catalog.lookup version with
  | some capabilities =>
    note "Loaded embedded capabilities version" [("version", .plain version)]
    return capabilities
  | none =>
    match dir.map fun dir => Files.join dir (version ++ ".json") with
    | some path =>
      if tree.isFile path then
        note "Loaded capabilities version from directory" [("path", .plain path)]
        Attempt.quiet (ofFile tree path version)
      else Attempt.quiet (ofFile tree version version)
    | none => Attempt.quiet (ofFile tree version version)

/-- The capabilities of a build: those of the current version, which all builds share that ask for
nothing, or others. -/
inductive Resolved where
  | shared
  | own (capabilities : Capabilities)

/-- The set of capabilities. -/
def Resolved.capabilities : Resolved → Capabilities
  | .shared => current
  | .own capabilities => capabilities

/-- A text that asks for something. -/
def wanted (text : Option String) : Option String :=
  text.filter fun text => !text.isEmpty

/-- The capabilities that a document and a version ask for, the document's first. -/
def resolve (tree : Files.Tree) (dir : Option String) (document version : Option String) :
    Attempt Error Resolved := do
  let documented ← (wanted document).mapM fun text => Attempt.quiet (ofDocument text)
  let versioned ← (wanted version).mapM fun version => ofVersion tree dir version
  match documented, versioned with
  | none, none =>
    note "Using default capabilities" []
    return .shared
  | some capabilities, none => return .own capabilities
  | none, some capabilities => return .own capabilities
  | some first, some second =>
    note "Merging inline and versioned capabilities" []
    return .own (first.merge second)

end PolicyBundle.Capability
