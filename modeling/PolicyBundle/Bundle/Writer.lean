import PolicyBundle.Archive.Pack
import PolicyBundle.Bundle.Basic
import PolicyBundle.Files.Walk
import PolicyBundle.Glob.Set
import PolicyBundle.Json.Printer

/-!
# Writing bundles

Files are written into an archive one by one, under the normalized form of their paths. What was
written before an error stays written.
-/

namespace PolicyBundle.Bundle

/-- Why a file cannot be written into an archive. -/
inductive WriteError where
  | emptyPath
  | path (error : Archive.PathError)
  | walk (error : Files.WalkError)
  deriving DecidableEq, Repr

namespace WriteError

/-- The text of an error. -/
def message : WriteError → String
  | .emptyPath => "bundle entry path is empty"
  | .path error => error.message
  | .walk error => error.message

/-- The name of the kind of an error. -/
def kind : WriteError → String
  | .emptyPath => "InvalidInput"
  | .path _ => "Other"
  | .walk _ => "Other"

end WriteError

/-- Something written into an archive, which an error does not take back. -/
abbrev Writing (α : Type) := ExceptT WriteError (StateM Archive.Pack) α

/-- Writes a file. -/
def writeEntry (path : String) (contents : Bytes) : Writing Unit := do
  let name := EntryPath.normalize path
  if name.isEmpty then throw .emptyPath
  match (← get).add (Text.utf8 name) contents with
  | .ok pack => set pack
  | .error error => throw (.path error)

/-- Writes a manifest. -/
def writeManifest (manifest : Manifest) : Writing Unit :=
  writeEntry manifestName (Text.utf8 manifest.text)

/-- Writes a module. -/
def writeModule (m : Policy.Module) : Writing Unit :=
  writeEntry m.path (Text.utf8 m.source)

/-- Writes a data document. -/
def writeData (data : Json) : Writing Unit :=
  writeEntry dataName (Text.utf8 data.compact)

/-- Writes a bundle: its manifest if that says anything, its modules, and its data if any. -/
def write (bundle : Bundle) : Writing Unit := do
  if !bundle.manifest.isEmpty then writeManifest bundle.manifest
  bundle.modules.forM writeModule
  if !DataTree.isEmpty bundle.data then writeData bundle.data

/-- Whether a file of a directory belongs into a bundle, by its name. -/
def isCollected (name : String) : Bool :=
  isModuleName name || [dataName, "data.yaml", "policy.wasm", manifestName].contains name

/-- Writes the files of a directory that belong into a bundle, except those whose path matches one
of the patterns. Where these cannot be built into a set, no file is left out. Returns how many files
are written. -/
def writeDirectory [Glob.Builder] (tree : Files.Tree) (dir : String) (exclude : List String) :
    Writing Nat := do
  let patterns := Glob.built (Glob.ofTexts exclude).1
  let steps := tree.walk false (fun _ _ _ => true) dir
  let mut written := 0
  for step in steps do
    let found ← match step with
      | .ok found => pure found
      | .error error => throw (.walk error)
    let relative := Text.replace '\\' '/' found.relative
    if isCollected (Files.fileName found.path) && !Glob.anyMatches patterns relative then
      writeEntry relative found.contents
      written := written + 1
  return written

/-- The archive that comes of writing. -/
def archive (writing : Writing Unit) : Except WriteError Bytes :=
  match (ExceptT.run writing).run .empty with
  | (.ok (), pack) => .ok pack.finish
  | (.error error, _) => .error error

end PolicyBundle.Bundle
