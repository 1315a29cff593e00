import PolicyBundle.Bundle.Reader
import PolicyBundle.Files.Walk
import PolicyBundle.Settings
import PolicyBundle.Source.Filter

/-!
# Loading sources

The sources under a path become a bundle: modules, data documents and, in a bundle directory,
archives and a manifest. In a bundle directory a data document is mounted at its directory;
elsewhere every JSON document is mounted at the root.
-/

namespace PolicyBundle.Source

open Log

/-- What is wrong with a document. -/
inductive DocumentFault where
  | manifest (fault : Json.Fault)
  | data (fault : Json.Fault)
  | conflict (place : String)
  deriving DecidableEq, Repr

/-- The text of what is wrong with a document. -/
def DocumentFault.message : DocumentFault → String
  | .manifest fault => "invalid manifest: " ++ fault.message
  | .data fault => fault.message
  | .conflict place => "data conflict at " ++ place

/-- Why sources cannot be loaded. -/
inductive Error where
  | notFound (path : String)
  | unreadable (path : String) (error : Files.Error)
  | walk (error : Files.WalkError)
  | bundle (path : String) (error : Bundle.ReadError)
  | parse (error : Policy.ParseError)
  | document (path : String) (fault : DocumentFault)
  deriving DecidableEq, Repr

/-- The text of an error. -/
def Error.message : Error → String
  | .notFound path => path ++ ": no such file or directory"
  | .unreadable path error => "failed to read " ++ path ++ ": " ++ error.message
  | .walk error => "failed to read " ++ error.path ++ ": " ++ error.message
  | .bundle path error => path ++ ": " ++ error.message
  | .parse error => error.message
  | .document path fault => path ++ ": " ++ fault.message

/-- How sources are loaded. -/
structure Loader where
  filter : PathFilter
  /-- Whether a directory is a bundle. -/
  bundleMode : Bool
  /-- The dialect of the modules where no manifest gives one. -/
  dialect : Policy.Dialect
  followLinks : Bool
  /-- Whether declarations of entrypoints are kept. -/
  annotations : Bool
  settings : Settings

namespace Loader

/-- How archives among the sources are read. -/
def readOptions (loader : Loader) (dialect : Policy.Dialect) : Bundle.ReadOptions where
  annotations := loader.annotations
  dialect := dialect
  maxBytes := loader.settings.maxBytes
  maxEntries := loader.settings.maxEntries

/-- The text of a file. -/
def textOf (path : String) (contents : Bytes) : Except Error String :=
  (Files.Tree.textOf contents).mapError (.unreadable path)

/-- The JSON document in a file. -/
def documentOf (path relative : String) (contents : Bytes) : Except Error Json := do
  let text ← textOf path contents
  (Json.parseText text).mapError fun fault => .document relative (.data fault)

/-- The bundle with a document mounted at a path. -/
def mount (bundle : Bundle) (relative : String) (path : List String) (value : Json) :
    Except Error Bundle :=
  match DataTree.mount bundle.data path value with
  | (data, none) => .ok { bundle with data }
  | (_, some place) => .error (.document relative (.conflict place))

/-- The path of a file below the beginning of the walk, with slashes; the name of the file that the
walk begins at. -/
def relativePath (found : Files.Found) : String :=
  if found.relative.isEmpty then Files.fileName found.path
  else Text.replace '\\' '/' found.relative

/-- The bundle with one more file in it. -/
def addFile (loader : Loader) (dialect : Policy.Dialect) (bundle : Bundle) (found : Files.Found) :
    Attempt Error Bundle := do
  let relative := relativePath found
  let (dir, name) := Text.dirAndName relative
  if Bundle.isModuleName name then
    let source ← Attempt.quiet (textOf found.path found.contents)
    let m ← Attempt.quiet
      ((Bundle.moduleOf loader.annotations dialect relative source).mapError .parse)
    note .debug "Loaded module" [("path", .plain relative), ("package", .plain m.package)]
    return { bundle with modules := bundle.modules ++ [m] }
  else if Bundle.isArchiveName name then
    let nested ←
      (Bundle.read (loader.readOptions dialect) found.contents).mapError (.bundle relative)
    note .debug "Loaded nested bundle"
      [("path", .plain relative), ("modules", .number nested.modules.length)]
    Attempt.quiet
      (mount { bundle with modules := bundle.modules ++ nested.modules } relative [] nested.data)
  else if loader.bundleMode && name = Bundle.dataName then
    Attempt.quiet do
      let value ← documentOf found.path relative found.contents
      mount bundle relative (DataTree.pathOf dir) value
  else if !loader.bundleMode && Text.endsWith name ".json" then
    Attempt.quiet do
      let value ← documentOf found.path relative found.contents
      mount bundle relative [] value
  else return bundle

/-- The manifest of the bundle directory at a path; one that says nothing where there is none. -/
def manifestAt (loader : Loader) (tree : Files.Tree) (root : String) : Except Error Manifest :=
  let path := Files.join root Bundle.manifestName
  if loader.bundleMode && tree.isFile path then do
    let text ← (tree.readText path).mapError (.unreadable path)
    (Manifest.ofJson (Text.utf8 text)).mapError fun fault =>
      .document Bundle.manifestName (.manifest fault)
  else .ok .empty

/-- The bundle of what a walk comes upon. -/
def addSteps (loader : Loader) (dialect : Policy.Dialect) (bundle : Bundle) (steps : Files.Steps) :
    Attempt Error Bundle :=
  steps.foldlM
    (fun bundle step => do
      let found ← Attempt.quiet (step.mapError .walk)
      loader.addFile dialect bundle found)
    bundle

/-- Whether a walk keeps an entry. -/
def keeps (loader : Loader) : Files.Keep :=
  fun name isDir depth => !loader.filter.excludes name isDir depth

/-- The bundle of the sources under a path. -/
def load (loader : Loader) (tree : Files.Tree) (root : String) : Attempt Error Bundle := do
  if !tree.pathExists root then throw (.notFound root)
  let manifest ← Attempt.quiet (loader.manifestAt tree root)
  let dialect := manifest.dialect?.getD loader.dialect
  let steps := tree.walk loader.followLinks loader.keeps root
  let bundle ← loader.addSteps dialect { Bundle.empty with manifest } steps
  note .debug "Loaded sources"
    [("root", .plain root), ("modules", .number bundle.modules.length)]
  return bundle

end Loader

end PolicyBundle.Source
