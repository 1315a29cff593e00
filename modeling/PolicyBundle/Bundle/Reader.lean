import PolicyBundle.Archive.Listing
import PolicyBundle.Bundle.Basic
import PolicyBundle.Log.Traced
import PolicyBundle.Policy.Scan

/-!
# Reading bundles

A bundle is read from a compressed archive. The archive may hold regular files and directories
alone, and no more of them, nor of their contents, than the limits allow; no name may lead out of
the bundle. Then the manifest tells the dialect of all modules and the roots they must lie in.
-/

namespace PolicyBundle.Bundle

open Log

/-- Why a bundle cannot be read. -/
inductive ReadError where
  | noBytes
  | archive (fault : Archive.Fault)
  | pathTraversal (path : String)
  | unsafeEntry (path : String) (kind : Archive.Kind)
  | tooManyEntries (limit : Nat)
  | tooLarge (limit : Nat)
  | notText (path : String)
  | manifest (fault : Json.Fault)
  | data (path : String) (fault : Json.Fault)
  | dataConflict (place : String)
  | outsideRoots (path package : String)
  | parse (error : Policy.ParseError)
  deriving DecidableEq, Repr

/-- The text of an error. -/
def ReadError.message : ReadError → String
  | .noBytes => "bundle is empty"
  | .archive fault => "failed to read bundle archive: " ++ fault.message
  | .pathTraversal path => "bundle entry escapes the bundle root: " ++ path
  | .unsafeEntry path kind => "unsupported bundle entry type " ++ kind.name ++ " at " ++ path
  | .tooManyEntries limit => "bundle exceeds maximum entry count (" ++ Text.decimal limit ++ ")"
  | .tooLarge limit =>
    "bundle exceeds maximum decompressed size (" ++ Text.decimal limit ++ " bytes)"
  | .notText path => "bundle entry " ++ path ++ " is not valid UTF-8"
  | .manifest fault => "invalid bundle manifest: " ++ fault.message
  | .data path fault => "invalid data document " ++ path ++ ": " ++ fault.message
  | .dataConflict place => "data conflict at " ++ place
  | .outsideRoots path package =>
    path ++ ": package " ++ package ++ " is outside the manifest roots"
  | .parse error => error.message

/-- How bundles are read. -/
structure ReadOptions where
  /-- Whether declarations of entrypoints are kept. -/
  annotations : Bool
  /-- The dialect of the modules where the manifest gives none. -/
  dialect : Policy.Dialect
  maxBytes : Nat
  maxEntries : Nat

/-- A file of an archive. -/
structure Entry where
  path : String
  contents : Bytes
  deriving DecidableEq, Repr

/-- The segments of a path in an archive, without those that lead nowhere; none when one of them
leads to the parent directory. -/
def entrySegments? (path : Bytes) : Option (List Bytes) :=
  let dot := '.'.toUInt8
  let segments := (path.splitOn '/'.toUInt8).filter fun s => s ≠ [] && s ≠ [dot]
  if segments.contains [dot, dot] then none else some segments

/-- The path of a member within its bundle. -/
def entryPath (path : Bytes) : Except ReadError String :=
  match entrySegments? path with
  | some segments => .ok (Text.join "/" (segments.map Text.ofUtf8Lossy))
  | none => .error (.pathTraversal (Text.ofUtf8Lossy path))

/-- What is done with a member of an archive. -/
inductive Treatment where
  | take
  | passOver
  | refuse

/-- What is done with a member of a kind. -/
def treatment : Archive.Kind → Treatment
  | .regular | .continuous => .take
  | .directory | .extensions | .globalExtensions | .longName => .passOver
  | _ => .refuse

/-- The greatest size that is counted. -/
def maxSize : Nat := Nat.pow 2 64 - 1

/-- The files of a listing, when so many members have been seen before it and the files among them
have so many bytes. -/
def entriesFrom (options : ReadOptions) (count total : Nat) :
    Archive.Listing → Except ReadError (List Entry)
  | .done => .ok []
  | .broken fault => .error (.archive fault)
  | .member m rest => do
    if count + 1 > options.maxEntries then throw (.tooManyEntries options.maxEntries)
    match treatment m.kind with
    | .refuse => .error (.unsafeEntry (Text.ofUtf8Lossy m.path) m.kind)
    | .passOver => entriesFrom options (count + 1) total rest
    | .take =>
      let path ← entryPath m.path
      let size ← m.size.mapError .archive
      let total := min (total + size) maxSize
      if total > options.maxBytes then throw (.tooLarge options.maxBytes)
      let contents ← m.contents.mapError .archive
      let entries ← entriesFrom options (count + 1) total rest
      .ok (⟨path, contents⟩ :: entries)

/-- The files of an archive. -/
def readEntries (options : ReadOptions) (bytes : Bytes) : Except ReadError (List Entry) :=
  entriesFrom options 0 0 (.ofStream (Archive.Gzip.decode bytes))

/-- The manifest among some files, the first one that has its name. -/
def manifestOf (entries : List Entry) : Except ReadError Manifest :=
  match entries.find? (·.path = manifestName) with
  | none => .ok .empty
  | some entry => (Manifest.ofJson entry.contents).mapError .manifest

/-- Tells what became of an archive. -/
def note (message : String) (values : List (String × Value)) : Traced Unit :=
  tell .debug "rego_build::bundle::reader" message values

/-- The module in a file. -/
def moduleOf (annotations : Bool) (dialect : Policy.Dialect) (path source : String) :
    Except Policy.ParseError Policy.Module := do
  let m ← Policy.Module.parse path source dialect
  .ok (if annotations then m else m.withoutEntrypoints)

/-- The bundle with one more file in it. A file that is no part of a bundle is passed over. -/
def addEntry (annotations : Bool) (dialect : Policy.Dialect) (bundle : Bundle) (entry : Entry) :
    Except ReadError Bundle :=
  let (dir, name) := Text.dirAndName entry.path
  if isModuleName name then do
    let source ← match Text.ofUtf8? entry.contents with
      | some source => .ok source
      | none => .error (.notText entry.path)
    let m ← (moduleOf annotations dialect entry.path source).mapError .parse
    if bundle.manifest.owns (Text.replace '.' '/' m.package) then
      .ok { bundle with modules := bundle.modules ++ [m] }
    else .error (.outsideRoots entry.path m.package)
  else if name = dataName then do
    let value ← (Json.parse entry.contents).mapError (.data entry.path)
    match DataTree.mount bundle.data (DataTree.pathOf dir) value with
    | (data, none) => .ok { bundle with data }
    | (_, some place) => .error (.dataConflict place)
  else .ok bundle

/-- Whether a file is no part of a bundle. -/
def isForeign (entry : Entry) : Bool :=
  let name := (Text.dirAndName entry.path).2
  !isModuleName name && name ≠ dataName && entry.path ≠ manifestName

/-- The bundle of some files, once its manifest is known. -/
def ofEntries (annotations : Bool) (dialect : Policy.Dialect) (manifest : Manifest)
    (entries : List Entry) : Attempt ReadError Bundle :=
  entries.foldlM
    (fun bundle entry => do
      if isForeign entry then note "Skipping bundle entry" [("path", .plain entry.path)]
      Attempt.quiet (addEntry annotations dialect bundle entry))
    { empty with manifest }

/-- The bundle in an archive. -/
def read (options : ReadOptions) (bytes : Bytes) : Attempt ReadError Bundle := do
  if bytes.isEmpty then throw .noBytes
  let entries ← Attempt.quiet (readEntries options bytes)
  let manifest ← Attempt.quiet (manifestOf entries)
  let dialect := manifest.dialect?.getD options.dialect
  note "Reading bundle" [("rego_version", .plain dialect.name), ("files", .number entries.length)]
  ofEntries options.annotations dialect manifest entries

end PolicyBundle.Bundle
