import PolicyBundle.Json.Decoder
import PolicyBundle.Policy.Dialect

/-!
# Manifests

What a bundle says of itself: its revision, the roots that it owns, the dialect of its modules,
and whatever else. Fields without a meaning here are kept as they are. A manifest is written with
its known fields first, as far as they are there, and the others in the order of their names.
-/

namespace PolicyBundle

open Json

/-- A manifest. -/
structure Manifest where
  /-- The revision; empty where none is given. -/
  revision : String
  /-- The paths that the bundle owns, with everything below them; all where it is absent. -/
  roots : Option (List String)
  /-- The value that stands for the dialect of the modules. -/
  dialectValue : Option Nat
  metadata : Option Fields
  /-- All other fields. -/
  extra : Fields

namespace Manifest

/-- The manifest that says nothing. -/
def empty : Manifest := ⟨"", none, none, none, []⟩

/-- Whether a manifest says nothing. -/
def isEmpty (m : Manifest) : Bool :=
  m.revision.isEmpty && m.roots.isNone && m.dialectValue.isNone && m.metadata.isNone &&
    m.extra.isEmpty

/-- The dialect of the modules, if the manifest gives one. -/
def dialect? (m : Manifest) : Option Policy.Dialect :=
  m.dialectValue.bind Policy.Dialect.ofManifest?

/-- Whether a path, with slashes, is a root or below it. Slashes around a root do not count, and an
empty root has everything below it. -/
def rootOwns (root path : String) : Bool :=
  let root := String.ofList (Text.dropEnds (· = '/') root.toList)
  root.isEmpty || path = root || Text.startsWith path (root ++ "/")

/-- Whether the bundle owns a path. -/
def owns (m : Manifest) (path : String) : Bool :=
  match m.roots with
  | none => true
  | some roots => roots.any fun root => rootOwns root path

/-- The fields of a manifest in the order in which they are written. -/
def toFields (m : Manifest) : List (String × Json) :=
  (if m.revision.isEmpty then [] else [("revision", .string m.revision)]) ++
    (m.roots.map fun roots => ("roots", Json.array (roots.map .string))).toList ++
    (m.dialectValue.map fun n => ("rego_version", Json.number (.integer n))).toList ++
    (m.metadata.map fun fields => ("metadata", Json.object fields)).toList ++ m.extra

/-- The text of a manifest. -/
def text (m : Manifest) : String :=
  compactFields m.toFields

/-- A manifest that is being read. -/
structure Draft where
  revision : Option String
  roots : Option (Option (List String))
  dialectValue : Option (Option Nat)
  metadata : Option (Option Fields)
  extra : Fields

/-- The manifest with nothing for what is missing. -/
def Draft.complete (d : Draft) : Manifest where
  revision := d.revision.getD ""
  roots := d.roots.getD none
  dialectValue := d.dialectValue.getD none
  metadata := d.metadata.getD none
  extra := d.extra

open Json.Decoder

/-- The next field of a manifest. -/
def field (depth : Nat) (d : Draft) (name : String) : Reader Draft := fun input => do
  if name = "revision" then
    let (revision, rest) ← once name d.revision string depth input
    .ok ({ d with revision }, rest)
  else if name = "roots" then
    let (roots, rest) ← once name d.roots (optional (list string)) depth input
    .ok ({ d with roots }, rest)
  else if name = "rego_version" then
    let (dialectValue, rest) ← once name d.dialectValue (optional (natural 256 "u8")) depth input
    .ok ({ d with dialectValue }, rest)
  else if name = "metadata" then
    let (metadata, rest) ← once name d.metadata (optional map) depth input
    .ok ({ d with metadata }, rest)
  else
    let (extra, rest) ← anyField (readValue depth) d.extra name input
    .ok ({ d with extra }, rest)

/-- A manifest, written as an object. -/
def decoder : Decoder Manifest :=
  container '\x7b' "struct Manifest" <|
    fields (⟨none, none, none, none, []⟩ : Draft) field fun d => .ok d.complete

/-- The manifest in a document. -/
def ofJson (bytes : Bytes) : Except Json.Fault Manifest :=
  decode decoder bytes

end Manifest

end PolicyBundle
