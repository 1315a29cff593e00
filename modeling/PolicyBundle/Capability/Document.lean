import PolicyBundle.Capability.Basic
import PolicyBundle.Json.Decoder

/-!
# Documents of capabilities

A set of capabilities as a JSON document. Fields that are missing are empty, and fields of other
names are passed over. A document may also be the list of the five fields in order, as far as they
are wanted.
-/

namespace PolicyBundle

open Json Json.Decoder

namespace Builtin

/-- The name and the other fields of a builtin that is being read. -/
abbrev Draft := Option String × Fields

/-- A builtin function, written as an object. -/
def decoder : Decoder Builtin :=
  container '\x7b' "struct Builtin" <|
    fields ((none, []) : Draft)
      (fun depth (name, details) field input => do
        if field = "name" then
          let (name, rest) ← once "name" name string depth input
          .ok ((name, details), rest)
        else
          let (details, rest) ← anyField (readValue depth) details field input
          .ok ((name, details), rest))
      fun (name, details) => do .ok ⟨← required "name" name, details⟩

end Builtin

namespace AbiVersion

/-- The name that messages give to the record. -/
def recordName : String := "struct WasmAbiVersion"

/-- A number of 32 bits. -/
def number : Decoder Nat := natural (Nat.pow 2 32) "u32"

/-- The fields of a version, in any order. -/
def asObject : Decoder AbiVersion :=
  fields ((none, none) : Option Nat × Option Nat)
    (fun depth (major, minor) field input => do
      if field = "version" then
        let (major, rest) ← once "version" major number depth input
        .ok ((major, minor), rest)
      else if field = "minor_version" then
        let (minor, rest) ← once "minor_version" minor number depth input
        .ok ((major, minor), rest)
      else
        let rest ← colon input
        let rest ← skipValue rest
        .ok ((major, minor), rest))
    fun (major, minor) => do
      .ok ⟨← required "version" major, ← required "minor_version" minor⟩

/-- The fields of a version as a list. -/
def asList : Decoder AbiVersion := fun depth input => do
  let short (length : Nat) (rest : Bytes) : Stop :=
    stop (.wrongLength length (recordName ++ " with 2 elements")) (behindList rest)
  match ← nextItem (number depth) true input with
  | (none, rest) => .error (short 0 rest)
  | (some major, rest) =>
    match ← nextItem (number depth) false rest with
    | (none, rest) => .error (short 1 rest)
    | (some minor, rest) =>
      let rest ← closeList rest
      .ok (⟨major, minor⟩, rest)

/-- A version. -/
def decoder : Decoder AbiVersion :=
  record recordName asObject asList

end AbiVersion

namespace Capabilities

/-- A set of capabilities that is being read. -/
structure Draft where
  builtins : Option (List Builtin)
  futureKeywords : Option (List String)
  abiVersions : Option (List AbiVersion)
  features : Option (List String)
  allowNet : Option (Option (List String))

/-- The set with nothing for what is missing. -/
def Draft.complete (d : Draft) : Capabilities where
  builtins := d.builtins.getD []
  futureKeywords := d.futureKeywords.getD []
  abiVersions := d.abiVersions.getD []
  features := d.features.getD []
  allowNet := d.allowNet.getD none

/-- The next field of a set. -/
def field (depth : Nat) (d : Draft) (name : String) : Reader Draft := fun input => do
  if name = "builtins" then
    let (builtins, rest) ← once name d.builtins (list Builtin.decoder) depth input
    .ok ({ d with builtins }, rest)
  else if name = "future_keywords" then
    let (futureKeywords, rest) ← once name d.futureKeywords (list string) depth input
    .ok ({ d with futureKeywords }, rest)
  else if name = "wasm_abi_versions" then
    let (abiVersions, rest) ← once name d.abiVersions (list AbiVersion.decoder) depth input
    .ok ({ d with abiVersions }, rest)
  else if name = "features" then
    let (features, rest) ← once name d.features (list string) depth input
    .ok ({ d with features }, rest)
  else if name = "allow_net" then
    let (allowNet, rest) ← once name d.allowNet (optional (list string)) depth input
    .ok ({ d with allowNet }, rest)
  else
    let rest ← colon input
    let rest ← skipValue rest
    .ok (d, rest)

/-- The fields of a set, in any order. -/
def asObject : Decoder Capabilities :=
  fields (⟨none, none, none, none, none⟩ : Draft) field fun d => .ok d.complete

/-- The fields of a set as a list. -/
def asList : Decoder Capabilities := fun depth input => do
  let (builtins, rest) ← nextItem (list Builtin.decoder depth) true input
  let (futureKeywords, rest) ← nextItem (list string depth) false rest
  let (abiVersions, rest) ← nextItem (list AbiVersion.decoder depth) false rest
  let (features, rest) ← nextItem (list string depth) false rest
  let (allowNet, rest) ← nextItem (optional (list string) depth) false rest
  let rest ← closeList rest
  let draft : Draft := ⟨builtins, futureKeywords, abiVersions, features, allowNet⟩
  .ok (draft.complete, rest)

/-- A set of capabilities. -/
def decoder : Decoder Capabilities :=
  record "struct Capabilities" asObject asList

/-- The set in a document. -/
def ofJson (text : String) : Except Fault Capabilities :=
  decode decoder (Text.utf8 text)

end Capabilities

end PolicyBundle
