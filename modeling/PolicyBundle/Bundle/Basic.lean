import PolicyBundle.Bundle.DataTree
import PolicyBundle.Bundle.EntryPath
import PolicyBundle.Bundle.Manifest
import PolicyBundle.Policy.Module

/-!
# Bundles

A bundle is a manifest, policy modules in order, and one tree of data.
-/

namespace PolicyBundle

/-- A bundle. -/
structure Bundle where
  manifest : Manifest
  modules : List Policy.Module
  /-- All data documents, mounted at their places. -/
  data : Json

namespace Bundle

/-- The bundle without anything. -/
def empty : Bundle := ⟨.empty, [], Json.emptyObject⟩

/-- The name of a manifest. -/
def manifestName : String := ".manifest"

/-- The name of a data document. -/
def dataName : String := "data.json"

/-- Whether a file is a policy module, by its name. -/
def isModuleName (name : String) : Bool :=
  Text.endsWith name ".rego"

/-- Whether a file is a bundle archive, by its name. -/
def isArchiveName (name : String) : Bool :=
  Text.endsWith name ".tar.gz"

end Bundle

end PolicyBundle
