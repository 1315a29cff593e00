import PolicyBundle.Bundle.Basic
import PolicyBundle.Glob.Set
import PolicyBundle.Log.Traced

/-!
# Path filters

Which files and directories of a source tree are left out: those whose name matches an ignore
pattern, and archives where the source is no bundle. What a build begins at is never ignored.
-/

namespace PolicyBundle.Source

open Log

/-- A filter. -/
structure PathFilter where
  bundleMode : Bool
  ignore : Glob.Patterns

/-- Tells what becomes of sources. -/
def note (level : Level) (message : String) (values : List (String × Value)) : Traced Unit :=
  tell level "rego_build::loader" message values

namespace PathFilter

/-- The filter for some ignore patterns. A text that is no pattern is passed over with a warning. Where
the others cannot be built into a set, nothing is ignored, with a warning as well. -/
def ofTexts [Glob.Builder] (bundleMode : Bool) (texts : List String) : Traced PathFilter := do
  let (patterns, faults) := Glob.ofTexts texts
  faults.forM fun (text, fault) =>
    note .warn "Ignoring invalid ignore pattern"
      [("pattern", .plain text), ("error", .plain (Glob.describe text fault))]
  match Glob.build patterns with
  | .ok ignore => return ⟨bundleMode, ignore⟩
  | .error fault =>
    note .warn "Failed to build ignore set" [("error", .plain fault)]
    return ⟨bundleMode, []⟩

/-- Whether an entry is left out. -/
def excludes (filter : PathFilter) (name : String) (isDir : Bool) (depth : Nat) : Bool :=
  (!filter.bundleMode && !isDir && Bundle.isArchiveName name) ||
    (depth ≥ 1 && Glob.anyMatches filter.ignore name)

end PathFilter

end PolicyBundle.Source
