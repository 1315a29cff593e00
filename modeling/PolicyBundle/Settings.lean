import PolicyBundle.Text.Blank
import PolicyBundle.Text.Utf8

/-!
# Settings

What the environment of a process decides about its builds: the log filter, the limits for
archives that are read, and a directory of capability files. A variable that is missing, or that
cannot be used, leaves the default.
-/

namespace PolicyBundle

/-- The settings of a process. -/
structure Settings where
  /-- The filter for debug logs. -/
  logFilter : String
  /-- The most bytes that the contents of an archive may have. -/
  maxBytes : Nat
  /-- The most members that an archive may have. -/
  maxEntries : Nat
  /-- A directory in which capabilities are looked up by version. -/
  capabilitiesDir : Option String
  deriving DecidableEq, Repr

namespace Settings

/-- The settings in an environment without any of the variables. -/
def default : Settings := ⟨"debug", 512 * 1024 * 1024, 10000, none⟩

/-- The names of the variables that settings depend on. -/
def variableNames : List String :=
  ["REGO_BUILD_LOG", "REGO_BUILD_MAX_BUNDLE_BYTES", "REGO_BUILD_MAX_BUNDLE_ENTRIES",
    "REGO_BUILD_CAPABILITIES_DIR"]

/-- The settings in an environment that gives the bytes of a variable by its name. -/
def ofEnvironment (lookup : String → Option Bytes) : Settings where
  logFilter :=
    ((text "REGO_BUILD_LOG").filter fun value => !Text.blank value.toList).getD default.logFilter
  maxBytes := (number "REGO_BUILD_MAX_BUNDLE_BYTES").getD default.maxBytes
  maxEntries := (number "REGO_BUILD_MAX_BUNDLE_ENTRIES").getD default.maxEntries
  capabilitiesDir := (text "REGO_BUILD_CAPABILITIES_DIR").filter fun value => !value.isEmpty
where
  /-- The text of a variable, if it is text. -/
  text (name : String) : Option String := (lookup name).bind Text.ofUtf8?
  /-- The number of 64 bits that a variable gives. -/
  number (name : String) : Option Nat := (text name).bind (Text.numberBelow? (Nat.pow 2 64))

end Settings

end PolicyBundle
