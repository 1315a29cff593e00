import PolicyBundle.Json.Basic

/-!
# Capabilities

What a policy may use: builtin functions, language features, keywords of later versions, versions of
the binary interface, and hosts on the network. Two sets are merged by writing one behind the other.
-/

namespace PolicyBundle

/-- A builtin function. Only the name has a meaning here; the rest is kept as it is. -/
structure Builtin where
  name : String
  /-- All other fields of its declaration. -/
  details : Json.Fields

/-- A version of the binary interface. -/
structure AbiVersion where
  major : Nat
  minor : Nat
  deriving DecidableEq, Repr

/-- A set of capabilities. -/
structure Capabilities where
  builtins : List Builtin
  futureKeywords : List String
  abiVersions : List AbiVersion
  features : List String
  /-- The hosts that may be reached; every host where it is absent. -/
  allowNet : Option (List String)

namespace Capabilities

/-- The set without any capability. Its hosts are not restricted. -/
def empty : Capabilities := ⟨[], [], [], [], none⟩

/-- The hosts of two sets. They are unrestricted only when both are. -/
def mergeHosts : Option (List String) → Option (List String) → Option (List String)
  | none, none => none
  | some a, none => some a
  | none, some b => some b
  | some a, some b => some (a ++ b)

/-- The capabilities of one set and then those of another. -/
def merge (a b : Capabilities) : Capabilities where
  builtins := a.builtins ++ b.builtins
  futureKeywords := a.futureKeywords ++ b.futureKeywords
  abiVersions := a.abiVersions ++ b.abiVersions
  features := a.features ++ b.features
  allowNet := mergeHosts a.allowNet b.allowNet

/-- Whether a builtin function is in the set. -/
def hasBuiltin (c : Capabilities) (name : String) : Bool :=
  c.builtins.any (·.name = name)

/-- Whether a feature is in the set. -/
def hasFeature (c : Capabilities) (feature : String) : Bool :=
  c.features.contains feature

/-- Whether a keyword of later versions is in the set. -/
def hasFutureKeyword (c : Capabilities) (keyword : String) : Bool :=
  c.futureKeywords.contains keyword

@[simp] theorem hasBuiltin_merge (a b : Capabilities) (name : String) :
    (a.merge b).hasBuiltin name = (a.hasBuiltin name || b.hasBuiltin name) :=
  List.any_append

@[simp] theorem hasFeature_merge (a b : Capabilities) (feature : String) :
    (a.merge b).hasFeature feature = (a.hasFeature feature || b.hasFeature feature) := by
  simp [hasFeature, merge]

@[simp] theorem hasFutureKeyword_merge (a b : Capabilities) (keyword : String) :
    (a.merge b).hasFutureKeyword keyword =
      (a.hasFutureKeyword keyword || b.hasFutureKeyword keyword) := by
  simp [hasFutureKeyword, merge]

/-- The feature without which no module of version 1 may be read. -/
def featureV1 : String := "rego_v1"

/-- The feature without which the syntax of version 1 may not be imported. -/
def featureV1Import : String := "rego_v1_import"

end Capabilities

end PolicyBundle
