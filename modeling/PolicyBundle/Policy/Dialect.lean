/-!
# Dialects

The language versions a policy module may be written in. A dialect has three spellings: a name, a
code for foreign callers, and a value in manifests, which knows two of them only.
-/

namespace PolicyBundle.Policy

/-- A version of the policy language. -/
inductive Dialect where
  /-- Nothing is said; the default applies. -/
  | undefined
  /-- The syntax before version 1. -/
  | v0
  /-- The syntax of version 1, for modules that version 0 accepts also. -/
  | v0CompatV1
  /-- The syntax of version 1. -/
  | v1
  deriving DecidableEq, Repr

namespace Dialect

/-- The dialect of a foreign code. Unknown codes say nothing. -/
def ofCode (code : Int) : Dialect :=
  if code = 1 then .v0
  else if code = 2 then .v0CompatV1
  else if code = 3 then .v1
  else .undefined

/-- The foreign code of a dialect. -/
def code : Dialect → Int
  | .undefined => 0
  | .v0 => 1
  | .v0CompatV1 => 2
  | .v1 => 3

@[simp] theorem ofCode_code (d : Dialect) : ofCode d.code = d := by
  cases d <;> rfl

/-- The dialect that is applied: version 1 where nothing is said. -/
def effective : Dialect → Dialect
  | .undefined => .v1
  | d => d

/-- Whether the body of a rule needs the keyword `if` in front. -/
def requiresIf (d : Dialect) : Bool :=
  d.effective ≠ .v0

/-- The value a manifest records for a dialect. -/
def manifestValue (d : Dialect) : Nat :=
  if d.effective = .v0 then 0 else 1

/-- The dialect of a manifest's value; none for a value that names no dialect. -/
def ofManifest? : Nat → Option Dialect
  | 0 => some .v0
  | 1 => some .v1
  | _ => none

/-- The name of a dialect. -/
def name : Dialect → String
  | .undefined => "undefined"
  | .v0 => "v0"
  | .v0CompatV1 => "v0v1"
  | .v1 => "v1"

end Dialect

end PolicyBundle.Policy
