/-!
# Targets

The kinds of output: a bundle of sources, and the same with a plan of the decisions in it.
-/

namespace PolicyBundle.Build

/-- A kind of output. -/
inductive Target where
  | rego
  | plan
  deriving DecidableEq, Repr

namespace Target

/-- The target with a name. The empty name is that of the usual target. -/
def ofName? (name : String) : Option Target :=
  if name = "" || name = "rego" then some .rego
  else if name = "plan" then some .plan
  else none

/-- The name of a target. -/
def name : Target → String
  | .rego => "rego"
  | .plan => "plan"

@[simp] theorem ofName?_name (t : Target) : ofName? t.name = some t := by
  cases t <;> decide

end Target

end PolicyBundle.Build
