import PolicyBundle.Build.Entrypoint
import PolicyBundle.Json.Printer

/-!
# Plans

What a build decides: for each entrypoint its rules and the modules that they are in, and the
builtin functions that are called. Files and functions are listed once each, in the order of their
names.
-/

namespace PolicyBundle.Build

open Policy

/-- The plan of an entrypoint. -/
structure PlanEntry where
  /-- The entrypoint, written with slashes. -/
  name : String
  /-- The full names of its rules, in the order of the modules. -/
  rules : List String
  /-- The files that have them. -/
  modules : List String
  deriving DecidableEq, Repr

/-- A plan. -/
structure Plan where
  entrypoints : List PlanEntry
  builtins : List String
  deriving DecidableEq, Repr

/-- A text in its place among others in increasing order, unless it is among them. -/
def insertText (text : String) : List String → List String
  | [] => [text]
  | first :: rest =>
    if text = first then first :: rest
    else if text < first then text :: first :: rest
    else first :: insertText text rest

/-- The set of some texts, in increasing order. -/
def sortedSet (texts : List String) : List String :=
  texts.foldr insertText []

/-- The rules of a module that are related to an entrypoint. -/
def relatedRules (entrypoint : String) (m : Module) : List String :=
  m.rulePaths.filter fun rule => related rule entrypoint

namespace Plan

/-- The plan of an entrypoint of some modules. -/
def entryOf (modules : List Module) (entrypoint : String) : PlanEntry where
  name := Text.replace '.' '/' entrypoint
  rules := (modules.flatMap (relatedRules entrypoint)).foldl addOnce []
  modules :=
    sortedSet ((modules.filter fun m => !(relatedRules entrypoint m).isEmpty).map (·.path))

/-- The plan of some modules. -/
def ofModules (capabilities : Capabilities) (modules : List Module) (entrypoints : List String) :
    Plan where
  entrypoints := entrypoints.map (entryOf modules)
  builtins :=
    sortedSet <| (modules.flatMap fun m => m.calls.map (·.name)).filter capabilities.hasBuiltin

/-- A list of texts as a value. -/
def textsToJson (texts : List String) : Json :=
  .array (texts.map .string)

/-- A plan as a value. Its fields have an order of their own. -/
def toJson (plan : Plan) : Json :=
  let entry (e : PlanEntry) : Json := .object [
    ("name", .string e.name), ("rules", textsToJson e.rules), ("modules", textsToJson e.modules)]
  .object [
    ("entrypoints", .array (plan.entrypoints.map entry)), ("builtins", textsToJson plan.builtins)]

end Plan

end PolicyBundle.Build
