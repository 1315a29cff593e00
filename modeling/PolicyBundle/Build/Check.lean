import PolicyBundle.Build.Diagnostic
import PolicyBundle.Capability.Basic

/-!
# Checking modules against capabilities

A module may use the language and the functions that the capabilities cover, the functions of its
own package, and whatever its imports bring under a name of their own.
-/

namespace PolicyBundle.Build

open Policy

/-- Whether a function is defined in a package by one of some modules. -/
def definesFunction (modules : List Module) (package name : String) : Bool :=
  modules.any fun m => m.package = package && m.functionNames.contains name

/-- Whether a call of a module is covered. -/
def isCovered (capabilities : Capabilities) (modules : List Module) (m : Module) (call : Call) :
    Bool :=
  definesFunction modules m.package call.name ||
    m.imports.any (·.localName = some (Text.firstPiece '.' call.name)) ||
    capabilities.hasBuiltin call.name

/-- What one of some modules uses that the capabilities do not cover. -/
def checkModule (capabilities : Capabilities) (modules : List Module) (m : Module) :
    List Diagnostic :=
  let report (line : Nat) (problem : Problem) : Diagnostic := ⟨m.path, line, problem⟩
  let dialect :=
    if m.dialect.effective = .v1 && !capabilities.hasFeature Capabilities.featureV1 then
      [report 1 .dialectUnsupported]
    else []
  let imports :=
    if capabilities.hasFeature Capabilities.featureV1Import then []
    else (m.imports.filter (·.path = "rego.v1")).map fun i => report i.line .importUnsupported
  let keywords := (m.futureKeywords.filter fun k => !capabilities.hasFutureKeyword k).map fun k =>
    report 1 (.keywordUnsupported k)
  let calls := (m.calls.filter fun call => !isCovered capabilities modules m call).map fun call =>
    report call.line (.undefinedFunction call.name)
  dialect ++ imports ++ keywords ++ calls

/-- What some modules use that the capabilities do not cover. -/
def check (capabilities : Capabilities) (modules : List Module) : List Diagnostic :=
  modules.flatMap (checkModule capabilities modules)

end PolicyBundle.Build
