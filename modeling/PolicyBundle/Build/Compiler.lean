import PolicyBundle.Build.Check
import PolicyBundle.Build.Plan
import PolicyBundle.Build.Reachable
import PolicyBundle.Build.Target
import PolicyBundle.Policy.Erasure

/-!
# The bundle compiler

Modules are checked against the capabilities, entrypoints are resolved, modules that nobody needs
are dropped on demand, and the rest is written as a bundle. No policy is evaluated.
-/

namespace PolicyBundle.Build

open Log

/-- A compiler: its version, and what it makes of what it is told. -/
structure Compiler where
  version : String
  compile : Config → Attempt CompileError Bytes

/-- The version of the library. -/
def version : String := "0.4.2"

/-- The name of a plan in a bundle. -/
def planName : String := "plan.json"

/-- Where a compiler runs: the files, the settings of the process, and the builder of the sets that
file names are matched against. -/
structure Surroundings where
  files : Files.Tree
  settings : Settings
  [builder : Glob.Builder]

/-- The bundle of a source. -/
def loadSource (around : Surroundings) (config : Config) : Attempt CompileError Bundle :=
  match config.source with
  | .bundle bundle => return bundle
  | .path path =>
    let loader : Source.Loader := {
      filter := config.filter
      bundleMode := config.bundleMode
      dialect := config.dialect
      followLinks := config.followLinks
      annotations := config.annotations
      settings := around.settings }
    (loader.load around.files path).mapError .ofLoadError

/-- The manifest of the output. -/
def outputManifest (config : Config) (manifest : Manifest) : Manifest :=
  { manifest with
    revision := config.revision.getD manifest.revision
    dialectValue := some (manifest.dialect?.getD config.dialect).manifestValue }

/-- The modules in the order of their paths. -/
def byPath (modules : List Policy.Module) : List Policy.Module :=
  modules.mergeSort fun a b => a.path ≤ b.path

/-- Writes the output. -/
def writeOutput (config : Config) (target : Target) (entrypoints : List String) (bundle : Bundle) :
    Bundle.Writing Unit := do
  Bundle.writeManifest (outputManifest config bundle.manifest)
  (byPath bundle.modules).forM Bundle.writeModule
  Bundle.writeData bundle.data
  if target = .plan then
    let plan := Plan.ofModules config.capabilities.capabilities bundle.modules entrypoints
    Bundle.writeEntry planName (Text.utf8 plan.toJson.pretty)

/-- Whether an output can be asked for without an entrypoint. -/
def entrypointFault? (config : Config) (target : Target) : Option ConfigFault :=
  if target = .plan then some .planWithoutEntrypoint
  else if config.optimization > 0 then some .optimizationWithoutEntrypoint
  else none

/-- Tells of a step of a compilation where progress is told in detail. -/
def noteStep (config : Config) (message : String) (values : List (String × Value)) : Traced Unit :=
  if config.debug then note .debug message values else pure ()

/-- The modules that are kept of a bundle. -/
def keptModules (config : Config) (entrypoints : List String) (modules : List Policy.Module) :
    Traced (List Policy.Module) :=
  if config.prune && !entrypoints.isEmpty then do
    let kept := prune modules entrypoints
    noteStep config "Pruned unused modules"
      [("pruned", .number (modules.length - kept.length)), ("kept", .number kept.length)]
    return kept
  else return modules

/-- Compiles a bundle. -/
def compile (around : Surroundings) (config : Config) : Attempt CompileError Bytes := do
  let target ← match Target.ofName? config.target with
    | some target => pure target
    | none => throw (.unsupportedTarget config.target)
  noteStep config "Compiling"
    [("target", .plain target.name), ("source", .quoted config.source.name),
      ("bundle_mode", .bool config.bundleMode),
      ("optimization_level", .number config.optimization)]
  let bundle ← loadSource around config
  noteStep config "Loaded policy sources" [("modules", .number bundle.modules.length)]
  let modules :=
    if config.keepPrints then bundle.modules else bundle.modules.map (·.withoutPrints)
  let diagnostics := check config.capabilities.capabilities modules
  if !diagnostics.isEmpty then throw (.diagnostics diagnostics)
  let entrypoints ← resolveEntrypoints config modules
  noteStep config "Resolved entrypoints" [("entrypoints", .quotedList entrypoints)]
  if entrypoints.isEmpty then
    if let some fault := entrypointFault? config target then throw (.invalidConfig fault)
  let kept ← keptModules config entrypoints modules
  let written := writeOutput config target entrypoints { bundle with modules := kept }
  let output ← Attempt.quiet ((Bundle.archive written).mapError .output)
  note .info "Compiled bundle" [("bytes", .number output.length)]
  return output

/-- The bundle compiler. -/
def bundleCompiler (around : Surroundings) : Compiler where
  version := version
  compile := compile around

end PolicyBundle.Build
