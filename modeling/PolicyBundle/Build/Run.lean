import PolicyBundle.Archive.Digest
import PolicyBundle.Build.Compiler
import PolicyBundle.Log.Filter

/-!
# Running a build

A build resolves the capabilities, acquires the source, and runs a compiler once on what it then
tells it. The outcome has the output or the text of an error, and the log where the caller asked
for one.
-/

namespace PolicyBundle.Build

open Log

/-- Tells what a build does. -/
def noteBuild (message : String) (values : List (String × Value)) : Traced Unit :=
  tell .debug "rego_build::orchestrator" message values

/-- The source that a caller has. The bytes of a bundle are read here, with the entrypoints that its
modules declare. -/
def acquireSource (settings : Settings) (parameters : Parameters) :
    Request → Attempt Error SourceMode
  | .path path => return .path path
  | .bytes bytes => do
    let bundle ← (Bundle.read
      ⟨true, parameters.dialect, settings.maxBytes, settings.maxEntries⟩ bytes).mapError .bundle
    noteBuild "Done reading bundle" [("modules", .number bundle.modules.length)]
    return .bundle bundle

/-- What a compiler is told of the parameters. -/
def configOf (parameters : Parameters) (source : SourceMode) (capabilities : Capability.Resolved)
    (filter : Source.PathFilter) : Config where
  target := parameters.target
  bundleMode := parameters.bundleMode
  entrypoints := parameters.entrypoints
  source := source
  capabilities := capabilities
  keepPrints := !parameters.erasePrints
  prune := parameters.prune
  optimization := parameters.optimization
  annotations := true
  filter := filter
  dialect := parameters.dialect
  followLinks := parameters.followLinks
  revision := parameters.revision
  debug := parameters.debug

/-- The filter for the files that a caller wants ignored. -/
def filterOf (around : Surroundings) (parameters : Parameters) : Traced Source.PathFilter :=
  @Source.PathFilter.ofTexts around.builder parameters.bundleMode parameters.ignore

/-- What a compiler is told, once the capabilities and the source are there. -/
def prepare (around : Surroundings) (parameters : Parameters) (request : Request) :
    Attempt Error Config := do
  let capabilities ← (Capability.resolve around.files around.settings.capabilitiesDir
    parameters.capabilitiesDocument parameters.capabilitiesVersion).mapError .capabilities
  let source ← acquireSource around.settings parameters request
  let filter ← filterOf around parameters
  return configOf parameters source capabilities filter

/-- Runs a build. -/
def run (around : Surroundings) (compiler : Compiler) (parameters : Parameters)
    (request : Request) : Attempt Error Bytes := do
  noteBuild "Compiler version" [("version", .quoted compiler.version)]
  noteBuild "Rego version" [("rego_version", .plain parameters.dialect.name)]
  let config ← prepare around parameters request
  let output ← (compiler.compile config).mapError .compile
  noteBuild "Build output"
    [("bytes", .number output.length), ("sha256", .plain (Archive.Digest.text output))]
  return output

/-- All that a build gives its caller. -/
structure Outcome where
  status : Status
  /-- The bundle, if the build succeeded. -/
  output : Option Bytes
  /-- The text of the error, if it failed. -/
  error : Option String
  /-- The log, if the caller asked for one. -/
  log : Option String

namespace Outcome

/-- The outcome of a build that failed. -/
def ofError (error : Error) (log : Option String) : Outcome :=
  ⟨error.status, none, some error.message, log⟩

/-- The outcome of a build. -/
def ofResult (result : Except Error Bytes) (log : Option String) : Outcome :=
  match result with
  | .ok output => ⟨.ok, some output, none, log⟩
  | .error error => ofError error log

end Outcome

/-- The log of a computation, where it is wanted. Events of a log are told nowhere else. -/
def withLog (wanted : Bool) (filter : Filter) (computation : Traced α) :
    Traced (α × Option String) :=
  if wanted then ⟨[], (computation.value, some (filter.log computation.events))⟩
  else ⟨computation.events, (computation.value, none)⟩

/-- Runs a build to its outcome. -/
def execute (around : Surroundings) (compiler : Compiler) (parameters : Parameters)
    (request : Request) : Traced Outcome := do
  let filter := Filter.ofText around.settings.logFilter
  let (result, log) ←
    withLog parameters.debug filter (run around compiler parameters request).outcome
  return .ofResult result log

end PolicyBundle.Build
