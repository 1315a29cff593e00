import PolicyBundle.Boundary.Record
import PolicyBundle.Boundary.Result

/-!
# Calls

The two ways in which foreign callers build: from a path and from the bytes of a bundle. A caller
that gives no place for a result gets none; every other one gets exactly one.
-/

namespace PolicyBundle.Boundary

open Log

/-- A call that builds from a path. -/
structure PathCall where
  source : ForeignText
  record : Record

/-- A call that builds from the bytes of a bundle. -/
structure BytesCall where
  bytes : Option Bytes
  /-- The number of bytes that the caller declares. -/
  length : Int
  record : Record

/-- A part of the contract that a caller has not kept. -/
inductive Breach where
  | noParameters
  | noSource
  deriving DecidableEq, Repr

/-- The text of a breach. -/
def Breach.message : Breach → String
  | .noParameters => "build parameters are null"
  | .noSource => "source path is null or empty"

/-- The component that tells of calls. -/
def component : String := "rego_build_ffi"

/-- Refuses a call. -/
def refuse (breach : Breach) : Attempt Build.Error α := do
  tell .error component "Invalid build argument" [("reason", .quoted breach.message)]
  throw (.invalidArgument breach.message)

/-- Builds with the parameters of a record, which may be absent. A program turns a panic of the build into
an internal failure here. No computation of this library panics, so that is left out. -/
def buildWith (settings : Settings) (record : Option Record)
    (build : Build.Parameters → Attempt Build.Error Bytes) : Traced Build.Outcome :=
  match record with
  | none => do
    let result ← (refuse .noParameters : Attempt Build.Error Bytes).outcome
    return .ofResult result none
  | some record => do
    let parameters := record.parameters
    let attempt : Attempt Build.Error Bytes := do
      tell .debug component "Build parameters"
        [("target", .plain parameters.target), ("bundle_mode", .bool parameters.bundleMode),
          ("entrypoints", .number parameters.entrypoints.length)]
      build parameters
    let (result, log) ←
      Build.withLog parameters.debug (.ofText settings.logFilter) attempt.outcome
    return .ofResult result log

/-- What a call returns: the number of a status, and the result if the caller has a place for it. -/
structure Answer where
  code : Int
  result : Option Result
  deriving DecidableEq, Repr

/-- Answers a call with the result of a build. A panic outside of the build, which a program answers with
an internal failure and no log, is left out as in `buildWith`. -/
def respond (hasPlace : Bool) (outcome : Traced Build.Outcome) : Traced Answer :=
  if hasPlace then do
    let (result, status) := package (← outcome)
    return ⟨status.code, some result⟩
  else return ⟨Build.Status.invalidArgument.code, none⟩

/-- Builds from a path. -/
def buildFromPath (around : Build.Surroundings) (call : Option PathCall) (hasPlace : Bool) :
    Traced Answer :=
  respond hasPlace <|
    buildWith around.settings (call.map (·.record)) fun parameters =>
      match call.bind fun call => properText call.source with
      | none => refuse .noSource
      | some path => Build.run around (Build.bundleCompiler around) parameters (.path path)

/-- Builds from the bytes of a bundle. -/
def buildFromBytes (around : Build.Surroundings) (call : Option BytesCall) (hasPlace : Bool) :
    Traced Answer :=
  respond hasPlace <|
    buildWith around.settings (call.map (·.record)) fun parameters =>
      let bytes := match call with
        | none => []
        | some call => bytesOf call.bytes call.length
      Build.run around (Build.bundleCompiler around) parameters (.bytes bytes)

end PolicyBundle.Boundary
