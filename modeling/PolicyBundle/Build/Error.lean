import PolicyBundle.Build.Diagnostic
import PolicyBundle.Bundle.Writer
import PolicyBundle.Capability.Resolve
import PolicyBundle.Source.Loader

/-!
# Errors of a build

Why a compiler gives no output, why a build fails, and the status that a caller is given.
-/

namespace PolicyBundle.Build

/-- Parameters that do not go together. -/
inductive ConfigFault where
  | planWithoutEntrypoint
  | optimizationWithoutEntrypoint
  /-- A fault that another compiler puts into its own words. -/
  | described (text : String)
  deriving DecidableEq, Repr

/-- The text of a fault. -/
def ConfigFault.message : ConfigFault → String
  | .planWithoutEntrypoint => "plan compilation requires at least one entrypoint"
  | .optimizationWithoutEntrypoint => "bundle optimizations require at least one entrypoint"
  | .described text => text

/-- Why a compiler gives no output. -/
inductive CompileError where
  | diagnostics (ds : List Diagnostic)
  | load (error : Source.Error)
  | unsupportedTarget (name : String)
  | unknownEntrypoint (entrypoint : String)
  | invalidConfig (fault : ConfigFault)
  | output (error : Bundle.WriteError)
  deriving DecidableEq, Repr

namespace CompileError

/-- The text of an error. -/
def message : CompileError → String
  | .diagnostics ds => Diagnostic.report ds
  | .load error => error.message
  | .unsupportedTarget name => "unsupported target: " ++ name
  | .unknownEntrypoint entrypoint =>
    "entrypoint " ++ Text.quoted entrypoint ++ " does not refer to a rule or policy decision"
  | .invalidConfig fault => fault.message
  | .output error => "failed to write output bundle: " ++ error.message

/-- The error of sources that cannot be loaded. A source that is no module is a diagnostic. -/
def ofLoadError : Source.Error → CompileError
  | .parse error => .diagnostics [.ofParseError error]
  | error => .load error

end CompileError

/-- What a caller is told of a build in one number. -/
inductive Status where
  | ok
  | invalidArgument
  | internal
  | bundleRead
  | compile
  | capabilities
  deriving DecidableEq, Repr

/-- The number of a status. -/
def Status.code : Status → Int
  | .ok => 0
  | .invalidArgument => -1
  | .internal => -2
  | .bundleRead => -3
  | .compile => -4
  | .capabilities => -5

/-- Whether a status tells of a build that succeeded. -/
def Status.isSuccess (status : Status) : Bool := status = .ok

/-- Why a build fails. -/
inductive Error where
  | capabilities (error : Capability.Error)
  | bundle (error : Bundle.ReadError)
  | compile (error : CompileError)
  /-- The caller has not kept to the contract. -/
  | invalidArgument (text : String)
  | internal (text : String)
  deriving DecidableEq, Repr

namespace Error

/-- The text of an error. -/
def message : Error → String
  | .capabilities error => error.message
  | .bundle error => error.message
  | .compile error => error.message
  | .invalidArgument text => "invalid argument: " ++ text
  | .internal text => "internal error: " ++ text

/-- The status of a build that fails so. -/
def status : Error → Status
  | .capabilities _ => .capabilities
  | .bundle _ => .bundleRead
  | .compile _ => .compile
  | .invalidArgument _ => .invalidArgument
  | .internal _ => .internal

end Error

end PolicyBundle.Build
