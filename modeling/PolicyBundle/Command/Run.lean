import PolicyBundle.Build.Run
import PolicyBundle.Command.Arguments
import PolicyBundle.Command.Usage

/-!
# Running the program

What the program prints, the number that it exits with, and the file that it writes. Everything
that it tells of itself goes to the error output; the path of the bundle goes to standard output.
-/

namespace PolicyBundle.Command

open Build Log

/-- What the program does. -/
structure Report where
  exit : Nat
  output : String
  errors : String
  /-- The file that is written: its path and its contents. -/
  written : Option (String × Bytes)
  deriving DecidableEq, Repr

/-- A text as a line. -/
def line (text : String) : String := text ++ "\n"

/-- The program that stops before any build. -/
def stopWith (exit : Nat) (errors : String) : Report := ⟨exit, "", errors, none⟩

/-- The report of arguments that make no sense. -/
def refusal (error : ArgumentError) : Report :=
  stopWith 1 (line ("Error: " ++ error.message) ++ line "" ++ line usage)

/-- What the program tells of its version. -/
def versionText : String :=
  String.join ([
    "Version: " ++ version,
    "Rust Version: none",
    "Commit: ",
    "Platform: lean4"].map line)

/-- What is built of a source. -/
def requestOf (files : Files.Tree) : SourceArgument → Except (String × Files.Error) Build.Request
  | .path path => .ok (.path path)
  | .bundleFile path =>
    match files.read path with
    | .ok bytes => .ok (.bytes bytes)
    | .error error => .error (path, error)

/-- The output of a build whose status tells of a success. -/
def outputOf? (outcome : Outcome) : Option Bytes :=
  outcome.output.filter fun _ => outcome.status.isSuccess

/-- The report of a build. `told` is what was printed before it ended. -/
def reportOf (files : Files.Tree) (job : Job) (told : String) (outcome : Outcome) : Report :=
  let told := told ++ outcome.log.getD ""
  match outputOf? outcome with
  | none =>
    stopWith outcome.status.code.natAbs
      (told ++ line ("Build failed: " ++ outcome.error.getD "unknown error"))
  | some bundle =>
    match files.write job.output bundle with
    | .error error =>
      stopWith 1
        (told ++ line
          ("Error writing bundle to " ++ Text.quotedPath job.output ++ ": " ++ error.message))
    | .ok _ =>
      let size := "  Bundle size: " ++ Text.decimal bundle.length ++ " bytes"
      ⟨0, line job.output, told ++ line "Build successful:" ++ line size,
        some (job.output, bundle)⟩

/-- Runs a build. -/
def runJob (around : Surroundings) (filter : Filter) (job : Job) : Report :=
  match requestOf around.files job.source with
  | .error (path, error) =>
    stopWith 1
      (line ("Error reading bundle file " ++ Text.quotedPath path ++ ": " ++ error.message))
  | .ok request =>
    let outcome := execute around (bundleCompiler around) job.parameters request
    reportOf around.files job (filter.log outcome.events) outcome.value

/-- Runs the program. `filter` is for the events that go into no log. -/
def run (around : Surroundings) (filter : Filter) (arguments : List String) : Report :=
  match read around.files arguments with
  | .error error => refusal error
  | .ok .help => stopWith 0 (line usage)
  | .ok .version => ⟨0, versionText, "", none⟩
  | .ok (.build job) => runJob around filter job

end PolicyBundle.Command
