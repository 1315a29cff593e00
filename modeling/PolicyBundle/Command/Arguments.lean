import PolicyBundle.Build.Parameters

/-!
# Arguments

The arguments of the program are read from left to right. A request for help or for the version
ends the reading, and so does the first argument that makes no sense. A capabilities file is read
where it is named.
-/

namespace PolicyBundle.Command

/-- Where the sources are. -/
inductive SourceArgument where
  | path (path : String)
  | bundleFile (path : String)
  deriving DecidableEq, Repr

/-- A build that was asked for. -/
structure Job where
  source : SourceArgument
  parameters : Build.Parameters
  /-- The path of the output. -/
  output : String
  deriving DecidableEq, Repr

/-- What the arguments ask for. -/
inductive Request where
  | help
  | version
  | build (job : Job)
  deriving DecidableEq, Repr

/-- Why arguments make no sense. -/
inductive ArgumentError where
  | missingValue (flag : String)
  | twoSources
  | noSource
  | unreadableCapabilities (path : String) (error : Files.Error)
  | invalidDialect (value : String)
  | invalidOptimization (value : String)
  | unknown (argument : String)
  deriving DecidableEq, Repr

/-- The text of an error. -/
def ArgumentError.message : ArgumentError → String
  | .missingValue flag => flag ++ " requires a value"
  | .twoSources => "only one of --source and --bundle-file may be given"
  | .noSource => "--source or --bundle-file is required"
  | .unreadableCapabilities path error =>
    "Error reading capabilities file " ++ path ++ ": " ++ error.message
  | .invalidDialect value => "Invalid rego version: " ++ value
  | .invalidOptimization value => "Invalid optimization level: " ++ value
  | .unknown argument => "Unknown argument: " ++ argument

/-- What has been read so far. -/
structure Draft where
  source : Option SourceArgument
  parameters : Build.Parameters
  output : String
  deriving DecidableEq, Repr

/-- What is asked for where nothing is said. -/
def Draft.start : Draft :=
  ⟨none, { Build.Parameters.default with target := "rego" }, "bundle.tar.gz"⟩

/-- The build that was asked for. -/
def Draft.finish (d : Draft) : Except ArgumentError Request :=
  match d.source with
  | none => .error .noSource
  | some source => .ok (.build ⟨source, d.parameters, d.output⟩)

/-- The dialect with a name. -/
def dialectOf? (name : String) : Option Policy.Dialect :=
  if name = "v0" || name = "0" then some .v0
  else if name = "v0v1" || name = "v0-compat-v1" then some .v0CompatV1
  else if name = "v1" || name = "1" then some .v1
  else none

/-- What a flag without a value does, if there is such a flag. -/
def switch? (d : Draft) (flag : String) : Option Draft :=
  let set (change : Build.Parameters → Build.Parameters) : Option Draft :=
    some { d with parameters := change d.parameters }
  match flag with
  | "--bundle" | "-b" => set fun p => { p with bundleMode := true }
  | "--prune-unused" => set fun p => { p with prune := true }
  | "--follow-symlinks" => set fun p => { p with followLinks := true }
  | "--disable-print" => set fun p => { p with erasePrints := true }
  | "--debug" => set fun p => { p with debug := true }
  | _ => none

/-- A flag with a value. -/
inductive Valued where
  | source
  | bundleFile
  | target
  | entrypoint
  | capabilities
  | capabilitiesVersion
  | dialect
  | revision
  | ignore
  | optimize
  | output
  deriving DecidableEq, Repr

/-- The flag with a value that an argument is. -/
def Valued.ofFlag? (flag : String) : Option Valued :=
  match flag with
  | "--source" => some .source
  | "--bundle-file" => some .bundleFile
  | "--target" => some .target
  | "--entrypoint" | "-e" => some .entrypoint
  | "--capabilities" => some .capabilities
  | "--capabilities-version" => some .capabilitiesVersion
  | "--rego-version" => some .dialect
  | "--revision" => some .revision
  | "--ignore" => some .ignore
  | "--optimize" | "-O" => some .optimize
  | "--output" | "-o" => some .output
  | _ => none

/-- Whether a flag gives the source. -/
def Valued.isSource (flag : Valued) : Bool :=
  flag = .source || flag = .bundleFile

/-- What a flag does with its value. -/
def setValue (files : Files.Tree) (d : Draft) (flag : Valued) (value : String) :
    Except ArgumentError Draft :=
  let p := d.parameters
  match flag with
  | .source => .ok { d with source := some (.path value) }
  | .bundleFile => .ok { d with source := some (.bundleFile value) }
  | .target => .ok { d with parameters := { p with target := value } }
  | .entrypoint => .ok { d with parameters := { p with entrypoints := p.entrypoints ++ [value] } }
  | .capabilities =>
    match files.readText value with
    | .error error => .error (.unreadableCapabilities value error)
    | .ok text => .ok { d with parameters := { p with capabilitiesDocument := some text } }
  | .capabilitiesVersion =>
    .ok { d with parameters := { p with capabilitiesVersion := some value } }
  | .dialect =>
    match dialectOf? value with
    | none => .error (.invalidDialect value)
    | some dialect => .ok { d with parameters := { p with dialect } }
  | .revision => .ok { d with parameters := { p with revision := some value } }
  | .ignore => .ok { d with parameters := { p with ignore := p.ignore ++ [value] } }
  | .optimize =>
    match Text.numberBelow? (Nat.pow 2 32) value with
    | none => .error (.invalidOptimization value)
    | some optimization => .ok { d with parameters := { p with optimization } }
  | .output => .ok { d with output := value }

/-- What the rest of the arguments asks for. -/
def readFrom (files : Files.Tree) (d : Draft) : List String → Except ArgumentError Request
  | [] => d.finish
  | flag :: rest =>
    if flag = "--help" || flag = "-h" then .ok .help
    else if flag = "--version" then .ok .version
    else
      match switch? d flag with
      | some d => readFrom files d rest
      | none =>
        match Valued.ofFlag? flag with
        | none => .error (.unknown flag)
        | some valued =>
          if valued.isSource && d.source.isSome then .error .twoSources
          else
            match rest with
            | [] => .error (.missingValue flag)
            | value :: rest => do
              let d ← setValue files d valued value
              readFrom files d rest

/-- What the arguments ask for. -/
def read (files : Files.Tree) (arguments : List String) : Except ArgumentError Request :=
  readFrom files .start arguments

end PolicyBundle.Command
