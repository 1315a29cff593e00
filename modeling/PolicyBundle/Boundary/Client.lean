import PolicyBundle.Boundary.Call

/-!
# Clients

A caller that has everything as text and gets either the output or an error. It puts its parameters
into a record, which no text with a zero byte can enter, and calls the library as a foreign caller
does.
-/

namespace PolicyBundle.Boundary

open Log

/-- What a client asks for. -/
structure ClientParameters where
  isBundle : Bool
  target : String
  entrypoints : List String
  /-- A file of capabilities, which counts rather than the document. -/
  capabilitiesFile : Option String
  /-- A document of capabilities; empty where there is none. -/
  capabilitiesDocument : Bytes
  capabilitiesVersion : Option String
  debug : Bool
  prune : Bool
  optimization : Nat
  dialect : Policy.Dialect
  revision : Option String
  ignore : List String
  followLinks : Bool
  erasePrints : Bool

/-- The parameters of a client that asks for nothing. -/
def ClientParameters.default : ClientParameters where
  isBundle := false
  target := "rego"
  entrypoints := []
  capabilitiesFile := none
  capabilitiesDocument := []
  capabilitiesVersion := none
  debug := false
  prune := false
  optimization := 0
  dialect := .undefined
  revision := none
  ignore := []
  followLinks := false
  erasePrints := false

/-- Why a client gets no output. -/
inductive ClientError where
  | emptyPath
  /-- A text with a zero byte, at the position given. -/
  | zeroByte (position : Nat)
  | tooMany (count : Nat) (what : String)
  | capabilitiesFile (path : String) (error : Files.Error)
  | bundle (error : Bundle.WriteError)
  | build (code : Int) (message : String)
  | noResult (code : Int)
  | emptyOutput
  deriving DecidableEq, Repr

/-- The text of an integer. -/
def integerText (n : Int) : String :=
  (if n < 0 then "-" else "") ++ Text.decimal n.natAbs

/-- The text of an error. -/
def ClientError.message : ClientError → String
  | .emptyPath => "source path is empty"
  | .zeroByte position =>
    "parameter contains an interior NUL byte: nul byte found in provided data at position: " ++
      Text.decimal position
  | .tooMany count what => "too many " ++ what ++ ": " ++ Text.decimal count
  | .capabilitiesFile path error =>
    "failed to read capabilities file " ++ path ++ ": " ++ error.message
  | .bundle error => "failed to create bundle: " ++ error.message
  | .build _ message => message
  | .noResult code => "compilation failed with status " ++ integerText code
  | .emptyOutput => "bad result: build produced no output"

/-- A path without a dot segment in front, with slashes. -/
def normalizePath (path : String) : String :=
  let trimmed := ((Text.after? "./" path).or (Text.after? ".\\" path)).getD path
  Text.replace '\\' '/' trimmed

/-- A text as a foreign string. -/
def enter (text : String) : Except ClientError Bytes :=
  let bytes := Text.utf8 text
  match bytes.idxOf? 0 with
  | some position => .error (.zeroByte position)
  | none => .ok bytes

/-- A number of things that a foreign caller can declare. -/
def declare (count : Nat) (what : String) : Except ClientError Int :=
  if count > maxLength then .error (.tooMany count what) else .ok count

/-- Foreign strings as an array, which is absent when it is empty. -/
def arrayOf (texts : List Bytes) (length : Int) : ForeignTexts :=
  ⟨if texts.isEmpty then none else some (texts.map some), length⟩

/-- A flag. -/
def flagOf (set : Bool) : Int :=
  if set then 1 else 0

namespace ClientParameters

/-- The document of capabilities that a client sends. -/
def document (files : Files.Tree) (p : ClientParameters) : Except ClientError (Option String) :=
  match p.capabilitiesFile with
  | some path => ((files.readText path).map some).mapError (.capabilitiesFile path)
  | none =>
    if p.capabilitiesDocument.isEmpty then .ok none
    else .ok (some (Text.ofUtf8Lossy p.capabilitiesDocument))

/-- The record that stands for what a client asks for. -/
def record (files : Files.Tree) (p : ClientParameters) (forceBundle : Bool) :
    Except ClientError Record := do
  let entrypoints ← p.entrypoints.mapM enter
  let ignore ← p.ignore.mapM enter
  let entrypointCount ← declare entrypoints.length "entrypoints"
  let ignoreCount ← declare ignore.length "ignore patterns"
  let target ← enter p.target
  let document ← (← p.document files).mapM enter
  let version ← p.capabilitiesVersion.mapM enter
  let revision ← p.revision.mapM enter
  return {
    target := some target
    capabilitiesDocument := document
    capabilitiesVersion := version
    bundleMode := flagOf (forceBundle || p.isBundle)
    entrypoints := arrayOf entrypoints entrypointCount
    debug := flagOf p.debug
    optimization := min p.optimization maxLength
    prune := flagOf p.prune
    workDir := none
    revision := revision
    ignore := arrayOf ignore ignoreCount
    dialect := p.dialect.code
    followLinks := flagOf p.followLinks
    erasePrints := flagOf p.erasePrints }

end ClientParameters

/-- What a client makes of an answer. -/
def accept (answer : Answer) : Except ClientError Bytes :=
  match answer.result with
  | none => .error (.noResult answer.code)
  | some result =>
    match result.error.filter fun text => !Text.blank text.toList with
    | some message => .error (.build answer.code message)
    | none =>
      if answer.code ≠ 0 then
        .error (.build answer.code ("compilation error " ++ integerText answer.code))
      else
        match result.output with
        | some output => if output.isEmpty then .error .emptyOutput else .ok output
        | none => .error .emptyOutput

/-- The name of the entry that a single policy becomes. -/
def policyName : String := "policy.rego"

/-- Builds from a path. -/
def compilePath (around : Build.Surroundings) (path : String) (p : ClientParameters) :
    Except ClientError Bytes := do
  if path.isEmpty then throw .emptyPath
  let source ← enter (normalizePath path)
  let record ← p.record around.files false
  accept (buildFromPath around (some ⟨some source, record⟩) true).value

/-- The bundle that a client sends: its bytes as they are, or one with them as a single policy. -/
def bundleOf (p : ClientParameters) (bytes : Bytes) : Except ClientError Bytes :=
  if p.isBundle then .ok bytes
  else (Bundle.archive (Bundle.writeEntry policyName bytes)).mapError .bundle

/-- Builds from bytes, which are a bundle or a single policy. -/
def compileBytes (around : Build.Surroundings) (bytes : Bytes) (p : ClientParameters) :
    Except ClientError Bytes := do
  let bundle ← bundleOf p bytes
  let record ← p.record around.files true
  let length ← declare bundle.length "bundle bytes"
  accept (buildFromBytes around (some ⟨some bundle, length, record⟩) true).value

/-- Builds from the text of a single policy. -/
def compileSource (around : Build.Surroundings) (source : String) (p : ClientParameters) :
    Except ClientError Bytes :=
  compileBytes around (Text.utf8 source) { p with isBundle := false }

end PolicyBundle.Boundary
