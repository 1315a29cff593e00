import PolicyBundle.Proofs.Build.Compiling
import PolicyBundle.Proofs.Source.Filters

/-! What a build comes to, whatever it tells on the way: the capabilities, the source and the filter
make what the compiler is told, and the compiler makes the rest. The debug flag is read where steps
are told and where the log is kept, and the log filter where the log is written. -/

namespace PolicyBundle.Build

open Log

theorem Status.code_of_ne_ok {status : Status} (hStatus : status ≠ .ok) :
    -5 ≤ status.code ∧ status.code ≤ -1 := by
  cases status with
  | ok => exact absurd rfl hStatus
  | invalidArgument => decide
  | internal => decide
  | bundleRead => decide
  | compile => decide
  | capabilities => decide

theorem Error.status_ne_ok (error : Error) : error.status ≠ .ok := by
  cases error <;> exact nofun

section Runs

variable {around : Surroundings} {compiler : Compiler} {parameters : Parameters} {request : Request}

theorem value_prepare : (prepare around parameters request).outcome.value =
    ((Capability.resolve around.files around.settings.capabilitiesDir
      parameters.capabilitiesDocument parameters.capabilitiesVersion).outcome.value.mapError
        .capabilities).bind fun capabilities =>
      (acquireSource around.settings parameters request).outcome.value.map fun source =>
        configOf parameters source capabilities (filterOf around parameters).value := by
  simp only [prepare, Attempt.value_bind, Attempt.value_mapError, Attempt.value_lift,
    Attempt.value_pure]
  rfl

/-- A caller that wants no file ignored has a filter without patterns. -/
theorem value_filterOf (h : parameters.ignore = []) :
    (filterOf around parameters).value = ⟨parameters.bundleMode, []⟩ := by
  rw [filterOf, h]
  exact @Source.PathFilter.value_ofTexts_nil around.builder _

theorem value_acquireSource_bytes (settings : Settings) (parameters : Parameters) (bytes : Bytes) :
    (acquireSource settings parameters (.bytes bytes)).outcome.value =
      ((Bundle.read ⟨true, parameters.dialect, settings.maxBytes, settings.maxEntries⟩
        bytes).outcome.value.mapError .bundle).map .bundle := by
  simp only [acquireSource, Attempt.value_bind, Attempt.value_mapError]
  cases (Bundle.read ⟨true, parameters.dialect, settings.maxBytes, settings.maxEntries⟩
    bytes).outcome.value <;> rfl

/-- A build prepares what the compiler is told and compiles it. -/
theorem value_run : (run around compiler parameters request).outcome.value =
    (prepare around parameters request).outcome.value.bind fun config =>
      (compiler.compile config).outcome.value.mapError .compile := by
  simp only [run, noteBuild, Attempt.value_bind, Attempt.value_mapError, Attempt.value_lift,
    Attempt.value_pure]
  cases (prepare around parameters request).outcome.value with
  | error e => rfl
  | ok config =>
      simp only [Except.bind]
      cases (compiler.compile config).outcome.value <;> rfl

/-- No build finds fault with what its caller hands over. -/
theorem status_of_run_eq_error (around : Surroundings) (compiler : Compiler)
    (parameters : Parameters) (request : Request) :
    FailsWith (·.status ≠ .invalidArgument)
      (run around compiler parameters request).outcome.value := by
  rw [value_run, value_prepare]
  refine FailsWith.bind ((failsWith_mapError ?_ _).bind fun capabilities => FailsWith.map ?_ _)
    fun config => failsWith_mapError ?_ _
  · exact fun _ => nofun
  · cases request with
    | path path => exact failsWith_ok _
    | bytes bytes =>
        rw [value_acquireSource_bytes]
        exact (failsWith_mapError (fun _ => nofun) _).map _
  · exact fun _ => nofun

/-- A log is kept exactly where it is wanted, and it changes nothing of the result. -/
theorem value_withLog {α : Type} (wanted : Bool) (filter : Filter) (computation : Traced α) :
    ∃ log, log.isSome = wanted ∧
      (withLog wanted filter computation).value = (computation.value, log) := by
  cases wanted with
  | false => exact ⟨none, rfl, rfl⟩
  | true => exact ⟨some _, rfl, rfl⟩

/-- The outcome of a build is that of its run, with a log where one is wanted. -/
theorem value_execute (around : Surroundings) (compiler : Compiler) (parameters : Parameters)
    (request : Request) : ∃ log, log.isSome = parameters.debug ∧
      (execute around compiler parameters request).value =
        .ofResult (run around compiler parameters request).outcome.value log := by
  obtain ⟨log, hLog, hValue⟩ := value_withLog parameters.debug
    (Filter.ofText around.settings.logFilter) (run around compiler parameters request).outcome
  refine ⟨log, hLog, ?_⟩
  rw [execute, Traced.value_bind, hValue]
  rfl

/-- A build without an output has a status that says so. -/
theorem code_ne_zero_of_output_eq_none
    (h : (execute around compiler parameters request).value.output = none) :
    (execute around compiler parameters request).value.status.code ≠ 0 := by
  obtain ⟨log, -, hValue⟩ := value_execute around compiler parameters request
  rw [hValue] at h ⊢
  cases hRun : (run around compiler parameters request).outcome.value with
  | ok output => rw [hRun] at h; cases h
  | error e =>
      have hCode := Status.code_of_ne_ok e.status_ne_ok
      change e.status.code ≠ 0
      omega

end Runs

/-- Surroundings with another log filter. -/
def Surroundings.withFilter (around : Surroundings) (filter : String) : Surroundings :=
  { around with settings := { around.settings with logFilter := filter } }

section Debugging

variable (around : Surroundings) (filter : String)

/-- Sources are loaded in the same way, whatever is told and logged. -/
theorem loadSource_debug (config : Config) (debug : Bool) :
    loadSource (around.withFilter filter) { config with debug := debug } =
      loadSource around config := by
  unfold loadSource
  cases config.source with
  | bundle bundle => rfl
  | path path => rfl

theorem compiled_debug (config : Config) (debug : Bool) :
    compiled { config with debug := debug } = compiled config := by
  funext target bundle
  unfold compiled
  simp only [value_resolveEntrypoints]
  rfl

theorem value_compile_debug (config : Config) (debug : Bool) :
    (compile (around.withFilter filter) { config with debug := debug }).outcome.value =
      (compile around config).outcome.value := by
  rw [value_compile, value_compile, loadSource_debug, compiled_debug]

theorem acquireSource_debug (parameters : Parameters) (request : Request) (debug : Bool)
    (workDir : Option String) :
    acquireSource (around.withFilter filter).settings
      { parameters with debug := debug, workDir := workDir } request =
        acquireSource around.settings parameters request := by
  cases request with
  | path path => rfl
  | bytes bytes => rfl

theorem value_prepare_debug (parameters : Parameters) (request : Request) (debug : Bool)
    (workDir : Option String) :
    (prepare (around.withFilter filter) { parameters with debug := debug, workDir := workDir }
      request).outcome.value =
        (prepare around parameters request).outcome.value.map ({ · with debug := debug }) := by
  rw [value_prepare, value_prepare, acquireSource_debug]
  simp only [Surroundings.withFilter]
  cases (Capability.resolve around.files around.settings.capabilitiesDir
      parameters.capabilitiesDocument parameters.capabilitiesVersion).outcome.value with
  | error e => rfl
  | ok capabilities => cases (acquireSource around.settings parameters request).outcome.value <;> rfl

/-- What a build comes to, as far as it is no log. -/
theorem value_run_debug (parameters : Parameters) (request : Request) (debug : Bool)
    (workDir : Option String) :
    (run (around.withFilter filter) (bundleCompiler (around.withFilter filter))
      { parameters with debug := debug, workDir := workDir } request).outcome.value =
        (run around (bundleCompiler around) parameters request).outcome.value := by
  rw [value_run, value_run, value_prepare_debug]
  cases (prepare around parameters request).outcome.value with
  | error e => rfl
  | ok config =>
      exact congrArg (Except.mapError Error.compile) (value_compile_debug around filter config debug)

end Debugging

/-- Debugging does not change a build. Whatever the debug flag, the log filter and the directory for
work files, the status, the output and the error are the same, and there is a log exactly if the flag
is on. -/
theorem execute_debug (around : Surroundings) (parameters : Parameters) (request : Request)
    (filter : String) (debug : Bool) (workDir : Option String) :
    let plain := (execute around (bundleCompiler around) parameters request).value
    let there := around.withFilter filter
    let other := (execute there (bundleCompiler there)
      { parameters with debug := debug, workDir := workDir } request).value
    other.status = plain.status ∧ other.output = plain.output ∧ other.error = plain.error ∧
      other.log.isSome = debug := by
  intro plain there other
  obtain ⟨plainLog, -, hPlain⟩ := value_execute around (bundleCompiler around) parameters request
  obtain ⟨log, hLog, hOther⟩ := value_execute there (bundleCompiler there)
    { parameters with debug := debug, workDir := workDir } request
  rw [value_run_debug] at hOther
  simp only [plain, other, hPlain, hOther]
  cases (run around (bundleCompiler around) parameters request).outcome.value with
  | error e => exact ⟨rfl, rfl, rfl, hLog⟩
  | ok output => exact ⟨rfl, rfl, rfl, hLog⟩

end PolicyBundle.Build
