import PolicyBundle.Proofs.Build.Outcomes

/-! How often a build consults its compiler, and with what. A build is a session: it goes on by itself
until it puts a question to the compiler, and goes on from the answer. The session is the same for all
compilers of one version, so two of them are asked the same until their answers differ. -/

namespace PolicyBundle.Build

open Log

/-- A build whose compiler is not there: it ends, or asks what the compiler makes of a configuration and
goes on from the answer. Both come with the events that are told before. -/
inductive Session where
  | ends (told : List Event) (result : Except Error Bytes)
  | asks (told : List Event) (config : Config) (next : Except CompileError Bytes → Session)

namespace Session

/-- The build, where a compiler answers what is asked. -/
def answeredBy (compiler : Compiler) : Session → Traced (Except Error Bytes)
  | ends told result => ⟨told, result⟩
  | asks told config next =>
    let answer := (compiler.compile config).outcome
    let rest := (next answer.value).answeredBy compiler
    ⟨told ++ answer.events ++ rest.events, rest.value⟩

/-- What a compiler is run on in the course of a build, in order. -/
def runs (compiler : Compiler) : Session → List Config
  | ends _ _ => []
  | asks _ config next => config :: (next (compiler.compile config).outcome.value).runs compiler

/-- Where a compiler is not run, any other makes the same of the build. -/
theorem answeredBy_eq_of_runs {session : Session} {compiler : Compiler} (other : Compiler)
    (hRuns : session.runs compiler = []) :
    session.answeredBy compiler = session.answeredBy other := by
  cases session with
  | ends told result => rfl
  | asks told config next => cases hRuns

end Session

/-- What a build does before it asks its compiler. -/
def opening (around : Surroundings) (version : String) (parameters : Parameters)
    (request : Request) : Attempt Error Config := do
  noteBuild "Compiler version" [("version", .quoted version)]
  noteBuild "Rego version" [("rego_version", .plain parameters.dialect.name)]
  prepare around parameters request

/-- What a build makes of the answer. -/
def closing : Except CompileError Bytes → Session
  | .ok output =>
    .ends (noteBuild "Build output" [("bytes", .number output.length),
      ("sha256", .plain (Archive.Digest.text output))]).events (.ok output)
  | .error e => .ends [] (.error (.compile e))

/-- The session of a build with a compiler of some version. -/
def session (around : Surroundings) (version : String) (parameters : Parameters)
    (request : Request) : Session :=
  let opened := (opening around version parameters request).outcome
  match opened.value with
  | .ok config => .asks opened.events config closing
  | .error e => .ends opened.events (.error e)

section Sessions

variable {around : Surroundings} {compiler : Compiler} {parameters : Parameters} {request : Request}

theorem run_eq_opening : run around compiler parameters request =
    (do
      let config ← opening around compiler.version parameters request
      let output ← (compiler.compile config).mapError .compile
      noteBuild "Build output"
        [("bytes", .number output.length), ("sha256", .plain (Archive.Digest.text output))]
      return output) := by
  simp only [run, opening, bind_assoc]

/-- A build is its session, with its own compiler to answer. -/
theorem outcome_run : (run around compiler parameters request).outcome =
    (session around compiler.version parameters request).answeredBy compiler := by
  rw [run_eq_opening, session]
  cases hOpened : (opening around compiler.version parameters request).outcome with
  | mk told result =>
    cases result with
    | error e => exact Attempt.outcome_bind_error hOpened _
    | ok config =>
        rw [Attempt.outcome_bind_ok hOpened]
        cases hAnswer : (compiler.compile config).outcome with
        | mk answered answer =>
          cases answer with
          | error e =>
              rw [Attempt.outcome_bind_error (Attempt.outcome_mapError hAnswer Error.compile)]
              simp only [Session.answeredBy, closing, hAnswer, List.append_nil]
          | ok output =>
              rw [Attempt.outcome_bind_ok (Attempt.outcome_mapError hAnswer Error.compile)]
              rw [Attempt.outcome_bind_ok (Attempt.outcome_lift _)]
              simp only [Session.answeredBy, closing, hAnswer, Attempt.outcome_pure, List.append_nil,
                List.append_assoc]

theorem value_opening (version : String) :
    (opening around version parameters request).outcome.value =
      (prepare around parameters request).outcome.value := by
  simp only [opening, noteBuild, Attempt.value_bind, Attempt.value_lift, Except.bind]

theorem runs_session_of_ok {version : String} {config : Config}
    (hPrepare : (prepare around parameters request).outcome.value = .ok config) :
    (session around version parameters request).runs compiler = [config] := by
  rw [← value_opening version] at hPrepare
  simp only [session, hPrepare, Session.runs]
  cases (compiler.compile config).outcome.value <;> rfl

theorem runs_session_of_error {version : String} {e : Error}
    (hPrepare : (prepare around parameters request).outcome.value = .error e) :
    (session around version parameters request).runs compiler = [] := by
  rw [← value_opening version] at hPrepare
  simp only [session, hPrepare, Session.runs]

end Sessions

section Failures

variable (around : Surroundings) (parameters : Parameters) (request : Request)

/-- The capabilities that a build asks for cannot be had. -/
def CapabilitiesFail : Prop :=
  ∃ e, (Capability.resolve around.files around.settings.capabilitiesDir
    parameters.capabilitiesDocument parameters.capabilitiesVersion).outcome.value = .error e

/-- The source of a build is bytes that are no bundle. -/
def BundleRejected : Prop :=
  ∃ bytes e, request = .bytes bytes ∧
    (Bundle.read ⟨true, parameters.dialect, around.settings.maxBytes, around.settings.maxEntries⟩
      bytes).outcome.value = .error e

end Failures

/-- The outcome has the answer of a compiler: its bytes as they are, or the text of its error. -/
def Outcome.Gives (outcome : Outcome) : Except CompileError Bytes → Prop
  | .ok output => outcome.status = .ok ∧ outcome.output = some output ∧ outcome.error = none
  | .error e =>
    outcome.status = .compile ∧ outcome.output = none ∧ outcome.error = some e.message

section Stages

variable {around : Surroundings} {parameters : Parameters} {request : Request}

theorem prepare_of_capabilitiesFail (request : Request) (hFail : CapabilitiesFail around parameters) :
    ∃ e : Error, (prepare around parameters request).outcome.value = .error e ∧
      e.status = .capabilities := by
  obtain ⟨e, hFail⟩ := hFail
  refine ⟨.capabilities e, ?_, rfl⟩
  rw [value_prepare, hFail]
  rfl

theorem prepare_of_bundleRejected (hCapabilities : ¬ CapabilitiesFail around parameters)
    (hRejected : BundleRejected around parameters request) :
    ∃ e : Error, (prepare around parameters request).outcome.value = .error e ∧
      e.status = .bundleRead := by
  obtain ⟨bytes, e, rfl, hRejected⟩ := hRejected
  refine ⟨.bundle e, ?_, rfl⟩
  rw [value_prepare]
  cases hResolve : (Capability.resolve around.files around.settings.capabilitiesDir
      parameters.capabilitiesDocument parameters.capabilitiesVersion).outcome.value with
  | error e => exact absurd ⟨e, hResolve⟩ hCapabilities
  | ok capabilities =>
      have hSource : (acquireSource around.settings parameters (.bytes bytes)).outcome.value =
          .error (.bundle e) := by
        simp only [acquireSource, Attempt.value_bind, Attempt.value_mapError, hRejected]
        rfl
      simp only [hSource]
      rfl

theorem exists_prepare_eq_ok (hCapabilities : ¬ CapabilitiesFail around parameters)
    (hRejected : ¬ BundleRejected around parameters request) :
    ∃ config, (prepare around parameters request).outcome.value = .ok config := by
  rw [value_prepare]
  cases hResolve : (Capability.resolve around.files around.settings.capabilitiesDir
      parameters.capabilitiesDocument parameters.capabilitiesVersion).outcome.value with
  | error e => exact absurd ⟨e, hResolve⟩ hCapabilities
  | ok capabilities =>
      have hSource : ∃ source,
          (acquireSource around.settings parameters request).outcome.value = .ok source := by
        cases request with
        | path path => exact ⟨.path path, rfl⟩
        | bytes bytes =>
            cases hRead : (Bundle.read ⟨true, parameters.dialect, around.settings.maxBytes,
                around.settings.maxEntries⟩ bytes).outcome.value with
            | error e => exact absurd ⟨bytes, e, rfl, hRead⟩ hRejected
            | ok bundle =>
                refine ⟨.bundle bundle, ?_⟩
                simp only [acquireSource, Attempt.value_bind, Attempt.value_mapError, hRead]
                rfl
      obtain ⟨source, hSource⟩ := hSource
      simp only [hSource]
      exact ⟨_, rfl⟩

/-- A build that cannot be prepared has one outcome, whatever its compiler. -/
theorem execute_of_error {first second : Compiler} (hVersion : second.version = first.version)
    {e : Error} (hPrepare : (prepare around parameters request).outcome.value = .error e) :
    execute around second parameters request = execute around first parameters request ∧
      (execute around first parameters request).value.status = e.status := by
  constructor
  · have hRun : (run around second parameters request).outcome =
        (run around first parameters request).outcome := by
      rw [outcome_run, outcome_run, hVersion]
      exact Session.answeredBy_eq_of_runs first (runs_session_of_error hPrepare)
    rw [execute, execute, hRun]
  · obtain ⟨log, -, hValue⟩ := value_execute around first parameters request
    rw [hValue, value_run, hPrepare]
    rfl

/-- A build that is prepared comes to what its compiler answers. -/
theorem execute_of_ok {compiler : Compiler} {config : Config}
    (hPrepare : (prepare around parameters request).outcome.value = .ok config) :
    (execute around compiler parameters request).value.Gives
      (compiler.compile config).outcome.value := by
  obtain ⟨log, -, hValue⟩ := value_execute around compiler parameters request
  have hRun : (run around compiler parameters request).outcome.value =
      (compiler.compile config).outcome.value.mapError .compile := by
    rw [value_run, hPrepare]
    rfl
  rw [hValue, hRun]
  cases (compiler.compile config).outcome.value with
  | error e => exact ⟨rfl, rfl, rfl⟩
  | ok output => exact ⟨rfl, rfl, rfl⟩

end Stages

/-- A compiler is run once or not at all. All compilers of a version share a session, and what it asks
is what they are run on. Where the capabilities cannot be had, or else the bytes are no bundle, none is
run and all outcomes are the same; otherwise each is run once, all on one configuration, and the outcome
has what it answers. -/
theorem session_runs_once (around : Surroundings) (parameters : Parameters) (request : Request)
    (first second : Compiler) (hVersion : second.version = first.version) :
    let asked := session around first.version parameters request
    let outcome compiler := execute around compiler parameters request
    (∀ compiler, compiler.version = first.version →
      (run around compiler parameters request).outcome = asked.answeredBy compiler) ∧
    (CapabilitiesFail around parameters →
      asked.runs first = [] ∧ asked.runs second = [] ∧ outcome second = outcome first ∧
        (outcome first).value.status = .capabilities) ∧
    (¬ CapabilitiesFail around parameters → BundleRejected around parameters request →
      asked.runs first = [] ∧ asked.runs second = [] ∧ outcome second = outcome first ∧
        (outcome first).value.status = .bundleRead) ∧
    (¬ CapabilitiesFail around parameters → ¬ BundleRejected around parameters request →
      ∃ config, asked.runs first = [config] ∧ asked.runs second = [config] ∧
        (outcome first).value.Gives (first.compile config).outcome.value ∧
        (outcome second).value.Gives (second.compile config).outcome.value) := by
  intro asked outcome
  refine ⟨?_, ?_, ?_, ?_⟩
  · intro compiler hCompiler
    rw [outcome_run, hCompiler]
  · intro hFail
    obtain ⟨e, hPrepare, hStatus⟩ := prepare_of_capabilitiesFail request hFail
    obtain ⟨hEqual, hFirst⟩ := execute_of_error hVersion hPrepare
    exact ⟨runs_session_of_error hPrepare, runs_session_of_error hPrepare, hEqual,
      hFirst.trans hStatus⟩
  · intro hCapabilities hRejected
    obtain ⟨e, hPrepare, hStatus⟩ := prepare_of_bundleRejected hCapabilities hRejected
    obtain ⟨hEqual, hFirst⟩ := execute_of_error hVersion hPrepare
    exact ⟨runs_session_of_error hPrepare, runs_session_of_error hPrepare, hEqual,
      hFirst.trans hStatus⟩
  · intro hCapabilities hRejected
    obtain ⟨config, hPrepare⟩ := exists_prepare_eq_ok hCapabilities hRejected
    exact ⟨config, runs_session_of_ok hPrepare, runs_session_of_ok hPrepare,
      execute_of_ok hPrepare, execute_of_ok hPrepare⟩

/-- A compiler that gives the same answer to all. -/
def answering (version : String) (answer : Except CompileError Bytes) : Compiler :=
  ⟨version, fun _ => .quiet answer⟩

/-- A compiler that has an output and one that has none are both run on what a path comes to. -/
theorem session_runs_once_on_path :
    let around : Surroundings := ⟨.empty, .default⟩
    let request := Request.path "policy.rego"
    let output : Bytes := [1, 2]
    let fault := CompileError.unsupportedTarget "wasm"
    let first := answering "1" (.ok output)
    let second := answering "1" (.error fault)
    let asked := session around "1" .default request
    second.version = first.version ∧
      ¬ CapabilitiesFail around .default ∧ ¬ BundleRejected around .default request ∧
      ∃ config, asked.runs first = [config] ∧ asked.runs second = [config] ∧
        (execute around first .default request).value.Gives (.ok output) ∧
        (execute around second .default request).value.Gives (.error fault) := by
  intro around request output fault first second asked
  have hCapabilities : ¬ CapabilitiesFail around .default := by
    rintro ⟨e, hFail⟩
    cases hFail
  have hRejected : ¬ BundleRejected around .default request := by
    rintro ⟨bytes, e, hBytes, -⟩
    exact Request.noConfusion hBytes
  obtain ⟨-, -, -, hOnce⟩ := session_runs_once around .default request first second rfl
  exact ⟨rfl, hCapabilities, hRejected, hOnce hCapabilities hRejected⟩

end PolicyBundle.Build
