import PolicyBundle.Command.Run
import PolicyBundle.Proofs.Boundary.PolicyTexts
import PolicyBundle.Proofs.Command.Arguments
import PolicyBundle.Proofs.Files.Writing

/-! What the program does. It ends well exactly if it has written the output of the build that was asked
for, and otherwise it leaves every file as it was. -/

namespace PolicyBundle.Command

open Build Log

/-- What is built of a source: what is at a path, or the bytes of a file that can be read. -/
def SourceArgument.Offers (files : Files.Tree) : SourceArgument → Build.Request → Prop
  | .path place, request => request = .path place
  | .bundleFile place, request => ∃ bytes, files.read place = .ok bytes ∧ request = .bytes bytes

/-- A build comes to an output that can be written where it was asked for. -/
def Builds (around : Surroundings) (job : Job) (output : Bytes) : Prop :=
  (∃ request, job.source.Offers around.files request ∧
    (execute around (bundleCompiler around) job.parameters request).value.output = some output) ∧
  ∃ next, around.files.write job.output output = .ok next

/-- The files as the program leaves them. -/
def filesAfter (files : Files.Tree) (report : Report) : Files.Tree :=
  match report.written with
  | none => files
  | some (path, contents) => (files.write path contents).toOption.getD files

theorem requestOf_eq_ok_iff {files : Files.Tree} {source : SourceArgument} {request : Build.Request} :
    requestOf files source = .ok request ↔ source.Offers files request := by
  cases source with
  | path path => simp [requestOf, SourceArgument.Offers, eq_comm]
  | bundleFile path =>
      rw [requestOf, SourceArgument.Offers]
      cases files.read path <;> simp [eq_comm]

/-- An output goes with the status of a success, so asking for both asks for no more. -/
theorem outputOf?_ofResult (result : Except Build.Error Bytes) (log : Option String) :
    outputOf? (.ofResult result log) = (Outcome.ofResult result log).output := by
  cases result with
  | ok output => rfl
  | error e => rfl

theorem outputOf?_execute (around : Surroundings) (compiler : Compiler) (parameters : Parameters)
    (request : Build.Request) :
    outputOf? (execute around compiler parameters request).value =
      (execute around compiler parameters request).value.output := by
  obtain ⟨log, -, hValue⟩ := value_execute around compiler parameters request
  rw [hValue, outputOf?_ofResult]

section Jobs

variable {around : Surroundings} {job : Job} {output : Bytes}

/-- A build that comes to an output ends well and writes it. -/
theorem runJob_of_builds (h : Builds around job output) (filter : Filter) :
    (runJob around filter job).exit = 0 ∧
      (runJob around filter job).written = some (job.output, output) := by
  obtain ⟨⟨request, hOffers, hOutput⟩, next, hWrite⟩ := h
  simp only [runJob, requestOf_eq_ok_iff.mpr hOffers, reportOf, outputOf?_execute, hOutput, hWrite,
    and_self]

/-- Any other ends badly, wherever it fails, and writes nothing. -/
theorem runJob_of_not_builds (h : ∀ output, ¬ Builds around job output) (filter : Filter) :
    (runJob around filter job).exit ≠ 0 ∧ (runJob around filter job).written = none := by
  rw [runJob]
  cases hRequest : requestOf around.files job.source with
  | error fault => exact ⟨Nat.one_ne_zero, rfl⟩
  | ok request =>
      have hOffers := requestOf_eq_ok_iff.mp hRequest
      dsimp only
      rw [reportOf, outputOf?_execute]
      cases hOutput :
          (execute around (bundleCompiler around) job.parameters request).value.output with
      | none =>
          exact ⟨Int.natAbs_ne_zero.mpr (code_ne_zero_of_output_eq_none hOutput), rfl⟩
      | some output =>
          dsimp only
          cases hWrite : around.files.write job.output output with
          | error fault => exact ⟨Nat.one_ne_zero, rfl⟩
          | ok next => exact absurd ⟨⟨request, hOffers, hOutput⟩, next, hWrite⟩ (h output)

theorem exit_runJob_eq_zero_iff (filter : Filter) :
    (runJob around filter job).exit = 0 ↔ ∃ output, Builds around job output := by
  constructor
  · intro hExit
    by_contra hNone
    exact (runJob_of_not_builds (not_exists.mp hNone) filter).1 hExit
  · rintro ⟨output, hBuilds⟩
    exact (runJob_of_builds hBuilds filter).1

end Jobs

/-- A program that ends badly writes nothing. -/
theorem written_of_exit_ne_zero {around : Surroundings} {filter : Filter} {arguments : List String}
    (h : (run around filter arguments).exit ≠ 0) :
    (run around filter arguments).written = none := by
  rw [run] at h ⊢
  cases hRead : read around.files arguments with
  | error fault => rfl
  | ok request =>
      rw [hRead] at h
      cases request with
      | help => rfl
      | version => rfl
      | build job =>
          have hNone : ∀ output, ¬ Builds around job output :=
            not_exists.mp (mt (exit_runJob_eq_zero_iff filter).mpr h)
          exact (runJob_of_not_builds hNone filter).2

/-- The file that a build was asked to write holds its output afterwards, and nothing else. -/
theorem read_filesAfter {around : Surroundings} {job : Job} {output : Bytes}
    (h : Builds around job output) (filter : Filter) :
    (filesAfter around.files (runJob around filter job)).read job.output = .ok output := by
  obtain ⟨next, hWrite⟩ := h.2
  simp only [filesAfter, (runJob_of_builds h filter).2, hWrite]
  exact Files.Tree.read_of_write hWrite

/-- The program stands for the build that its arguments ask for. Settings can be written in every order
that keeps entrypoints and patterns in theirs; however they are written, the program reads them as the
build that they ask for, it ends well exactly if that comes to an output, and it leaves the output where
it was asked to. When it ends badly, whatever the arguments are, no file has changed. -/
theorem run_exact (around : Surroundings) (filter : Filter) :
    (∀ job, Expressible around.files job.parameters →
      ∀ settings, Reorders settings job.settings →
        Asks settings job ∧
          ∃ groups, List.Forall₂ (Setting.Written around.files) settings groups) ∧
    (∀ settings groups job, Asks settings job →
      List.Forall₂ (Setting.Written around.files) settings groups →
        read around.files groups.flatten = .ok (.build job) ∧
        ((run around filter groups.flatten).exit = 0 ↔ ∃ output, Builds around job output) ∧
        ∀ output, Builds around job output →
          (filesAfter around.files (run around filter groups.flatten)).read job.output =
            .ok output) ∧
    ∀ arguments, (run around filter arguments).exit ≠ 0 →
      filesAfter around.files (run around filter arguments) = around.files := by
  refine ⟨fun job hJob settings hOrder => ?_, fun settings groups job hAsks hWritten => ?_,
    fun arguments hExit => ?_⟩
  · exact ⟨asks_of_reorders hOrder hJob.noWorkDir,
      exists_groups fun s hMem => exists_written hJob (hOrder.perm.mem_iff.mp hMem)⟩
  · have hRead := read_of_asks hAsks hWritten
    have hRun : run around filter groups.flatten = runJob around filter job := by
      rw [run, hRead]
    rw [hRun]
    exact ⟨hRead, exit_runJob_eq_zero_iff filter, fun output hBuilds =>
      read_filesAfter hBuilds filter⟩
  · rw [filesAfter, written_of_exit_ne_zero hExit]

/-- Nothing of an output that is called like a flag, of a number with a sign or of the order is
misread; and without a source the program ends badly. -/
theorem run_exact_inside :
    let around := Boundary.inside
    let job : Job := ⟨.path ".", { Parameters.default with target := "rego" }, "--version"⟩
    let settings : List Setting :=
      [.output "--version", .optimization 0, .source (.path "."), .target "rego"]
    let groups := [["-o", "--version"], ["-O", "+00"], ["--source", "."], ["--target", "rego"]]
    let report := run around .warnings groups.flatten
    (Expressible around.files job.parameters ∧ Reorders settings job.settings ∧
      List.Forall₂ (Setting.Written around.files) settings groups ∧
      (∃ output, Builds around job output) ∧ (run around .warnings []).exit ≠ 0) ∧
    Asks settings job ∧ read around.files groups.flatten = .ok (.build job) ∧ report.exit = 0 ∧
      (∃ output, (filesAfter around.files report).read "--version" = .ok output) ∧
      filesAfter around.files (run around .warnings []) = around.files := by
  intro around job settings groups report
  obtain ⟨hOrders, hReads, hFails⟩ := run_exact around .warnings
  have hExpressible : Expressible around.files job.parameters := ⟨by decide, nofun, rfl⟩
  have hReorders : Reorders settings job.settings := ⟨by decide, rfl, rfl⟩
  have hWritten : List.Forall₂ (Setting.Written around.files) settings groups := by
    have hZero : Text.Spells "+00" 0 := ⟨['+'], 1, .inr rfl, by decide⟩
    exact .cons ⟨"-o", by decide, some "--version", rfl, rfl⟩
      (.cons ⟨"-O", by decide, some "+00", ⟨"+00", rfl, hZero, by decide⟩, rfl⟩
      (.cons ⟨"--source", by decide, some ".", rfl, rfl⟩
      (.cons ⟨"--target", by decide, some "rego", rfl, rfl⟩ .nil)))
  have hBuilds : ∃ output, Builds around job output := by
    obtain ⟨output, hRun⟩ := Boundary.exists_run_directory
    obtain ⟨log, -, hValue⟩ :=
      value_execute around (bundleCompiler around) job.parameters (.path ".")
    have hProper : Files.Proper "--version" :=
      ⟨by decide, by decide, by decide, by decide, by decide, by decide⟩
    have hDir : around.files.root.at? around.files.current =
        some (.dir [(Boundary.policyName, .file (Text.utf8 Boundary.policy.source))]) := rfl
    obtain ⟨next, hWrite⟩ :=
      Files.Tree.exists_write_of_name hDir hProper (by decide) (by decide) output
    refine ⟨output, ⟨.path ".", rfl, ?_⟩, next, hWrite⟩
    rw [hValue]
    exact congrArg (fun built => (Outcome.ofResult built log).output) hRun
  have hExit : (run around .warnings []).exit ≠ 0 := Nat.one_ne_zero
  obtain ⟨hAsks, -⟩ := hOrders job hExpressible settings hReorders
  obtain ⟨hRead, hZero, hFile⟩ := hReads settings groups job hAsks hWritten
  obtain ⟨output, hOutput⟩ := hBuilds
  exact ⟨⟨hExpressible, hReorders, hWritten, ⟨output, hOutput⟩, hExit⟩, hAsks, hRead,
    hZero.mpr ⟨output, hOutput⟩, ⟨output, hFile output hOutput⟩, hFails [] hExit⟩

end PolicyBundle.Command
