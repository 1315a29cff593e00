import PolicyBundle.Boundary.Call
import PolicyBundle.Proofs.Build.Outcomes

/-! What every call is answered with. Callers free and follow what they are handed on the strength of
it, so it holds for every record, whatever its integers are and whatever of it is absent. -/

namespace PolicyBundle.Boundary

open Log

/-- What a caller can rely on in a result that comes with a status: exactly one of output and error,
an output with a length that can be told, a status that says which of them it is, and a log if one is
asked for. -/
structure Result.Proper (result : Result) (code : Int) (logged : Bool) : Prop where
  oneOfTwo : result.output.isSome = !result.error.isSome
  length : ∀ output ∈ result.output, 0 < output.length ∧ output.length ≤ maxLength
  succeeds : code = 0 ↔ result.output.isSome = true
  fails : code ≠ 0 → -5 ≤ code ∧ code ≤ -1
  log : result.log.isSome = logged

/-- What a caller can rely on in an answer: one proper result where there is a place for it, and
otherwise none and the status of a missing argument. -/
def Answer.Proper (answer : Answer) (hasPlace logged : Bool) : Prop :=
  if hasPlace then ∃ result, answer.result = some result ∧ result.Proper answer.code logged
  else answer = ⟨-1, none⟩

/-- An output is handed over as it is, if there is anything of it and its length can be told. -/
theorem handOver_eq_ok_iff {output handed : Bytes} :
    handOver output = .ok handed ↔
      handed = output ∧ 0 < handed.length ∧ handed.length ≤ maxLength := by
  rw [handOver]
  constructor
  · intro h
    split at h
    · cases h
    · rename_i hFilled
      split at h
      · cases h
      · rename_i hShort
        obtain rfl := Except.ok.inj h
        rw [List.isEmpty_iff] at hFilled
        exact ⟨rfl, List.length_pos_iff.mpr hFilled, Nat.le_of_not_gt hShort⟩
  · rintro ⟨rfl, hFilled, hShort⟩
    have hSome : handed.isEmpty = false := by
      simpa using List.length_pos_iff.mp hFilled
    rw [hSome, if_neg (Nat.not_lt.mpr hShort)]
    rfl

theorem Result.Proper.of_output {output : Bytes} {log : Option String} {logged : Bool}
    (hLength : 0 < output.length ∧ output.length ≤ maxLength) (hLog : log.isSome = logged) :
    Result.Proper ⟨some output, none, log⟩ Build.Status.ok.code logged where
  oneOfTwo := rfl
  length := by
    rintro _ ⟨⟩
    exact hLength
  succeeds := ⟨fun _ => rfl, fun _ => rfl⟩
  fails := fun hCode => absurd rfl hCode
  log := hLog

theorem Result.Proper.of_error {error : String} {code : Int} {log : Option String} {logged : Bool}
    (hCode : -5 ≤ code ∧ code ≤ -1) (hLog : log.isSome = logged) :
    Result.Proper ⟨none, some error, log⟩ code logged where
  oneOfTwo := rfl
  length := by
    rintro _ ⟨⟩
  succeeds := by
    have hOther : code ≠ 0 := by omega
    simp [hOther]
  fails := fun _ => hCode
  log := hLog

/-- Whatever becomes of a build, its result is proper. An output that cannot be handed over counts as
an error of its own. -/
theorem package_proper (built : Except Build.Error Bytes) (log : Option String) :
    (package (.ofResult built log)).1.Proper (package (.ofResult built log)).2.code log.isSome := by
  have hLog : (log.map foreignText).isSome = log.isSome := Option.isSome_map
  have hInternal : Build.Status.internal ≠ .ok := by decide
  cases built with
  | error error => exact .of_error (Build.Status.code_of_ne_ok error.status_ne_ok) hLog
  | ok output =>
      simp only [package, Build.Outcome.ofResult]
      cases hHanded : handOver output with
      | error fault => exact .of_error (Build.Status.code_of_ne_ok hInternal) hLog
      | ok handed => exact .of_output (handOver_eq_ok_iff.mp hHanded).2 hLog

/-- A build with the parameters of a record comes to an outcome with a log exactly if the record is
there and asks for one. -/
theorem value_buildWith (settings : Settings) (record : Option Record)
    (build : Build.Parameters → Attempt Build.Error Bytes) :
    ∃ built log, log.isSome = record.any (0 < ·.debug) ∧
      (buildWith settings record build).value = .ofResult built log := by
  cases record with
  | none => exact ⟨.error (.invalidArgument Breach.noParameters.message), none, rfl, rfl⟩
  | some record =>
      simp only [buildWith]
      generalize Attempt.outcome _ = computation
      obtain ⟨log, hLog, hValue⟩ := Build.value_withLog record.parameters.debug
        (.ofText settings.logFilter) computation
      refine ⟨computation.value, log, hLog, ?_⟩
      rw [Traced.value_bind, hValue]
      rfl

/-- Whatever is built from the record of a call, the answer is proper. -/
theorem respond_proper {γ : Type} (settings : Settings) (call : Option γ) (recordOf : γ → Record)
    (build : Build.Parameters → Attempt Build.Error Bytes) (hasPlace : Bool) :
    (respond hasPlace (buildWith settings (call.map recordOf) build)).value.Proper hasPlace
      (call.any fun call => 0 < (recordOf call).debug) := by
  cases hasPlace with
  | false => rfl
  | true =>
      obtain ⟨built, log, hLog, hValue⟩ := value_buildWith settings (call.map recordOf) build
      have hAnswer : (respond true (buildWith settings (call.map recordOf) build)).value =
          ⟨(package (.ofResult built log)).2.code, some (package (.ofResult built log)).1⟩ := by
        rw [← hValue]
        rfl
      rw [Option.any_map] at hLog
      have hProper := package_proper built log
      rw [hLog] at hProper
      rw [hAnswer]
      exact ⟨_, rfl, hProper⟩

/-- Every call is answered properly, whatever its record is and whatever comes of the build, from a
path and from bytes alike. -/
theorem answer_proper (around : Build.Surroundings) (hasPlace : Bool) :
    (∀ call : Option PathCall, (buildFromPath around call hasPlace).value.Proper hasPlace
      (call.any (0 < ·.record.debug))) ∧
    ∀ call : Option BytesCall, (buildFromBytes around call hasPlace).value.Proper hasPlace
      (call.any (0 < ·.record.debug)) := by
  constructor
  · intro call
    exact respond_proper around.settings call (·.record) _ hasPlace
  · intro call
    exact respond_proper around.settings call (·.record) _ hasPlace

end PolicyBundle.Boundary
