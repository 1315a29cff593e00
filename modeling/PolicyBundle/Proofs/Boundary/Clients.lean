import PolicyBundle.Proofs.Boundary.Answers
import PolicyBundle.Proofs.Boundary.Crossing
import PolicyBundle.Proofs.Text.Pieces

/-! What a client gets of a build. Its parameters go into a record and its source into a foreign string
or into bytes with a length; the answer is a number of a status and a result with a place for either of
output and error. What the client makes of the answer is what a build with the parameters comes to. -/

namespace PolicyBundle.Boundary

open Log

section Answers

/-- What a client is told of an error: its text without zero bytes, or the status where nothing can be
seen of the text. -/
def told (code : Int) (text : String) : String :=
  if Text.blank (foreignText text).toList then "compilation error " ++ integerText code
  else foreignText text

/-- What a client makes of a build. -/
def received : Except Build.Error Bytes → Except ClientError Bytes
  | .ok output =>
    match handOver output with
    | .ok output => .ok output
    | .error fault =>
      .error (.build Build.Status.internal.code (told Build.Status.internal.code fault.message))
  | .error e => .error (.build e.status.code (told e.status.code e.message))

theorem accept_error {code : Int} (hCode : code ≠ 0) (text : String) (log : Option String) :
    accept ⟨code, some ⟨none, some (foreignText text), log⟩⟩ =
      .error (.build code (told code text)) := by
  rw [accept, told]
  cases hBlank : Text.blank (foreignText text).toList with
  | false => simp [Option.filter, hBlank]
  | true => simp [Option.filter, hBlank, hCode]

/-- The log of a build is nothing to what a client makes of it. -/
theorem accept_package (built : Except Build.Error Bytes) (log : Option String) :
    accept ⟨(package (.ofResult built log)).2.code, some (package (.ofResult built log)).1⟩ =
      received built := by
  cases built with
  | error e =>
      have hCode : e.status.code ≠ 0 := by
        have hBounds := Build.Status.code_of_ne_ok e.status_ne_ok
        omega
      exact accept_error hCode e.message (log.map foreignText)
  | ok output =>
      simp only [package, Build.Outcome.ofResult, received]
      cases hHanded : handOver output with
      | error fault =>
          have hCode : Build.Status.internal.code ≠ 0 := by decide
          exact accept_error hCode fault.message (log.map foreignText)
      | ok handed =>
          have hSome : handed.isEmpty = false := by
            have hLength := (handOver_eq_ok_iff.mp hHanded).2.1
            cases handed with
            | nil => cases hLength
            | cons b handed => rfl
          simp [accept, hSome, Build.Status.code]

/-- A client that asks with a record gets what the build with its parameters comes to. -/
theorem accept_respond (settings : Settings) (record : Record)
    (build : Build.Parameters → Attempt Build.Error Bytes) :
    accept (respond true (buildWith settings (some record) build)).value =
      received (build record.parameters).outcome.value := by
  obtain ⟨log, -, hValue⟩ := Build.value_withLog record.parameters.debug
    (.ofText settings.logFilter) (do
      tell .debug component "Build parameters"
        [("target", .plain record.parameters.target),
          ("bundle_mode", .bool record.parameters.bundleMode),
          ("entrypoints", .number record.parameters.entrypoints.length)]
      build record.parameters : Attempt Build.Error Bytes).outcome
  rw [Attempt.value_bind, Attempt.value_lift, Except.bind] at hValue
  rw [← accept_package _ log, respond, if_pos rfl, Traced.value_bind, buildWith, Traced.value_bind, hValue]
  rfl

end Answers

section Paths

theorem zeroFree_replace {old new : Char} (hNew : new ≠ '\x00') {text : String} (h : ZeroFree text) :
    ZeroFree (Text.replace old new text) := by
  intro hZero
  rw [Text.replace, String.toList_ofList, List.mem_map] at hZero
  obtain ⟨c, hc, hSame⟩ := hZero
  split at hSame
  · exact hNew hSame
  · exact h (hSame ▸ hc)

theorem zeroFree_of_after? {front text behind : String} (hAfter : Text.after? front text = some behind)
    (h : ZeroFree text) : ZeroFree behind := by
  intro hZero
  apply h
  rw [Text.after?_eq_some_iff.mp hAfter, String.toList_append]
  exact List.mem_append_right _ hZero

theorem zeroFree_normalizePath {path : String} (h : ZeroFree path) : ZeroFree (normalizePath path) := by
  apply zeroFree_replace (by decide)
  cases hSlash : Text.after? "./" path with
  | some behind => exact zeroFree_of_after? hSlash h
  | none =>
      cases hBackslash : Text.after? ".\\" path with
      | some behind => exact zeroFree_of_after? hBackslash h
      | none => exact h

end Paths

section Calls

variable {around : Build.Surroundings} {p : ClientParameters} {document : Option String}

/-- A client that builds from a path gets what the build with its record comes to. -/
theorem compilePath_eq {path : String} (hPath : ZeroFree (normalizePath path))
    (hSome : normalizePath path ≠ "") :
    compilePath around path p = (p.record around.files false).bind fun record =>
      received (Build.run around (Build.bundleCompiler around) record.parameters
        (.path (normalizePath path))).outcome.value := by
  have hNonempty : path.isEmpty = false := by
    rw [Bool.eq_false_iff, ne_eq, String.isEmpty_iff]
    rintro rfl
    exact hSome (by decide)
  have hSource : properText (some (Text.utf8 (normalizePath path))) = some (normalizePath path) := by
    rw [properText_utf8 hPath]
    simp [Option.filter, hSome]
  simp only [compilePath, hNonempty, enter_of_zeroFree hPath, bind, Except.bind]
  cases p.record around.files false with
  | error e => rfl
  | ok record =>
      simp only [buildFromPath, Option.map_some, Option.bind_some, hSource, accept_respond]
      rfl

/-- A path of which nothing is left is refused, whatever else the client asks for. -/
theorem compilePath_of_nothing {path : String} (hPath : path ≠ "") (hNothing : normalizePath path = "") :
    compilePath around path p = (p.record around.files false).bind fun _ =>
      .error (.build Build.Status.invalidArgument.code
        ("invalid argument: " ++ Breach.noSource.message)) := by
  have hNonempty : path.isEmpty = false := by
    rwa [Bool.eq_false_iff, ne_eq, String.isEmpty_iff]
  have hNone : properText (some (Text.utf8 "")) = none := by decide
  have hEnter : enter "" = .ok (Text.utf8 "") := enter_of_zeroFree (by decide)
  simp only [compilePath, hNonempty, hNothing, hEnter, bind, Except.bind]
  cases p.record around.files false with
  | error e => rfl
  | ok record =>
      simp only [buildFromPath, Option.map_some, Option.bind_some, hNone, accept_respond]
      rfl

/-- A client that builds from bytes gets what the build of its bundle comes to. -/
theorem compileBytes_eq {bytes bundle : Bytes} (hBundle : bundleOf p bytes = .ok bundle)
    (hLength : bundle.length ≤ maxLength) :
    compileBytes around bytes p = (p.record around.files true).bind fun record =>
      received (Build.run around (Build.bundleCompiler around) record.parameters
        (.bytes bundle)).outcome.value := by
  have hBytes : bytesOf (some bundle) bundle.length = bundle := by
    rw [bytesOf, Option.getD_some, Int.toNat_natCast, List.take_length]
  simp only [compileBytes, hBundle, bind, Except.bind]
  cases p.record around.files true with
  | error e => rfl
  | ok record =>
      simp only [declare, Nat.not_lt.mpr hLength, if_false, buildFromBytes, Option.map_some, hBytes,
        accept_respond]

/-- What a client gets for what can cross, as far as it can be declared. -/
theorem ClientParameters.Crosses.bind_record (h : p.Crosses around.files document)
    (forceBundle : Bool) (request : Build.Request) :
    ((p.record around.files forceBundle).bind fun record =>
      received (Build.run around (Build.bundleCompiler around) record.parameters
        request).outcome.value) =
      match p.countFault? with
      | some fault => .error fault
      | none => received (Build.run around (Build.bundleCompiler around)
          (p.meant document forceBundle) request).outcome.value := by
  rw [h.record_eq]
  cases p.countFault? with
  | some fault => rfl
  | none => rw [Except.bind, h.parameters_recordOf]

end Calls

section Speaking

variable {α β : Type}

/-- A client is never left without a result, and is never given one without anything in it. -/
structure Speaks (result : Except ClientError α) : Prop where
  noResult : ∀ code, result ≠ .error (.noResult code)
  emptyOutput : result ≠ .error .emptyOutput

theorem speaks_ok (x : α) : Speaks (.ok x : Except ClientError α) :=
  ⟨by simp, by simp⟩

theorem speaks_error {e : ClientError} (hNoResult : ∀ code, e ≠ .noResult code)
    (hEmptyOutput : e ≠ .emptyOutput) : Speaks (.error e : Except ClientError α) :=
  ⟨fun code hError => hNoResult code (Except.error.inj hError),
    fun hError => hEmptyOutput (Except.error.inj hError)⟩

theorem Speaks.bind {result : Except ClientError α} {next : α → Except ClientError β}
    (h : Speaks result) (hNext : ∀ x, Speaks (next x)) : Speaks (result >>= next) := by
  cases result with
  | ok x => exact hNext x
  | error e =>
      exact speaks_error (fun code hError => h.noResult code (congrArg _ hError))
        fun hError => h.emptyOutput (congrArg _ hError)

/-- Whether a client finds by itself what is wrong, before it calls. -/
def ClientError.IsOwn : ClientError → Prop
  | .build _ _ | .noResult _ | .emptyOutput => False
  | _ => True

theorem FailsWith.speaks {result : Except ClientError α}
    (h : FailsWith ClientError.IsOwn result) : Speaks result :=
  ⟨fun _ hError => h _ hError, fun hError => h _ hError⟩

theorem isOwn_enter (text : String) : FailsWith ClientError.IsOwn (enter text) := by
  rw [enter]
  cases (Text.utf8 text).idxOf? 0 with
  | none => exact failsWith_ok _
  | some position => exact failsWith_error trivial

theorem isOwn_declare (count : Nat) (what : String) :
    FailsWith ClientError.IsOwn (declare count what) := by
  rw [declare]
  split
  · exact failsWith_error trivial
  · exact failsWith_ok _

theorem isOwn_mapM_option (text : Option String) : FailsWith ClientError.IsOwn (text.mapM enter) := by
  cases text with
  | none => exact failsWith_ok _
  | some text =>
      rw [Option.mapM_some]
      exact (isOwn_enter text).bind fun bytes => failsWith_ok _

variable (around : Build.Surroundings) (p : ClientParameters)

theorem isOwn_document (files : Files.Tree) : FailsWith ClientError.IsOwn (p.document files) := by
  rw [ClientParameters.document]
  cases p.capabilitiesFile with
  | some path => exact failsWith_mapError (fun _ => trivial) _
  | none =>
      simp only
      split <;> exact failsWith_ok _

/-- Making its record, a client meets no errors but its own. -/
theorem isOwn_record (files : Files.Tree) (forceBundle : Bool) :
    FailsWith ClientError.IsOwn (p.record files forceBundle) :=
  (failsWith_mapM isOwn_enter p.entrypoints).bind fun _ =>
    (failsWith_mapM isOwn_enter p.ignore).bind fun _ => (isOwn_declare _ _).bind fun _ =>
      (isOwn_declare _ _).bind fun _ => (isOwn_enter p.target).bind fun _ =>
        (isOwn_document p files).bind fun _ => (isOwn_mapM_option _).bind fun _ =>
          (isOwn_mapM_option _).bind fun _ => (isOwn_mapM_option _).bind fun _ => failsWith_ok _

theorem isOwn_bundleOf (bytes : Bytes) : FailsWith ClientError.IsOwn (bundleOf p bytes) := by
  rw [bundleOf]
  split
  · exact failsWith_ok _
  · exact failsWith_mapError (fun _ => trivial) _

theorem speaks_received (built : Except Build.Error Bytes) : Speaks (received built) := by
  cases built with
  | error e => exact speaks_error (by simp) (by simp)
  | ok output =>
      rw [received]
      cases handOver output with
      | ok handed => exact speaks_ok _
      | error fault => exact speaks_error (by simp) (by simp)

theorem speaks_compilePath (path : String) : Speaks (compilePath around path p) := by
  have hCall (source : Bytes) (record : Record) :
      Speaks (accept (buildFromPath around (some ⟨some source, record⟩) true).value) := by
    rw [buildFromPath, Option.map_some, accept_respond]
    exact speaks_received _
  have hRest : Speaks (do
      let source ← enter (normalizePath path)
      let record ← p.record around.files false
      accept (buildFromPath around (some ⟨some source, record⟩) true).value) :=
    (FailsWith.speaks (isOwn_enter _)).bind fun source =>
      (FailsWith.speaks (isOwn_record p _ _)).bind fun record => hCall source record
  rw [compilePath]
  split
  · exact speaks_error (by simp) (by simp)
  · exact hRest

theorem speaks_compileBytes (bytes : Bytes) : Speaks (compileBytes around bytes p) := by
  refine (FailsWith.speaks (isOwn_bundleOf p bytes)).bind fun bundle =>
    (FailsWith.speaks (isOwn_record p _ _)).bind fun record =>
      (FailsWith.speaks (isOwn_declare _ _)).bind fun length => ?_
  rw [buildFromBytes, Option.map_some, accept_respond]
  exact speaks_received _

end Speaking

/-- A client is told what a build comes to: the output, where its length can be told, and otherwise the
status and the text of the error. -/
structure Tells (outcome : Build.Outcome) (answer : Except ClientError Bytes) : Prop where
  output : ∀ output ∈ outcome.output, 0 < output.length → output.length ≤ maxLength →
    answer = .ok output
  error : ∀ text ∈ outcome.error,
    answer = .error (.build outcome.status.code (told outcome.status.code text))

theorem tells_received (around : Build.Surroundings) (parameters : Build.Parameters)
    (request : Build.Request) :
    Tells (Build.execute around (Build.bundleCompiler around) parameters request).value
      (received (Build.run around (Build.bundleCompiler around) parameters request).outcome.value) := by
  obtain ⟨log, -, hValue⟩ :=
    Build.value_execute around (Build.bundleCompiler around) parameters request
  rw [hValue]
  cases (Build.run around (Build.bundleCompiler around) parameters request).outcome.value with
  | error e =>
      refine ⟨nofun, ?_⟩
      rintro text ⟨⟩
      rfl
  | ok output =>
      refine ⟨?_, nofun⟩
      rintro output ⟨⟩ hSome hShort
      have hHanded : handOver output = .ok output :=
        handOver_eq_ok_iff.mpr ⟨rfl, hSome, hShort⟩
      rw [received, hHanded]

/-- A client sees a build as it is. Whatever it asks for that can cross the boundary, unless there is
more of it than can be declared, it is told what the build with the parameters that it means comes to,
from a path and from the bytes of a bundle alike. And whatever it asks for, it is never left without a
result. -/
theorem client_tells_build (around : Build.Surroundings) (p : ClientParameters) :
    (∀ document, p.Crosses around.files document →
      (∀ path, ZeroFree path → normalizePath path ≠ "" →
        match p.countFault? with
        | some fault => compilePath around path p = .error fault
        | none => Tells (Build.execute around (Build.bundleCompiler around) (p.meant document false)
            (.path (normalizePath path))).value (compilePath around path p)) ∧
      (∀ bytes, p.isBundle = true → bytes.length ≤ maxLength →
        match p.countFault? with
        | some fault => compileBytes around bytes p = .error fault
        | none => Tells (Build.execute around (Build.bundleCompiler around) (p.meant document true)
            (.bytes bytes)).value (compileBytes around bytes p))) ∧
    (∀ path, Speaks (compilePath around path p)) ∧
    ∀ bytes, Speaks (compileBytes around bytes p) := by
  refine ⟨fun document hCrosses => ⟨fun path hPath hSome => ?_, fun bytes hBundle hLength => ?_⟩,
    speaks_compilePath around p, speaks_compileBytes around p⟩
  · rw [compilePath_eq (zeroFree_normalizePath hPath) hSome, hCrosses.bind_record]
    cases p.countFault? with
    | some fault => rfl
    | none => exact tells_received around (p.meant document false) _
  · have hSame : bundleOf p bytes = .ok bytes := if_pos hBundle
    rw [compileBytes_eq hSame hLength, hCrosses.bind_record]
    cases p.countFault? with
    | some fault => rfl
    | none => exact tells_received around (p.meant document true) _

/-- A client that asks for a target that is not there is told so. -/
theorem client_tells_build_otherTarget :
    let around : Build.Surroundings := ⟨.empty, .default⟩
    let p := { ClientParameters.default with target := "nope", entrypoints := ["", "p"] }
    (p.Crosses around.files none ∧ ZeroFree "./b" ∧ normalizePath "./b" ≠ "" ∧
      p.countFault? = none) ∧
    Tells (Build.execute around (Build.bundleCompiler around) (p.meant none false)
      (.path (normalizePath "./b"))).value (compilePath around "./b" p) ∧
    compilePath around "./b" p = .error (.build (-4) "unsupported target: nope") := by
  intro around p
  have hCrosses : p.Crosses around.files none :=
    ⟨rfl, by decide, by decide, by decide, nofun, nofun, nofun⟩
  have hTells := ((client_tells_build around p).1 none hCrosses).1 "./b" (by decide) (by decide)
  have hCount : p.countFault? = none := by decide
  rw [hCount] at hTells
  obtain ⟨log, -, hValue⟩ := Build.value_execute around (Build.bundleCompiler around)
    (p.meant none false) (.path (normalizePath "./b"))
  have hRun : (Build.run around (Build.bundleCompiler around) (p.meant none false)
      (.path (normalizePath "./b"))).outcome.value =
        .error (.compile (.unsupportedTarget "nope")) := by
    rw [Build.value_run]
    rfl
  have hText : told (-4) ("unsupported target: " ++ "nope") = "unsupported target: nope" := by
    decide +kernel
  have hSaid := hTells.error ("unsupported target: " ++ "nope") (by rw [hValue, hRun]; rfl)
  have hStatus : (Build.Outcome.ofResult (.error (.compile (.unsupportedTarget "nope")))
      log).status.code = -4 := rfl
  rw [hValue, hRun, hStatus, hText] at hSaid
  exact ⟨⟨hCrosses, by decide, by decide, hCount⟩, hTells, hSaid⟩

end PolicyBundle.Boundary
