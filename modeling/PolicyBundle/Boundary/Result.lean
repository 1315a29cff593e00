import PolicyBundle.Build.Run

/-!
# Results

What foreign callers are given: the output or the text of an error, never both and never neither,
and the log if there is one. Their strings end at the first zero byte, so texts leave without any.
-/

namespace PolicyBundle.Boundary

/-- A result. -/
structure Result where
  /-- The output, which is never empty. -/
  output : Option Bytes
  error : Option String
  log : Option String
  deriving DecidableEq, Repr

/-- The result without anything. -/
def Result.empty : Result := ⟨none, none, none⟩

/-- Why an output cannot be handed over. -/
inductive HandoverFault where
  | tooLarge (length : Nat)
  | noOutput
  deriving DecidableEq, Repr

/-- The text of a fault. -/
def HandoverFault.message : HandoverFault → String
  | .tooLarge length =>
    "build output of " ++ Text.decimal length ++ " bytes exceeds the maximum result size"
  | .noOutput => "build succeeded without producing output"

/-- The greatest length that a foreign caller can be told. -/
def maxLength : Nat := Nat.pow 2 31 - 1

/-- An output that can be handed over. -/
def handOver (output : Bytes) : Except HandoverFault Bytes :=
  if output.isEmpty then .error .noOutput
  else if output.length > maxLength then .error (.tooLarge output.length)
  else .ok output

/-- A text without zero bytes. -/
def foreignText (text : String) : String :=
  String.ofList (text.toList.filter fun c => c.toNat ≠ 0)

/-- The result of an outcome, and the status to report. An output that cannot be handed over is an
internal failure. -/
def package (outcome : Build.Outcome) : Result × Build.Status :=
  let log := outcome.log.map foreignText
  match outcome.output with
  | none => (⟨none, outcome.error.map foreignText, log⟩, outcome.status)
  | some output =>
    match handOver output with
    | .ok output => (⟨some output, outcome.error.map foreignText, log⟩, outcome.status)
    | .error fault => (⟨none, some (foreignText fault.message), log⟩, .internal)

end PolicyBundle.Boundary
