import PolicyBundle.Policy.Line
import PolicyBundle.Policy.Module

/-!
# Erasing print statements

A line that is a call of `print` from its first to its last character becomes `true`, at the same
indentation. Every line of the result ends with a line feed, so line numbers stay as they are.
-/

namespace PolicyBundle.Policy

/-- Whether a line is a print statement from end to end. -/
def isPrintLine (line : List Char) : Bool :=
  let trimmed := Text.trim line
  "print(".toList.isPrefixOf trimmed && trimmed.getLast? = some ')'

/-- A line without its print statement. -/
def erasePrint (line : List Char) : List Char :=
  if isPrintLine line then line.takeWhile Text.isBlank ++ "true".toList else line

namespace Module

/-- The numbers of the lines that are print statements. -/
def printLines (m : Module) : List Nat :=
  ((Text.lines m.source.toList).zipIdx 1).filterMap fun (line, number) =>
    if isPrintLine line then some number else none

/-- The module without its print statements. Only calls of `print` itself leave the calls. -/
def withoutPrints (m : Module) : Module :=
  let source := (Text.lines m.source.toList).flatMap fun line => erasePrint line ++ ['\n']
  { m with
    source := String.ofList source
    calls := m.calls.filter fun call =>
      !(call.name = "print" && m.printLines.contains call.line) }

end Module

end PolicyBundle.Policy
