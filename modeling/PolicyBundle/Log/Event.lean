import PolicyBundle.Text.Basic
import PolicyBundle.Text.Quoted

/-!
# Events

What a build tells about itself while it runs: a message at a level, from a component, with named
values.
-/

namespace PolicyBundle.Log

/-- How much an event matters. -/
inductive Level where
  | error
  | warn
  | info
  | debug
  deriving DecidableEq, Repr

namespace Level

/-- The name of a level. -/
def name : Level → String
  | .error => "ERROR"
  | .warn => "WARN"
  | .info => "INFO"
  | .debug => "DEBUG"

/-- How verbose a filter has to be that lets a level through. -/
def verbosity : Level → Nat
  | .error => 1
  | .warn => 2
  | .info => 3
  | .debug => 4

end Level

/-- A value that goes with a message. -/
inductive Value where
  /-- A text that is shown as it is. -/
  | plain (text : String)
  /-- A text between quotes. -/
  | quoted (text : String)
  | quotedList (texts : List String)
  | number (n : Nat)
  | bool (b : Bool)
  deriving DecidableEq, Repr

/-- The text of a value. -/
def Value.render : Value → String
  | .plain text => text
  | .quoted text => Text.quoted text
  | .quotedList texts => Text.quotedList texts
  | .number n => Text.decimal n
  | .bool b => if b then "true" else "false"

/-- An event. -/
structure Event where
  level : Level
  /-- The component that tells it, a path with double colons. -/
  component : String
  message : String
  values : List (String × Value)
  deriving DecidableEq, Repr

/-- Whether an event has a value of this name. The message is one. -/
def Event.has (e : Event) (name : String) : Bool :=
  name = "message" || e.values.any (·.1 = name)

/-- The line of an event. -/
def Event.line (e : Event) : String :=
  let values := e.values.map fun (name, value) => " " ++ name ++ "=" ++ value.render
  e.level.name ++ " " ++ e.component ++ ": " ++ e.message ++ String.join values

/-- The text of some events, one line each. -/
def render (events : List Event) : String :=
  String.join (events.map fun e => e.line ++ "\n")

end PolicyBundle.Log
