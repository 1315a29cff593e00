import PolicyBundle.Log.Event
import PolicyBundle.Log.Pattern
import PolicyBundle.Text.Utf8

/-!
# Log filters

A filter is a list of directives, separated by commas: a level, a component, or both. The
directive for the longest beginning of an event's component decides, and without any such
directive the event is dropped. A directive may also ask for a span or for a value; no event is
inside a span, so a directive that names one lets nothing through.
-/

namespace PolicyBundle.Log

/-- A directive. -/
structure Directive where
  /-- The beginning of the components it is for; all components where it is absent. -/
  component : Option String
  /-- The name of a value that an event must have. -/
  value : Option String
  /-- Whether it asks for a span, or for a certain value, which only spans are asked for. -/
  inSpan : Bool
  /-- How verbose events may be. -/
  verbosity : Nat
  deriving DecidableEq, Repr

/-- The verbosity that lets everything through. -/
def maxVerbosity : Nat := 5

/-- The names of verbosities, in increasing order. -/
def verbosityNames : List String := ["off", "error", "warn", "info", "debug", "trace"]

/-- The verbosity that a text names, by a name in any case or by a number. -/
def verbosityOf? (text : String) : Option Nat :=
  match Text.numberBelow? (maxVerbosity + 1) text with
  | some n => some n
  | none =>
    if text.isEmpty then some 1
    else
      let lower := String.ofList (text.toList.map Char.toLower)
      verbosityNames.idxOf? lower

/-- Whether a character may begin a directive that does not begin with a bracket. -/
def mayBegin (c : Char) : Bool :=
  c = '-' || c = ':' || c = '_' || Text.isAlphanumeric c

namespace Directive

/-- The directive that lets everything through. -/
def all : Directive := ⟨none, none, false, maxVerbosity⟩

/-- The piece of a text between two positions, which count bytes. A piece that would begin or end
inside a character is none. -/
def cut? (text : String) (start stop : Nat) : Option String :=
  Text.ofUtf8? (((Text.utf8 text).take stop).drop start)

/-- How many bytes some characters take. -/
def width (chars : List Char) : Nat :=
  (String.ofList chars).utf8ByteSize

/-- The directive with the level that a text gives behind an equals sign at the position. -/
def withLevel? (d : Directive) (text : String) (position : Nat) : Option Directive := do
  let level ← cut? text (position + 1) text.utf8ByteSize
  if level.isEmpty then some { d with verbosity := maxVerbosity }
  else (verbosityOf? level).map fun verbosity => { d with verbosity }

/-- The directive with what a text has behind the bracket of a span. -/
def behindSpan? (d : Directive) (text : String) (position : Nat) : List Char → Option Directive
  | [] => some d
  | '=' :: _ => d.withLevel? text position
  | _ => none

/-- The directive with a value that an event must have. An equals sign behind its name asks for a
value that only spans are asked for. -/
def withValue? (d : Directive) (asked : String) : Option Directive :=
  match Text.split '=' asked with
  | _ :: value :: _ => if Pattern.isValue value then some { d with inSpan := true } else none
  | _ => some { d with value := some asked }

/-- The directive with a span, which a text has at the position, behind the opening bracket. -/
def withSpan? (d : Directive) (text : String) (position : Nat) (rest : List Char) :
    Option Directive := do
  let name := rest.takeWhile fun c => c ≠ ']' && c ≠ '\x7b'
  let behind := position + width name
  match rest.drop name.length with
  | ']' :: rest => behindSpan? { d with inSpan := true } text (behind + 1) rest
  | _ :: rest =>
    let d := if name.isEmpty then d else { d with inSpan := true }
    let asked := rest.takeWhile (· ≠ '\x7d')
    match asked, rest.drop asked.length with
    | [], _ => none
    | asked, _ :: ']' :: rest =>
      let stop := behind + 1 + width asked
      (← d.withValue? (← cut? text (behind + 1) stop)).behindSpan? text (stop + 2) rest
    | _, _ => none
  | [] => none

/-- The directive that a text is. A word alone is a level or, failing that, a component. Where its
parts begin and end is found without the blanks around it, but they are cut out of the text as it
stands, at the same positions. -/
def parse? (text : String) : Option Directive :=
  match Text.trim text.toList with
  | [] => none
  | '[' :: rest => all.withSpan? text 1 rest
  | c :: rest =>
    if !mayBegin c then none
    else
      let word := (c :: rest).takeWhile fun c => c ≠ '=' && c ≠ '['
      let stop := width word
      match (c :: rest).drop word.length with
      | [] =>
        match verbosityOf? text with
        | some verbosity => some { all with verbosity }
        | none => some { all with component := some text }
      | mark :: rest => do
        let d := { all with component := some (← cut? text 0 stop) }
        if mark = '=' then d.withLevel? text stop else d.withSpan? text (stop + 1) rest

/-- Whether a directive is for an event. -/
def isFor (d : Directive) (e : Event) : Bool :=
  !d.inSpan && (d.component.all fun start => Text.startsWith e.component start) &&
    d.value.all e.has

/-- How special a directive is: by the length of its component. -/
def rank (d : Directive) : Nat :=
  match d.component with
  | none => 0
  | some start => start.utf8ByteSize + 1

/-- Whether the second of two directives for the same event, in the order they are written, counts
rather than the first. One that asks for a value is more special than one that asks for none, and of
two values the one counts whose name is greater. -/
def yieldsTo (d e : Directive) : Bool :=
  d.rank < e.rank || d.rank = e.rank &&
    match d.value, e.value with
    | none, _ => true
    | some _, none => false
    | some first, some second => first ≤ second

end Directive

/-- A filter. -/
structure Filter where
  directives : List Directive
  deriving DecidableEq, Repr

namespace Filter

/-- The filter that a text is, if each of its directives is one. Without directives errors alone get
through. -/
def parse? (text : String) : Option Filter := do
  let texts := (Text.split ',' text).filter fun piece => !piece.isEmpty
  if texts.isEmpty then some ⟨[{ Directive.all with verbosity := Level.error.verbosity }]⟩
  else some ⟨← texts.mapM Directive.parse?⟩

/-- The filter that is used by default. -/
def default : Filter := ⟨[{ Directive.all with verbosity := Level.debug.verbosity }]⟩

/-- The filter that a text is, or the default one. -/
def ofText (text : String) : Filter :=
  (parse? text).getD default

/-- The filter that lets warnings and errors through. -/
def warnings : Filter := ⟨[{ Directive.all with verbosity := Level.warn.verbosity }]⟩

/-- Whether an event gets through. -/
def passes (filter : Filter) (e : Event) : Bool :=
  let choose (found : Option Directive) (d : Directive) : Option Directive :=
    match found with
    | none => some d
    | some earlier => if earlier.yieldsTo d then some d else some earlier
  match (filter.directives.filter (·.isFor e)).foldl choose none with
  | none => false
  | some d => e.level.verbosity ≤ d.verbosity

/-- The log of the events that get through. -/
def log (filter : Filter) (events : List Event) : String :=
  render (events.filter filter.passes)

end Filter

end PolicyBundle.Log
