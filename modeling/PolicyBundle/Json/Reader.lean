import PolicyBundle.Json.Token

/-!
# Reading JSON

Values of any shape. Containers may be nested 127 deep; the next one is refused at its opening. A
value that nobody asks for can be skipped, which has no such limit and checks only its outline.
-/

namespace PolicyBundle.Json

/-- How many containers may be open at once. -/
def maxDepth : Nat := 127

/-- A reader of something from the front of the input. -/
abbrev Reader (α : Type) := Bytes → Except Stop (α × Bytes)

/-- The next item of a list, or none at its closing bracket, which is left. -/
def nextItem (item : Reader α) (first : Bool) (input : Bytes) : Except Stop (Option α × Bytes) :=
  match afterSpaces input with
  | [] => .error (stopAt .unfinishedList [])
  | b :: rest =>
    if b = byte ']' then .ok (none, b :: rest)
    else do
      let start ←
        if first then .ok (b :: rest)
        else if b = byte ',' then
          match afterSpaces rest with
          | [] => .error (stopAt .unfinishedValue [])
          | next :: after =>
            if next = byte ']' then .error (stopAt .trailingComma (next :: after))
            else .ok (next :: after)
        else .error (stopAt .expectedListEnd (b :: rest))
      let (x, rest) ← item start
      .ok (some x, rest)

/-- The items of a list, up to its closing bracket, which is left. `rounds` bounds their number. -/
def readItems (item : Reader α) : (rounds : Nat) → (first : Bool) → Reader (List α)
  | 0, _, input => .error (stop .unfinishedList input)
  | rounds + 1, first, input => do
    match ← nextItem item first input with
    | (none, rest) => .ok ([], rest)
    | (some x, rest) =>
      let (xs, rest) ← readItems item rounds false rest
      .ok (x :: xs, rest)

/-- The closing bracket of a list. -/
def closeList (input : Bytes) : Except Stop Bytes :=
  match afterSpaces input with
  | [] => .error (stopAt .unfinishedList [])
  | b :: rest =>
    if b = byte ']' then .ok rest
    else if b = byte ',' then
      match afterSpaces rest with
      | next :: after =>
        .error (stopAt (if next = byte ']' then .trailingComma else .trailingCharacters)
          (next :: after))
      | [] => .error (stopAt .trailingCharacters [])
    else .error (stopAt .trailingCharacters (b :: rest))

/-- The quote that opens the name of the next field, or none at the closing brace, which is left. -/
def nextName (first : Bool) (input : Bytes) : Except Stop (Option Bytes × Bytes) :=
  match afterSpaces input with
  | [] => .error (stopAt .unfinishedObject [])
  | b :: rest =>
    if b = byte '\x7d' then .ok (none, b :: rest)
    else if first then
      if b = byte '"' then .ok (some rest, rest) else .error (stopAt .keyNotString (b :: rest))
    else if b = byte ',' then
      match afterSpaces rest with
      | [] => .error (stopAt .unfinishedValue [])
      | next :: after =>
        if next = byte '"' then .ok (some after, after)
        else if next = byte '\x7d' then .error (stopAt .trailingComma (next :: after))
        else .error (stopAt .keyNotString (next :: after))
    else .error (stopAt .expectedObjectEnd (b :: rest))

/-- The colon between a name and its value. -/
def colon (input : Bytes) : Except Stop Bytes :=
  match afterSpaces input with
  | [] => .error (stopAt .unfinishedObject [])
  | b :: rest => if b = byte ':' then .ok rest else .error (stopAt .expectedColon (b :: rest))

/-- The fields of an object, up to its closing brace, which is left. Each is taken into what the
fields before it gave by `field`, which gets the name and the input behind it. `rounds` bounds the
number of fields. -/
def foldFields (field : σ → String → Reader σ) : (rounds : Nat) → (first : Bool) → σ → Reader σ
  | 0, _, _, input => .error (stop .unfinishedObject input)
  | rounds + 1, first, state, input => do
    match ← nextName first input with
    | (none, rest) => .ok (state, rest)
    | (some rest, _) =>
      let (name, rest) ← readString rest
      let (state, rest) ← field state name rest
      foldFields field rounds false state rest

/-- The closing brace of an object. -/
def closeObject (input : Bytes) : Except Stop Bytes :=
  match afterSpaces input with
  | [] => .error (stopAt .unfinishedObject [])
  | b :: rest =>
    if b = byte '\x7d' then .ok rest
    else
      .error (stopAt (if b = byte ',' then .trailingComma else .trailingCharacters) (b :: rest))

/-- A field of any value, set in the fields read before. -/
def anyField (value : Reader Json) (fields : Fields) (name : String) : Reader Fields :=
  fun input => do
  let rest ← colon input
  let (v, rest) ← value rest
  .ok (setField name v fields, rest)

/-- A value, whose containers are read by `inner`; where that is none, a container is too deep. -/
def valueWith (inner : Option (Reader Json)) (input : Bytes) : Except Stop (Json × Bytes) :=
  match afterSpaces input with
  | [] => .error (stopAt .unfinishedValue [])
  | b :: rest =>
    if b = byte 'n' then do
      let rest ← keyword ['u', 'l', 'l'] rest
      .ok (.null, rest)
    else if b = byte 't' then do
      let rest ← keyword ['r', 'u', 'e'] rest
      .ok (.bool true, rest)
    else if b = byte 'f' then do
      let rest ← keyword ['a', 'l', 's', 'e'] rest
      .ok (.bool false, rest)
    else if b = byte '-' then do
      let (n, rest) ← readNumber true rest
      .ok (.number n, rest)
    else if isDigit b then do
      let (n, rest) ← readNumber false (b :: rest)
      .ok (.number n, rest)
    else if b = byte '"' then do
      let (s, rest) ← readString rest
      .ok (.string s, rest)
    else if b = byte '[' then
      match inner with
      | none => .error (stopAt .tooDeep (b :: rest))
      | some value => do
        let (items, rest) ← readItems value (rest.length + 1) true rest
        let rest ← closeList rest
        .ok (.array items, rest)
    else if b = byte '\x7b' then
      match inner with
      | none => .error (stopAt .tooDeep (b :: rest))
      | some value => do
        let (fields, rest) ← foldFields (anyField value) (rest.length + 1) true [] rest
        let rest ← closeObject rest
        .ok (.object fields, rest)
    else .error (stopAt .expectedValue (b :: rest))

/-- A value with at most `depth` containers inside each other. -/
def readValue : (depth : Nat) → Reader Json
  | 0 => valueWith none
  | depth + 1 => valueWith (some (readValue depth))

/-- An open container of a value that is skipped. -/
inductive Frame where
  | list
  | object
  deriving DecidableEq

/-- The byte that closes a container. -/
def Frame.closing : Frame → UInt8
  | .list => byte ']'
  | .object => byte '\x7d'

/-- Skips a scalar, or opens a container: the rest of the input and the container opened. -/
def skipOne (input : Bytes) : Except Stop (Option Frame × Bytes) :=
  match afterSpaces input with
  | [] => .error (stopAt .unfinishedValue [])
  | b :: rest =>
    let done (r : Except Stop Bytes) := r.map fun rest => (none, rest)
    if b = byte 'n' then done (keyword ['u', 'l', 'l'] rest)
    else if b = byte 't' then done (keyword ['r', 'u', 'e'] rest)
    else if b = byte 'f' then done (keyword ['a', 'l', 's', 'e'] rest)
    else if b = byte '-' then done (skipNumber rest)
    else if isDigit b then done (skipNumber (b :: rest))
    else if b = byte '"' then done (skipString rest)
    else if b = byte '[' then .ok (some .list, rest)
    else if b = byte '\x7b' then .ok (some .object, rest)
    else .error (stopAt .expectedValue (b :: rest))

/-- Skips the name of a field and the colon behind it. -/
def skipName (input : Bytes) : Except Stop Bytes :=
  match afterSpaces input with
  | [] => .error (stopAt .unfinishedObject [])
  | b :: rest =>
    if b = byte '"' then do
      let rest ← skipString rest
      colon rest
    else .error (stopAt .keyNotString (b :: rest))

/-- Skips to the end of the outermost of the open containers, innermost first. `comma` tells whether
an item stands before. `rounds` bounds the number of steps. -/
def skipInside (rounds : Nat) (comma : Bool) (frames : List Frame) (input : Bytes) :
    Except Stop Bytes :=
  match rounds, frames with
  | _, [] => .ok input
  | 0, _ => .error (stop .unfinishedValue input)
  | rounds + 1, frame :: outer => do
    let item (input : Bytes) : Except Stop Bytes := do
      let input ← if frame = .object then skipName input else .ok input
      match ← skipOne input with
      | (none, rest) => skipInside rounds true (frame :: outer) rest
      | (some opened, rest) => skipInside rounds false (opened :: frame :: outer) rest
    match afterSpaces input with
    | [] =>
      .error (stopAt (if frame = .list then .unfinishedList else .unfinishedObject) [])
    | b :: rest =>
      if comma && b = byte ',' then item rest
      else if b = frame.closing then skipInside rounds true outer rest
      else if comma then
        .error (stopAt (if frame = .list then .expectedListEnd else .expectedObjectEnd)
          (b :: rest))
      else item (b :: rest)

/-- Skips a value. -/
def skipValue (input : Bytes) : Except Stop Bytes := do
  match ← skipOne input with
  | (none, rest) => .ok rest
  | (some opened, rest) => skipInside (2 * input.length + 1) false [opened] rest

/-- Nothing but blanks may stand behind a document. -/
def finish (input : Bytes) : Except Stop Unit :=
  match afterSpaces input with
  | [] => .ok ()
  | rest => .error (stopAt .trailingCharacters rest)

/-- What a reader makes of a whole document. -/
def runReader (reader : Reader α) (input : Bytes) : Except Fault α :=
  let run : Except Stop α := do
    let (value, rest) ← reader input
    finish rest
    .ok value
  run.mapError (·.locate input)

/-- The value of a document. -/
def parse (input : Bytes) : Except Fault Json :=
  runReader (readValue maxDepth) input

/-- The value of a document given as text. -/
def parseText (text : String) : Except Fault Json :=
  parse (Text.utf8 text)

end PolicyBundle.Json
