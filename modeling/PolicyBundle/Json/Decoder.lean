import PolicyBundle.Json.Reader

/-!
# Reading JSON of a known shape

Readers for documents whose fields have types. A value of another type is a fault at the place where
the type shows: behind a scalar, and at the opening of a container. Faults of a record as a whole
(a field twice, a field missing, too few items) are placed behind the record's closing, as far as
that is there to be read.
-/

namespace PolicyBundle.Json

/-- A reader of a typed value that may open so many containers inside each other. -/
abbrev Decoder (α : Type) := (depth : Nat) → Reader α

namespace Decoder

/-- The stop for a value that is not what was expected. A value that is no JSON at all stops with
the fault of its syntax. -/
def mismatch (expected : String) (input : Bytes) : Stop :=
  match afterSpaces input with
  | [] => stopAt .unfinishedValue []
  | b :: rest =>
    if b = byte '[' then stop (.wrongType .sequence expected) (b :: rest)
    else if b = byte '\x7b' then stop (.wrongType .map expected) (b :: rest)
    else
      match valueWith none (b :: rest) with
      | .error s => s
      | .ok (.null, rest) => stop (.wrongType .null expected) rest
      | .ok (.bool v, rest) => stop (.wrongType (.bool v) expected) rest
      | .ok (.number n, rest) => stop (.wrongType (.number n) expected) rest
      | .ok (.string s, rest) => stop (.wrongType (.string s) expected) rest
      | .ok (_, rest) => stop (.wrongType .map expected) rest

/-- A string. -/
def string : Decoder String := fun _ input =>
  match afterSpaces input with
  | b :: rest =>
    if b = byte '"' then readString rest else .error (mismatch "a string" (b :: rest))
  | [] => .error (mismatch "a string" [])

/-- An integer from zero up to below `bound`, which messages call `name`. -/
def natural (bound : Nat) (name : String) : Decoder Nat := fun _ input => do
  let take (isNegative : Bool) (digits : Bytes) : Except Stop (Nat × Bytes) := do
    match ← readNumber isNegative digits with
    | (.integer n, rest) =>
      if 0 ≤ n && n < bound then .ok (n.toNat, rest)
      else .error (stop (.wrongValue (.number (.integer n)) name) rest)
    | (.float x, rest) => .error (stop (.wrongType (.number (.float x)) name) rest)
  match afterSpaces input with
  | b :: rest =>
    if b = byte '-' then take true rest
    else if isDigit b then take false (b :: rest)
    else .error (mismatch name (b :: rest))
  | [] => .error (mismatch name [])

/-- A value or null. -/
def optional (value : Decoder α) : Decoder (Option α) := fun depth input =>
  match afterSpaces input with
  | b :: rest =>
    if b = byte 'n' then do
      let rest ← keyword ['u', 'l', 'l'] rest
      .ok (none, rest)
    else do
      let (x, rest) ← value depth (b :: rest)
      .ok (some x, rest)
  | [] => do
    let (x, rest) ← value depth []
    .ok (some x, rest)

/-- A container that begins with `opening`. `content` reads what is inside, its closing included;
where no container may be opened any more, the value is refused at its opening. -/
def container (opening : Char) (expected : String) (content : Decoder α) : Decoder α :=
  fun depth input =>
    match afterSpaces input with
    | b :: rest =>
      if b = byte opening then
        match depth with
        | 0 => .error (stopAt .tooDeep (b :: rest))
        | depth + 1 => content depth rest
      else .error (mismatch expected (b :: rest))
    | [] => .error (mismatch expected [])

/-- A list of values of one type. -/
def list (item : Decoder α) : Decoder (List α) :=
  container '[' "a sequence" fun depth input => do
    let (items, rest) ← readItems (item depth) (input.length + 1) true input
    let rest ← closeList rest
    .ok (items, rest)

/-- An object of any values. -/
def map : Decoder Fields :=
  container '\x7b' "a map" fun depth input => do
    let (fields, rest) ←
      foldFields (anyField (readValue depth)) (input.length + 1) true [] input
    let rest ← closeObject rest
    .ok (fields, rest)

/-- The input behind the closing brace of the object that is being read, if that comes next. -/
def behindObject (input : Bytes) : Bytes :=
  match afterSpaces input with
  | b :: rest => if b = byte '\x7d' then rest else b :: rest
  | [] => []

/-- The input behind the closing bracket of the list that is being read, if that comes next, and
behind a comma otherwise. -/
def behindList (input : Bytes) : Bytes :=
  match afterSpaces input with
  | b :: rest =>
    if b = byte ']' then rest
    else if b = byte ',' then afterSpaces rest
    else b :: rest
  | [] => []

/-- The value of a field that must not have been read before. -/
def once (name : String) (seen : Option α) (value : Decoder α) (depth : Nat) : Reader (Option α) :=
  fun input =>
    if seen.isSome then .error (stop (.duplicateField name) (behindObject input))
    else do
      let rest ← colon input
      let (x, rest) ← value depth rest
      .ok (some x, rest)

/-- The fields of an object taken one by one from `initial` on, and then made into a value by
`build`, which may find a field missing. -/
def fields (initial : σ) (field : (depth : Nat) → σ → String → Reader σ)
    (build : σ → Except Cause α) : Decoder α := fun depth input => do
  let (state, rest) ← foldFields (field depth) (input.length + 1) true initial input
  match build state with
  | .error cause => .error (stop cause (behindObject rest))
  | .ok value =>
    let rest ← closeObject rest
    .ok (value, rest)

/-- The value of a required field. -/
def required (name : String) (value : Option α) : Except Cause α :=
  match value with
  | some x => .ok x
  | none => .error (.missingField name)

/-- A record written as an object or as the list of its fields in order. -/
def record (expected : String) (asObject asList : Decoder α) : Decoder α := fun depth input =>
  match afterSpaces input with
  | b :: rest =>
    if b = byte '[' then container '[' expected asList depth (b :: rest)
    else container '\x7b' expected asObject depth (b :: rest)
  | [] => .error (mismatch expected [])

end Decoder

/-- The typed value of a document. -/
def decode (decoder : Decoder α) (input : Bytes) : Except Fault α :=
  runReader (decoder maxDepth) input

end PolicyBundle.Json
