import PolicyBundle.Archive.Sparse

/-!
# Listings of archives

The members of an archive in order, up to its end or to the fault that keeps a reader from going on.
Extension records are no members: they give a name or a size to the member that follows. The listing
holds more than a reader may look at: one that stops at a member never meets what comes behind it.
-/

namespace PolicyBundle.Archive

/-- A member of an archive. -/
structure Member where
  path : Bytes
  kind : Kind
  /-- The size in the header, which an extension record may overrule. -/
  size : Except Fault Nat
  /-- What comes of reading the contents. Contents that are cut off read short. -/
  contents : Except Fault Bytes

/-- The members of an archive and how it ends. -/
inductive Listing where
  | done
  | broken (fault : Fault)
  | member (m : Member) (rest : Listing)

/-- What extension records say of the member that comes next. -/
structure Extensions where
  longName : Option Bytes
  longLink : Bool
  records : Option Bytes

namespace Extensions

/-- No extension record. -/
def none : Extensions := ⟨.none, false, .none⟩

/-- Whether there is no extension record. -/
def isNone (e : Extensions) : Bool :=
  e.longName.isNone && !e.longLink && e.records.isNone

/-- A record: a name and a value behind the length of the line that they stand in. -/
def recordOf? (line : Bytes) : Option (Bytes × Bytes) := do
  let blank := ' '.toUInt8
  let length ← Text.ofUtf8? (line.takeWhile (· ≠ blank))
  let length ← Text.numberBelow? (Nat.pow 2 64) length
  let _ ← (line.dropWhile (· ≠ blank)).head?
  let record := (line.dropWhile (· ≠ blank)).drop 1
  let equals := '='.toUInt8
  if length = line.length + 1 && record.contains equals then
    some (record.takeWhile (· ≠ equals), (record.dropWhile (· ≠ equals)).drop 1)
  else .none

/-- The lines of the records, up to the first empty one. A line that is no record is none. -/
def lines (records : Bytes) : List (Option (Bytes × Bytes)) :=
  ((records.splitOn '\n'.toUInt8).takeWhile (!·.isEmpty)).map recordOf?

/-- The path that the records give. -/
def recordedPath? (records : Bytes) : Option Bytes :=
  ((lines records).filterMap id).lookup (Text.utf8 "path")

/-- The size that the records give, unless a line before it is no record. -/
def recordedSize? (records : Bytes) : Option Nat := do
  let named (line : Option (Bytes × Bytes)) : Bool :=
    match line with
    | .none => true
    | some (name, _) => name = Text.utf8 "size"
  let (_, value) ← (← (lines records).find? named)
  let text ← Text.ofUtf8? value
  Text.numberBelow? (Nat.pow 2 64) text

/-- The path of the member with this header. -/
def path (e : Extensions) (h : Header) : Bytes :=
  match e.longName with
  | some name => if name.getLast? = some 0 then name.dropLast else name
  | .none => (e.records.bind recordedPath?).getD h.path

/-- The size of the contents of the member with this header. Records give no size to another
extension. -/
def size (e : Extensions) (h : Header) : Except Fault Nat := do
  let size ← h.recordedSize
  if (Kind.ofByte h.kind).isExtension then return size
  return (e.records.bind recordedSize?).getD size

end Extensions

namespace Listing

/-- The header that begins a stream, its contents' size and the stream behind it; none at the end of
the archive. The contents must end at a position of 64 bits. -/
def header? (e : Extensions) (s : Stream) : Except Fault (Option (Header × Nat × Stream)) :=
  match s.block? blockSize with
  | .error fault => .error fault
  | .ok none => .ok none
  | .ok (some (block, after)) =>
    if block.all (· = 0) then .ok none
    else do
      let h ← Header.check block
      let size ← e.size h
      if after.position + wholeBlocks size ≥ Nat.pow 2 64 then throw .sizeOverflow
      return some (h, size, after)

/-- What is listed of a member, whose contents the stream begins with. -/
def memberOf (e : Extensions) (h : Header) (size : Nat) (s : Stream) : Member where
  path := e.path h
  kind := Kind.ofByte h.kind
  size := h.recordedSize
  contents := (s.take size).map (·.1)

/-- The extensions with what a record brings, if the header is that of a record. -/
def extended? (e : Extensions) (h : Header) (size : Nat) (s : Stream) :
    Option (Except Fault Extensions) :=
  let contents := (s.take size).map (·.1)
  if !(h.isExtended || h.isSplit) then none
  else
    match Kind.ofByte h.kind with
    | .longName =>
      some (if e.longName.isSome then .error .repeatedLongName
        else contents.map fun name => { e with longName := some name })
    | .longLink =>
      some (if e.longLink then .error .repeatedLongName
        else contents.map fun _ => { e with longLink := true })
    | .extensions =>
      some (if e.records.isSome then .error .repeatedExtensions
        else contents.map fun records => { e with records := some records })
    | _ => none

theorem header?_shorter {e : Extensions} {s after : Stream} {h : Header} {size : Nat}
    (eq : header? e s = .ok (some (h, size, after))) : after.data.length < s.data.length := by
  simp only [header?] at eq
  split at eq
  · cases eq
  · cases eq
  · rename_i block behind hb
    split at eq
    · cases eq
    · simp only [bind, Except.bind] at eq
      split at eq
      · cases eq
      · split at eq
        · cases eq
        · split at eq
          · cases eq
          · simp only [pure, Except.pure, Except.ok.injEq, Option.some.injEq, Prod.mk.injEq] at eq
            obtain ⟨_, _, rfl⟩ := eq
            exact Stream.block?_shorter hb

/-- What a reader finds at the front of a stream, each with the stream behind it. -/
inductive Front where
  | ending
  | extended (e : Extensions) (behind : Except Fault Stream)
  | member (m : Member) (behind : Except Fault Stream)

/-- What a stream begins with, when extension records stand before it. -/
def front (e : Extensions) (s : Stream) : Except Fault Front := do
  match ← header? e s with
  | none => if e.isNone then .ok .ending else .error .danglingExtension
  | some (h, size, after) =>
    let behind := after.skip (wholeBlocks size)
    match extended? e h size after with
    | some extensions => .ok (.extended (← extensions) behind)
    | none =>
      if Kind.ofByte h.kind = .sparse then Sparse.check h size after
      .ok (.member (memberOf e h size after) behind)

/-- The stream behind what was found, if it can be reached. -/
def Front.behind? : Front → Option Stream
  | .extended _ (.ok behind) => some behind
  | .member _ (.ok behind) => some behind
  | _ => none

theorem front_shorter {e : Extensions} {s behind : Stream} {f : Front}
    (hf : front e s = .ok f) (hb : f.behind? = some behind) :
    behind.data.length < s.data.length := by
  have reached {h : Header} {size : Nat} {after : Stream}
      (hh : header? e s = .ok (some (h, size, after)))
      (hs : after.skip (wholeBlocks size) = .ok behind) :
      behind.data.length < s.data.length :=
    Nat.lt_of_le_of_lt (Stream.skip_not_longer hs) (header?_shorter hh)
  simp only [front, bind, Except.bind] at hf
  split at hf
  · cases hf
  · rename_i found hh
    split at hf
    · split at hf
      · cases hf
        cases hb
      · cases hf
    · rename_i h size after
      split at hf
      · split at hf
        · cases hf
        · cases hf
          simp only [Front.behind?] at hb
          split at hb <;> simp_all
      · split at hf
        · split at hf
          · cases hf
          · cases hf
            simp only [Front.behind?] at hb
            split at hb <;> simp_all
        · cases hf
          simp only [Front.behind?] at hb
          split at hb <;> simp_all

/-- The listing of a stream, when extension records stand before it. -/
def listFrom (e : Extensions) (s : Stream) : Listing :=
  match _found : front e s with
  | .error fault => .broken fault
  | .ok .ending => .done
  | .ok (.extended _ (.error fault)) => .broken fault
  | .ok (.extended extensions (.ok behind)) => listFrom extensions behind
  | .ok (.member m (.error fault)) => .member m (.broken fault)
  | .ok (.member m (.ok behind)) => .member m (listFrom .none behind)
termination_by s.data.length
decreasing_by all_goals exact front_shorter _found rfl

/-- The listing of an archive. -/
def ofStream (s : Stream) : Listing :=
  listFrom .none s

end Listing

end PolicyBundle.Archive
