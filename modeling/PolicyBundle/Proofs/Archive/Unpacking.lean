import PolicyBundle.Archive.Listing
import PolicyBundle.Proofs.Archive.Compressed
import PolicyBundle.Proofs.Archive.Headers
import PolicyBundle.Proofs.Archive.Paths

/-! The listing of an archive has the files that were written into it, in order, each with its path
and its contents. -/

namespace PolicyBundle.Archive

theorem le_wholeBlocks (length : Nat) : length ≤ wholeBlocks length := by
  simp only [wholeBlocks, blockSize]
  omega

namespace Pack

theorem headerOf_eq_withSum {path owner : Bytes} (kind : Char) (size : Nat)
    (hPath : path.length ≤ pathWidth) (hOwner : owner.length = 8) :
    ∃ h : Header, h.Sized ∧ headerOf path owner kind size = withSum h := by
  rw [headerOf]
  refine ⟨_, ?_, rfl⟩
  constructor
  · have hWidth : pathWidth = 100 := rfl
    simp only [padTo, zeros, List.length_append, List.length_replicate]
    omega
  all_goals first
    | exact hOwner
    | exact length_octalField _ (by omega)
    | exact length_sizeField _
    | exact List.length_replicate
    | rfl

theorem headerOf_sized {path owner : Bytes} (kind : Char) (size : Nat)
    (hPath : path.length ≤ pathWidth) (hOwner : owner.length = 8) :
    (headerOf path owner kind size).Sized := by
  obtain ⟨h, hSized, hEq⟩ := headerOf_eq_withSum kind size hPath hOwner
  exact hEq ▸ withSum_sized hSized

theorem check_headerOf {path owner : Bytes} (kind : Char) (size : Nat)
    (hPath : path.length ≤ pathWidth) (hOwner : owner.length = 8) :
    Header.check (headerOf path owner kind size).toBlock = .ok (headerOf path owner kind size) := by
  obtain ⟨h, hSized, hEq⟩ := headerOf_eq_withSum kind size hPath hOwner
  exact hEq ▸ check_withSum hSized

/-- The block of a header does not end an archive. -/
theorem toBlock_nonzero {h : Header} (hMagic : h.magic = Header.extendedMagic) :
    h.toBlock.all (· = 0) = false := by
  rw [List.all_eq_false]
  refine ⟨'u'.toUInt8, ?_, by decide⟩
  have hMem : 'u'.toUInt8 ∈ h.magic := by
    rw [hMagic]
    decide
  simp [Header.toBlock, hMem]

theorem length_blocks {h : Header} (hSized : h.Sized) (contents : Bytes) :
    (blocks h contents).length = blockSize + wholeBlocks contents.length := by
  have hLe := le_wholeBlocks contents.length
  simp only [blocks, padTo, zeros, List.length_append, List.length_replicate,
    hSized.length_toBlock]
  omega

end Pack

open Pack

namespace Stream

theorem take_append (front rest : Bytes) (position : Nat) :
    (Stream.mk (front ++ rest) none position).take front.length =
      .ok (front, ⟨rest, none, position + front.length⟩) := by
  simp [take, drop]

theorem block?_append {front : Bytes} (hFront : front ≠ []) (rest : Bytes) (position : Nat) :
    (Stream.mk (front ++ rest) none position).block? front.length =
      .ok (some (front, ⟨rest, none, position + front.length⟩)) := by
  rw [block?, take_append]
  simp [bind, Except.bind, hFront]

theorem skip_append (front rest : Bytes) (position : Nat) :
    (Stream.mk (front ++ rest) none position).skip front.length =
      .ok ⟨rest, none, position + front.length⟩ := by
  simp [skip, drop]

end Stream

namespace Listing

variable {e : Extensions} {path owner contents rest : Bytes} {kind : Char} {position : Nat}

theorem length_padTo (contents : Bytes) :
    (padTo (wholeBlocks contents.length) contents).length = wholeBlocks contents.length := by
  have hLe := le_wholeBlocks contents.length
  simp only [padTo, zeros, List.length_append, List.length_replicate]
  omega

/-- A header that was written. Its contents have the size that the extensions make of its own. -/
theorem header?_toBlock {size given : Nat} (hPath : path.length ≤ pathWidth)
    (hOwner : owner.length = 8) (hSize : e.size (headerOf path owner kind given) = .ok size)
    (hFits : position + blockSize + wholeBlocks size < Nat.pow 2 64) :
    header? e ⟨(headerOf path owner kind given).toBlock ++ rest, none, position⟩ =
      .ok (some (headerOf path owner kind given, size, ⟨rest, none, position + blockSize⟩)) := by
  have hSized := headerOf_sized kind given hPath hOwner
  have hCheck : Header.check (headerOf path owner kind given).toBlock =
      .ok (headerOf path owner kind given) := check_headerOf kind given hPath hOwner
  have hNonzero : (headerOf path owner kind given).toBlock.all (· = 0) = false :=
    toBlock_nonzero rfl
  have hSome : (headerOf path owner kind given).toBlock ≠ [] :=
    List.ne_nil_of_length_pos (by rw [hSized.length_toBlock]; decide)
  have hBlock := Stream.block?_append hSome rest position
  rw [hSized.length_toBlock] at hBlock
  simp only [header?, hBlock, hNonzero, hCheck, hSize, bind, Except.bind]
  rw [if_neg (by simp), if_neg (by omega)]
  rfl

theorem size_headerOf (hRecords : e.records = none) {size : Nat} (hSize : size < Nat.pow 2 64) :
    e.size (headerOf path owner kind size) = .ok size := by
  have hRecorded : (headerOf path owner kind size).recordedSize = .ok size :=
    number_sizeField _ hSize
  simp only [Extensions.size, hRecorded, hRecords, bind, Except.bind, Option.bind_none,
    Option.getD_none, ite_self, pure, Except.pure]

theorem take_padTo (position : Nat) :
    (Stream.mk (padTo (wholeBlocks contents.length) contents ++ rest) none position).take
      contents.length = .ok (contents, ⟨zeros (wholeBlocks contents.length - contents.length) ++ rest,
        none, position + contents.length⟩) := by
  rw [padTo, List.append_assoc, Stream.take_append]

theorem skip_padTo (position : Nat) :
    (Stream.mk (padTo (wholeBlocks contents.length) contents ++ rest) none position).skip
      (wholeBlocks contents.length) =
        .ok ⟨rest, none, position + wholeBlocks contents.length⟩ := by
  have hSkip := Stream.skip_append (padTo (wholeBlocks contents.length) contents) rest position
  rwa [length_padTo] at hSkip

/-- The extensions that a long name leaves for the next header. -/
def longNamed (name : Bytes) : Extensions :=
  { Extensions.none with longName := some name }

theorem kind_headerOf (size : Nat) :
    Kind.ofByte (headerOf path owner kind size).kind = Kind.ofByte kind.toUInt8 := rfl

theorem isExtended_headerOf (size : Nat) : (headerOf path owner kind size).isExtended = true :=
  decide_eq_true rfl

theorem extended?_longName {name : Bytes} :
    extended? .none (headerOf path owner 'L' name.length) name.length
        ⟨padTo (wholeBlocks name.length) name ++ rest, none, position⟩ =
      some (.ok (longNamed name)) := by
  have hKind : Kind.ofByte 'L'.toUInt8 = .longName := by decide
  simp only [extended?, isExtended_headerOf, kind_headerOf, hKind, take_padTo]
  rfl

/-- The extensions that records leave for the next header. -/
def recorded (records : Bytes) : Extensions :=
  { Extensions.none with records := some records }

theorem extended?_records {records : Bytes} :
    extended? .none (headerOf path owner 'x' records.length) records.length
        ⟨padTo (wholeBlocks records.length) records ++ rest, none, position⟩ =
      some (.ok (recorded records)) := by
  have hKind : Kind.ofByte 'x'.toUInt8 = .extensions := by decide
  simp only [extended?, isExtended_headerOf, kind_headerOf, hKind, take_padTo]
  rfl

/-- The size that records give is that of the file behind them, whatever its header says. -/
theorem size_recorded {records : Bytes} {given size : Nat} (hGiven : given < Nat.pow 2 64)
    (hSize : Extensions.recordedSize? records = some size) :
    (recorded records).size (headerOf path owner '0' given) = .ok size := by
  have hRecorded : (headerOf path owner '0' given).recordedSize = .ok given :=
    number_sizeField _ hGiven
  have hKind : Kind.ofByte '0'.toUInt8 = .regular := by decide
  simp only [Extensions.size, hRecorded, kind_headerOf, hKind, recorded, Option.bind_some, hSize,
    Option.getD_some]
  rfl

theorem extended?_file {e : Extensions} {given size : Nat} {s : Stream} :
    extended? e (headerOf path owner '0' given) size s = none := by
  have hKind : Kind.ofByte '0'.toUInt8 = .regular := by decide
  simp only [extended?, kind_headerOf, hKind, ite_self]

theorem memberOf_file {e : Extensions} {size : Nat} (hFits : size < Nat.pow 2 64) :
    memberOf e (headerOf path owner '0' size) contents.length
        ⟨padTo (wholeBlocks contents.length) contents ++ rest, none, position⟩ =
      ⟨e.path (headerOf path owner '0' size), .regular, .ok size, .ok contents⟩ := by
  have hKind : Kind.ofByte '0'.toUInt8 = .regular := by decide
  have hSize : (headerOf path owner '0' size).recordedSize = .ok size :=
    number_sizeField _ hFits
  simp only [memberOf, kind_headerOf, hKind, hSize, take_padTo]
  rfl

/-- A record is passed on to the header behind it. -/
theorem listFrom_record {next : Extensions} (hPath : path.length ≤ pathWidth)
    (hOwner : owner.length = 8)
    (hFits : position + (blocks (headerOf path owner kind contents.length) contents).length <
      Nat.pow 2 64)
    (hNext : extended? .none (headerOf path owner kind contents.length) contents.length
      ⟨padTo (wholeBlocks contents.length) contents ++ rest, none, position + blockSize⟩ =
        some (.ok next)) :
    listFrom .none
        ⟨blocks (headerOf path owner kind contents.length) contents ++ rest, none, position⟩ =
      listFrom next ⟨rest, none,
        position + (blocks (headerOf path owner kind contents.length) contents).length⟩ := by
  have hSized := headerOf_sized kind contents.length hPath hOwner
  have hLe := le_wholeBlocks contents.length
  rw [length_blocks hSized] at hFits ⊢
  have hFront : front .none
      ⟨blocks (headerOf path owner kind contents.length) contents ++ rest, none, position⟩ =
        .ok (.extended next
          (.ok ⟨rest, none, position + (blockSize + wholeBlocks contents.length)⟩)) := by
    rw [front, blocks, List.append_assoc,
      header?_toBlock hPath hOwner (size_headerOf rfl (by omega)) (by omega)]
    simp only [bind, Except.bind, skip_padTo, hNext, Nat.add_assoc]
  rw [listFrom]
  split <;> simp_all

theorem listFrom_longName {name : Bytes}
    (hFits : position + (blocks (longNameHeader name.length) name).length < Nat.pow 2 64) :
    listFrom .none ⟨blocks (longNameHeader name.length) name ++ rest, none, position⟩ =
      listFrom (longNamed name)
        ⟨rest, none, position + (blocks (longNameHeader name.length) name).length⟩ :=
  listFrom_record (by decide) (length_octalField 0 (by omega)) hFits extended?_longName

/-- A file whose contents have the size that the extensions make of that in its header. -/
theorem listFrom_sized {e : Extensions} {name : Bytes} {size : Nat}
    (hName : name.length ≤ pathWidth) (hGiven : size < Nat.pow 2 64)
    (hSize : e.size (fileHeader name size) = .ok contents.length)
    (hFits : position + (blocks (fileHeader name size) contents).length < Nat.pow 2 64) :
    listFrom e ⟨blocks (fileHeader name size) contents ++ rest, none, position⟩ =
      .member ⟨e.path (fileHeader name size), .regular, .ok size, .ok contents⟩
        (listFrom .none ⟨rest, none,
          position + (blocks (fileHeader name size) contents).length⟩) := by
  have hOwner : (zeros 8).length = 8 := rfl
  have hSized : (fileHeader name size).Sized := headerOf_sized '0' size hName hOwner
  rw [length_blocks hSized] at hFits ⊢
  have hFront : front e ⟨blocks (fileHeader name size) contents ++ rest, none, position⟩ =
      .ok (.member ⟨e.path (fileHeader name size), .regular, .ok size, .ok contents⟩
        (.ok ⟨rest, none, position + (blockSize + wholeBlocks contents.length)⟩)) := by
    rw [fileHeader] at hSize ⊢
    rw [front, blocks, List.append_assoc, header?_toBlock hName hOwner hSize (by omega)]
    have hKind : Kind.ofByte '0'.toUInt8 ≠ .sparse := by decide
    simp only [bind, Except.bind, skip_padTo, extended?_file, kind_headerOf,
      memberOf_file hGiven, if_neg hKind, Nat.add_assoc]
  rw [listFrom]
  split <;> simp_all

theorem listFrom_file {e : Extensions} (hRecords : e.records = none) {name : Bytes}
    (hName : name.length ≤ pathWidth)
    (hFits : position + (blocks (fileHeader name contents.length) contents).length <
      Nat.pow 2 64) :
    listFrom e ⟨blocks (fileHeader name contents.length) contents ++ rest, none, position⟩ =
      .member ⟨e.path (fileHeader name contents.length), .regular, .ok contents.length,
          .ok contents⟩
        (listFrom .none ⟨rest, none,
          position + (blocks (fileHeader name contents.length) contents).length⟩) := by
  have hSized : (fileHeader name contents.length).Sized := headerOf_sized '0' _ hName rfl
  have hLe := le_wholeBlocks contents.length
  have hLength : contents.length < Nat.pow 2 64 := by
    rw [length_blocks hSized] at hFits
    omega
  exact listFrom_sized hName hLength (size_headerOf hRecords hLength) hFits

theorem listFrom_end : listFrom .none ⟨zeros (2 * blockSize), none, position⟩ = .done := by
  have hLength : (zeros blockSize).length = blockSize := List.length_replicate
  have hZeros : zeros (2 * blockSize) = zeros blockSize ++ zeros blockSize := by
    rw [zeros, zeros, List.replicate_append_replicate, Nat.two_mul]
  have hSome : zeros blockSize ≠ [] := List.ne_nil_of_length_pos (by rw [hLength]; decide)
  have hBlock := Stream.block?_append hSome (zeros blockSize) position
  rw [hLength] at hBlock
  have hAll : (zeros blockSize).all (· = 0) = true := by
    simp [zeros]
  have hFront : front .none ⟨zeros (2 * blockSize), none, position⟩ = .ok .ending := by
    simp only [front, header?, hZeros, hBlock, hAll]
    rfl
  rw [listFrom]
  split <;> simp_all

/-- Bytes that are listed as these members, whatever stands behind them. -/
def Lists (bytes : Bytes) (members : List Member) : Prop :=
  ∀ (rest : Bytes) (position : Nat), position + bytes.length < Nat.pow 2 64 →
    listFrom .none ⟨bytes ++ rest, none, position⟩ =
      members.foldr .member (listFrom .none ⟨rest, none, position + bytes.length⟩)

theorem Lists.nil : Lists [] [] := fun _ _ _ => rfl

theorem Lists.append {left right : Bytes} {members more : List Member} (hLeft : Lists left members)
    (hRight : Lists right more) : Lists (left ++ right) (members ++ more) := by
  intro rest position hFits
  rw [List.length_append] at hFits
  rw [List.append_assoc, hLeft _ _ (by omega), hRight _ _ (by omega), List.foldr_append,
    List.length_append, Nat.add_assoc]

end Listing

namespace Pack

/-- The blocks of a file, behind a record with its path where the field has not all of it. -/
def fileBlocks (path name : Bytes) (isCut : Bool) (contents : Bytes) : Bytes :=
  (if isCut then blocks (longNameHeader (path.length + 1)) (path ++ [0]) else []) ++
    blocks (fileHeader name contents.length) contents

/-- What is listed of a file. -/
def fileMember (path contents : Bytes) : Member :=
  ⟨path, .regular, .ok contents.length, .ok contents⟩

theorem path_fileHeader {name : Bytes} (size : Nat) (hZero : 0 ∉ name) :
    (fileHeader name size).path = name := by
  have hSplit : (fileHeader name size).isSplit = false :=
    decide_eq_false (show Header.extendedMagic ≠ Header.splitMagic by decide)
  have hText : Header.text (fileHeader name size).name = name := text_padTo pathWidth hZero
  simp [Header.path, hSplit, hText]

/-- A file whose path fits into its header. -/
theorem lists_whole {path : Bytes} (contents : Bytes) (hPath : path.length ≤ pathWidth)
    (hZero : 0 ∉ path) :
    Listing.Lists (fileBlocks path path false contents) [fileMember path contents] := by
  intro rest position hFits
  have hMember : Extensions.none.path (fileHeader path contents.length) = path :=
    path_fileHeader contents.length hZero
  simp only [fileBlocks, Bool.false_eq_true, if_false, List.nil_append] at hFits ⊢
  rw [Listing.listFrom_file rfl hPath hFits, hMember]
  rfl

/-- A file whose path stands in a record before its header. -/
theorem lists_cut {name : Bytes} (path contents : Bytes) (hName : name.length ≤ pathWidth) :
    Listing.Lists (fileBlocks path name true contents) [fileMember path contents] := by
  intro rest position hFits
  have hRecord : path.length + 1 = (path ++ [0]).length := by simp
  have hMember : (Listing.longNamed (path ++ [0])).path (fileHeader name contents.length) =
      path := by
    simp [Extensions.path, Listing.longNamed]
  simp only [fileBlocks, if_true, hRecord] at hFits ⊢
  generalize path ++ [0] = record at *
  rw [List.length_append] at hFits ⊢
  rw [List.append_assoc, Listing.listFrom_longName (by omega),
    Listing.listFrom_file rfl hName (by omega), hMember, Nat.add_assoc]
  rfl

/-- A file is listed with its path and its contents. -/
theorem lists_fileBlocks {segs : List Bytes} {name : Bytes} {isCut : Bool} (contents : Bytes)
    (hSegs : ∀ s ∈ segs, IsSegment s) (hSome : segs ≠ [])
    (hName : nameField (['/'.toUInt8].intercalate segs) = .ok (name, isCut)) :
    Listing.Lists (fileBlocks (['/'.toUInt8].intercalate segs) name isCut contents)
      [fileMember (['/'.toUInt8].intercalate segs) contents] := by
  obtain ⟨hShort, hWhole, -⟩ := nameField_eq_ok hSegs hSome hName
  cases isCut with
  | false =>
      obtain ⟨rfl, -, hZero⟩ := hWhole rfl
      exact lists_whole contents hShort hZero
  | true => exact lists_cut _ contents hShort

theorem add_eq_ok {pack next : Pack} {path contents : Bytes} (h : pack.add path contents = .ok next) :
    ∃ name isCut, nameField path = .ok (name, isCut) ∧
      next.written.toList = pack.written.toList ++ fileBlocks path name isCut contents := by
  simp only [add, bind, Except.bind] at h
  split at h
  · cases h
  · rename_i found hFound
    obtain ⟨name, isCut⟩ := found
    obtain rfl := Except.ok.inj h
    refine ⟨name, isCut, hFound, ?_⟩
    cases isCut with
    | false => simp [append, fileBlocks]
    | true => simp [append, fileBlocks]

theorem length_le_fileBlocks {name : Bytes} (path contents : Bytes) (isCut : Bool)
    (hName : name.length ≤ pathWidth) :
    contents.length + 1 ≤ (fileBlocks path name isCut contents).length := by
  have hSized : (fileHeader name contents.length).Sized :=
    headerOf_sized '0' contents.length hName List.length_replicate
  have hLe := le_wholeBlocks contents.length
  have hBlock : 0 < blockSize := by decide
  rw [fileBlocks, List.length_append, length_blocks hSized]
  omega

/-- The finished archive reads back as the members that are listed of it. -/
theorem ofStream_finish {pack : Pack} {members : List Member}
    (hLists : Listing.Lists pack.written.toList members)
    (hFits : pack.toArchive.length < Nat.pow 2 64) :
    Listing.ofStream (Gzip.decode pack.finish) = members.foldr .member .done := by
  rw [toArchive, List.length_append] at hFits
  rw [finish, decode_encode, Listing.ofStream, toArchive, hLists _ _ (by omega),
    Listing.listFrom_end]

end Pack

end PolicyBundle.Archive
