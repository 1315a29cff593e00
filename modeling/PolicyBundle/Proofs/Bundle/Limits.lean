import PolicyBundle.Proofs.Archive.Members
import PolicyBundle.Proofs.Bundle.EntryPath
import PolicyBundle.Proofs.Text.Repair

/-! What a reader makes sure of before it returns the files of an archive. The limit on entries, the
kinds of members and the paths hold for every archive. The limit on bytes is asked for the sizes
that the headers give, and the contents may be longer: a record before the header can give another
size. So it holds for an archive, whatever the limits are, exactly if the contents of its files are
together no longer than their headers say. -/

namespace PolicyBundle.Bundle

open Archive Log

/-- The files that a reader makes of members. -/
inductive Unpacks : List Member → List Entry → Prop where
  | nil : Unpacks [] []
  | passOver {m : Member} {members : List Member} {files : List Entry}
      (hKind : treatment m.kind = .passOver) (rest : Unpacks members files) :
      Unpacks (m :: members) files
  | take {m : Member} {members : List Member} {files : List Entry} {path : String}
      {contents : Bytes} {size : Nat} (hKind : treatment m.kind = .take)
      (hPath : entryPath m.path = .ok path) (hSize : m.size = .ok size)
      (hContents : m.contents = .ok contents) (rest : Unpacks members files) :
      Unpacks (m :: members) (⟨path, contents⟩ :: files)

/-- The size that the header of a file gives. Members that are no files count nothing. -/
def declaredSize (m : Member) : Nat :=
  match treatment m.kind with
  | .take => m.size.toOption.getD 0
  | _ => 0

/-- The sizes that the headers of the files among some members give, together. -/
def declared (members : List Member) : Nat :=
  (members.map declaredSize).sum

theorem declared_cons (m : Member) (members : List Member) :
    declared (m :: members) = declaredSize m + declared members := by
  rw [declared, List.map_cons, List.sum_cons, declared]

/-- The length of the contents of some files. -/
def totalLength (files : List Entry) : Nat :=
  (files.map (·.contents.length)).sum

/-- What a reader does with the first member of a listing. -/
theorem entriesFrom_member_eq_ok_iff {options : ReadOptions} {count total : Nat} {m : Member}
    {rest : Listing} {files : List Entry} :
    entriesFrom options count total (.member m rest) = .ok files ↔
      count + 1 ≤ options.maxEntries ∧
        ((treatment m.kind = .passOver ∧ entriesFrom options (count + 1) total rest = .ok files) ∨
          ∃ path size contents more, treatment m.kind = .take ∧ entryPath m.path = .ok path ∧
            m.size = .ok size ∧ min (total + size) maxSize ≤ options.maxBytes ∧
            m.contents = .ok contents ∧
            entriesFrom options (count + 1) (min (total + size) maxSize) rest = .ok more ∧
            files = ⟨path, contents⟩ :: more) := by
  rw [entriesFrom]
  by_cases hCount : count + 1 > options.maxEntries
  · simp only [hCount, if_true]
    refine ⟨nofun, fun h => absurd h.1 (by omega)⟩
  · simp only [hCount, if_false]
    rw [and_iff_right (Nat.not_lt.mp hCount)]
    cases hKind : treatment m.kind with
    | refuse => simp
    | passOver => simp
    | take =>
        simp only [reduceCtorEq, false_and, false_or, true_and]
        constructor
        · intro h
          obtain ⟨path, hPath, h⟩ := bind_eq_ok h
          obtain ⟨size, hSize, h⟩ := bind_eq_ok h
          split at h
          · cases h
          · rename_i hSmall
            obtain ⟨contents, hContents, h⟩ := bind_eq_ok h
            obtain ⟨more, hMore, h⟩ := bind_eq_ok h
            exact ⟨path, size, contents, more, hPath, mapError_eq_ok hSize, Nat.not_lt.mp hSmall,
              mapError_eq_ok hContents, hMore, (Except.ok.inj h).symm⟩
        · rintro ⟨path, size, contents, more, hPath, hSize, hSmall, hContents, hMore, rfl⟩
          simp only [hPath, hSize, hContents, hMore, mapError_ok, bind, Except.bind,
            if_neg (Nat.not_lt.mpr hSmall)]

/-- A reader gets the files of a listing exactly if it reaches the end of the archive within the
limits and all its members are read. -/
theorem entriesFrom_eq_ok_iff {options : ReadOptions} {count total : Nat}
    (hCount : count ≤ options.maxEntries) (hTotal : total ≤ options.maxBytes)
    {listing : Listing} {files : List Entry} :
    entriesFrom options count total listing = .ok files ↔
      listing.isWhole = true ∧ count + listing.members.length ≤ options.maxEntries ∧
        min (total + declared listing.members) maxSize ≤ options.maxBytes ∧
        Unpacks listing.members files := by
  induction listing generalizing count total files with
  | done =>
      have hMin : min total maxSize ≤ options.maxBytes := Nat.le_trans (Nat.min_le_left _ _) hTotal
      constructor
      · intro h
        cases h
        exact ⟨rfl, hCount, hMin, .nil⟩
      · rintro ⟨-, -, -, hUnpacks⟩
        cases hUnpacks
        rfl
  | broken fault => simp [entriesFrom, Listing.isWhole]
  | member m rest ih =>
      rw [entriesFrom_member_eq_ok_iff]
      simp only [Listing.isWhole, Listing.members, List.length_cons, declared_cons]
      constructor
      · rintro ⟨hMore, ⟨hKind, hRest⟩ | ⟨path, size, contents, more, hKind, hPath, hSize, hSmall,
          hContents, hRest, rfl⟩⟩
        · obtain ⟨hWhole, hEntries, hBytes, hUnpacks⟩ := (ih hMore hTotal).mp hRest
          refine ⟨hWhole, by omega, ?_, .passOver hKind hUnpacks⟩
          simpa [declaredSize, hKind] using hBytes
        · obtain ⟨hWhole, hEntries, hBytes, hUnpacks⟩ := (ih hMore hSmall).mp hRest
          refine ⟨hWhole, by omega, ?_, .take hKind hPath hSize hContents hUnpacks⟩
          simp only [declaredSize, hKind, hSize, Except.toOption, Option.getD_some]
          omega
      · rintro ⟨hWhole, hEntries, hBytes, hUnpacks⟩
        have hMore : count + 1 ≤ options.maxEntries := by omega
        refine ⟨hMore, ?_⟩
        cases hUnpacks with
        | passOver hKind hUnpacks =>
            simp only [declaredSize, hKind, Nat.zero_add] at hBytes
            exact .inl ⟨hKind, (ih hMore hTotal).mpr ⟨hWhole, by omega, hBytes, hUnpacks⟩⟩
        | take hKind hPath hSize hContents hUnpacks =>
            simp only [declaredSize, hKind, hSize, Except.toOption, Option.getD_some] at hBytes
            refine .inr ⟨_, _, _, _, hKind, hPath, hSize, ?_, hContents, (ih hMore ?_).mpr
              ⟨hWhole, by omega, ?_, hUnpacks⟩, rfl⟩ <;> omega

/-- The members of an archive. -/
def membersOf (bytes : Bytes) : List Member :=
  (Listing.ofStream (Gzip.decode bytes)).members

theorem readEntries_eq_ok_iff {options : ReadOptions} {bytes : Bytes} {files : List Entry} :
    readEntries options bytes = .ok files ↔
      (Listing.ofStream (Gzip.decode bytes)).isWhole = true ∧
        (membersOf bytes).length ≤ options.maxEntries ∧
        min (declared (membersOf bytes)) maxSize ≤ options.maxBytes ∧
        Unpacks (membersOf bytes) files := by
  rw [readEntries, entriesFrom_eq_ok_iff (Nat.zero_le _) (Nat.zero_le _), Nat.zero_add, Nat.zero_add]
  rfl

/-- The kinds of members that are neither links nor devices nor other special files: files,
directories, and records about other members. -/
def plainKinds : List Kind :=
  [.regular, .continuous, .directory, .extensions, .globalExtensions, .longName]

/-- A path that stays in the directory it is taken from: its segments have no slashes, and none is
empty or leads to the directory itself or to its parent. -/
def StaysInside (path : String) : Prop :=
  Text.startsWith path "/" = false ∧ ∃ segments, path = Text.join "/" segments ∧
    ∀ segment ∈ segments, segment ≠ "" ∧ segment ≠ "." ∧ segment ≠ ".." ∧ '/' ∉ segment.toList

theorem mem_plainKinds {kind : Kind} (h : treatment kind ≠ .refuse) : kind ∈ plainKinds := by
  cases kind <;> first
    | exact absurd rfl h
    | simp [plainKinds]

theorem startsWith_slash_join {segments : List String}
    (h : ∀ segment ∈ segments, segment ≠ "" ∧ '/' ∉ segment.toList) :
    Text.startsWith (Text.join "/" segments) "/" = false := by
  cases segments with
  | nil => rfl
  | cons first rest =>
      obtain ⟨hSome, hSlash⟩ := h first List.mem_cons_self
      cases hChars : first.toList with
      | nil => exact absurd (String.toList_eq_nil_iff.mp hChars) hSome
      | cons c chars =>
          rw [hChars] at hSlash
          have hFirst : '/' ≠ c := fun hEq => hSlash (hEq ▸ List.mem_cons_self)
          have hJoin : ∃ behind, (Text.join "/" (first :: rest)).toList = c :: behind := by
            rw [Text.join, String.toList_ofList, List.map_cons, hChars]
            cases rest with
            | nil => exact ⟨chars, by simp⟩
            | cons next rest => exact ⟨_, by rw [List.map_cons, List.intercalate_cons_cons]; rfl⟩
          obtain ⟨behind, hBehind⟩ := hJoin
          have hStart : "/".toList = ['/'] := rfl
          rw [Text.startsWith, hBehind, hStart]
          simp [List.isPrefixOf, hFirst]

/-- A path that a reader takes is joined from the pieces of what stands in the archive. -/
theorem entryPath_eq_ok {path : Bytes} {name : String} (h : entryPath path = .ok name) :
    ∃ pieces : List Bytes, name = Text.join "/" (pieces.map Text.ofUtf8Lossy) ∧
      ∀ piece ∈ pieces, piece ∈ path.splitOn '/'.toUInt8 ∧ piece ≠ [] ∧ piece ≠ ['.'.toUInt8] ∧
        piece ≠ ['.'.toUInt8, '.'.toUInt8] := by
  simp only [entryPath, entrySegments?] at h
  split at h
  · rename_i segments hSegments
    cases h
    split at hSegments
    · cases hSegments
    · rename_i hParent
      cases hSegments
      rw [List.contains_iff_mem] at hParent
      refine ⟨_, rfl, fun piece hPiece => ?_⟩
      obtain ⟨hSplit, hProper⟩ := List.mem_filter.mp hPiece
      simp only [Bool.and_eq_true, decide_eq_true_eq] at hProper
      exact ⟨hSplit, hProper.1, hProper.2, fun hEq => hParent (hEq ▸ hPiece)⟩
  · cases h

/-- A path that a reader takes stays inside, also where its bytes are no text. -/
theorem staysInside_of_entryPath {path : Bytes} {name : String} (h : entryPath path = .ok name) :
    StaysInside name := by
  obtain ⟨pieces, rfl, hPieces⟩ := entryPath_eq_ok h
  have hInside : ∀ segment ∈ pieces.map Text.ofUtf8Lossy,
      segment ≠ "" ∧ segment ≠ "." ∧ segment ≠ ".." ∧ '/' ∉ segment.toList := by
    intro segment hSegment
    obtain ⟨piece, hPiece, rfl⟩ := List.mem_map.mp hSegment
    obtain ⟨hSplit, hSome, hNotDot, hNotParent⟩ := hPieces piece hPiece
    refine ⟨fun hEq => hSome ?_, fun hEq => hNotDot ?_, fun hEq => hNotParent ?_, fun hMem => ?_⟩
    · exact Text.eq_utf8_of_ofUtf8Lossy (by simp) hEq
    · exact Text.eq_utf8_of_ofUtf8Lossy (by simp) hEq
    · exact Text.eq_utf8_of_ofUtf8Lossy (by simp) hEq
    · exact Text.notMem_of_mem_splitOn hSplit
        (Text.mem_of_mem_ofUtf8Lossy (by decide) (by decide) hMem)
  exact ⟨startsWith_slash_join fun s hs => ⟨(hInside s hs).1, (hInside s hs).2.2.2⟩, _, rfl,
    hInside⟩

theorem Unpacks.kinds {members : List Member} {files : List Entry} (h : Unpacks members files) :
    ∀ m ∈ members, m.kind ∈ plainKinds := by
  induction h with
  | nil => simp
  | passOver hKind rest ih =>
      exact List.forall_mem_cons.mpr ⟨mem_plainKinds (by rw [hKind]; nofun), ih⟩
  | take hKind hPath hSize hContents rest ih =>
      exact List.forall_mem_cons.mpr ⟨mem_plainKinds (by rw [hKind]; nofun), ih⟩

theorem Unpacks.paths {members : List Member} {files : List Entry} (h : Unpacks members files) :
    ∀ f ∈ files, StaysInside f.path := by
  induction h with
  | nil => simp
  | passOver hKind rest ih => exact ih
  | take hKind hPath hSize hContents rest ih =>
      exact List.forall_mem_cons.mpr ⟨staysInside_of_entryPath hPath, ih⟩

theorem Unpacks.totalLength_le {members : List Member} {files : List Entry}
    (h : Unpacks members files) : totalLength files ≤ (members.map Member.length).sum := by
  induction h with
  | nil => exact Nat.le_refl _
  | passOver hKind rest ih =>
      rw [List.map_cons, List.sum_cons]
      omega
  | take hKind hPath hSize hContents rest ih =>
      simp only [totalLength, List.map_cons, List.sum_cons, Member.length, hContents] at ih ⊢
      omega

/-- The contents that are read of an archive can be counted in 64 bits. -/
theorem totalLength_le_maxSize {options : ReadOptions} {bytes : Bytes} {files : List Entry}
    (h : readEntries options bytes = .ok files) : totalLength files ≤ maxSize := by
  obtain ⟨hWhole, -, -, hUnpacks⟩ := readEntries_eq_ok_iff.mp h
  have hSum := Listing.sum_length_lt .none (Gzip.decode bytes)
    (by rw [Gzip.position_decode]; decide) hWhole
  have hTotal : totalLength files ≤
      ((Listing.listFrom .none (Gzip.decode bytes)).members.map Member.length).sum :=
    hUnpacks.totalLength_le
  rw [maxSize]
  omega

/-- What a reader makes sure of for every archive: the number of its members, their kinds, the paths
of its files and the sizes in their headers. -/
structure Checked (options : ReadOptions) (bytes : Bytes) (files : List Entry) : Prop where
  count : (membersOf bytes).length ≤ options.maxEntries
  kinds : ∀ m ∈ membersOf bytes, m.kind ∈ plainKinds
  paths : ∀ f ∈ files, StaysInside f.path
  sizes : min (declared (membersOf bytes)) maxSize ≤ options.maxBytes

theorem checked_of_readEntries {options : ReadOptions} {bytes : Bytes} {files : List Entry}
    (h : readEntries options bytes = .ok files) : Checked options bytes files := by
  obtain ⟨-, hCount, hSizes, hUnpacks⟩ := readEntries_eq_ok_iff.mp h
  exact ⟨hCount, hUnpacks.kinds, hUnpacks.paths, hSizes⟩

/-- A reader checks every archive, and it keeps to its limit on bytes for all limits exactly if the
contents of the files are together no longer than their headers say. -/
theorem readEntries_keepsLimits_iff (bytes : Bytes) :
    (∀ options files, readEntries options bytes = .ok files → Checked options bytes files) ∧
    ((∀ options files, readEntries options bytes = .ok files →
        totalLength files ≤ options.maxBytes) ↔
      ∀ options files, readEntries options bytes = .ok files →
        totalLength files ≤ declared (membersOf bytes)) := by
  refine ⟨fun options files => checked_of_readEntries, fun hKeeps options files h => ?_,
    fun hShort options files h => ?_⟩
  · -- the same archive is read within a limit that is just what the headers say
    obtain ⟨hWhole, hCount, -, hUnpacks⟩ := readEntries_eq_ok_iff.mp h
    exact hKeeps { options with maxBytes := declared (membersOf bytes) } files
      (readEntries_eq_ok_iff.mpr ⟨hWhole, hCount, Nat.min_le_left _ _, hUnpacks⟩)
  · have hSizes := (checked_of_readEntries h).sizes
    have hTotal := hShort options files h
    have hCounted := totalLength_le_maxSize h
    omega

/-- An archive of a file of two bytes. Its header says that it is empty, and a record in front of it
gives the size that it has. -/
def recordedLonger : Bytes :=
  Gzip.encode (Pack.blocks (Pack.headerOf (Text.utf8 "x") (Pack.zeros 8) 'x' 9)
      (Text.utf8 "9 size=2\n") ++
    Pack.blocks (Pack.fileHeader (Text.utf8 "a") 0) [98, 98] ++ Pack.zeros (2 * blockSize))

theorem ofStream_recordedLonger : Listing.ofStream (Gzip.decode recordedLonger) =
    .member ⟨Text.utf8 "a", .regular, .ok 0, .ok [98, 98]⟩ .done := by
  have hOwner : (Pack.zeros 8).length = 8 := rfl
  have hFirst : (Pack.headerOf (Text.utf8 "x") (Pack.zeros 8) 'x' 9).Sized :=
    Pack.headerOf_sized 'x' 9 (by decide) hOwner
  have hSecond : (Pack.fileHeader (Text.utf8 "a") 0).Sized :=
    Pack.headerOf_sized '0' 0 (by decide) hOwner
  have hBlocks : ∀ length, length ≤ 9 → blockSize + wholeBlocks length ≤ 1024 := by decide
  have hLarge : 2048 < Nat.pow 2 64 := by decide
  have hRecord : (Text.utf8 "9 size=2\n").length = 9 := by decide
  have hShort := hBlocks 9 (by decide)
  have hContents := hBlocks ([98, 98] : Bytes).length (by decide)
  have hSize : Extensions.recordedSize? (Text.utf8 "9 size=2\n") = some 2 := by decide +kernel
  have hPath : (Listing.recorded (Text.utf8 "9 size=2\n")).path
      (Pack.fileHeader (Text.utf8 "a") 0) = Text.utf8 "a" := by
    have hNone : Extensions.recordedPath? (Text.utf8 "9 size=2\n") = none := by decide +kernel
    have hHeader : (Pack.fileHeader (Text.utf8 "a") 0).path = Text.utf8 "a" :=
      Pack.path_fileHeader 0 (by decide)
    simp only [Extensions.path, Listing.recorded, Extensions.none, Option.bind_some, hNone,
      Option.getD_none, hHeader]
  rw [recordedLonger, decode_encode, Listing.ofStream, List.append_assoc, ← hRecord,
    Listing.listFrom_record (by decide) hOwner ?_ Listing.extended?_records,
    Listing.listFrom_sized (by decide) (by decide) (Listing.size_recorded (by decide) hSize) ?_,
    Listing.listFrom_end, hPath]
  · rw [hRecord, Pack.length_blocks hFirst, Pack.length_blocks hSecond, hRecord]
    omega
  · rw [hRecord, Pack.length_blocks hFirst, hRecord]
    omega

/-- The limit on bytes is one byte, and a file of two bytes is read. -/
theorem not_totalLength_le_recordedLonger :
    ¬∀ files, readEntries ⟨true, .v1, 1, 1⟩ recordedLonger = .ok files → totalLength files ≤ 1 := by
  intro h
  have hEntries : readEntries ⟨true, .v1, 1, 1⟩ recordedLonger = .ok [⟨"a", [98, 98]⟩] := by
    rw [readEntries, ofStream_recordedLonger]
    decide +kernel
  exact absurd (h _ hEntries) (by decide)

end PolicyBundle.Bundle
