import PolicyBundle.Proofs.Archive.Unpacking

/-! A path without zero bytes and without parent segments is always written, however long it is: the
part of it that the field of a header has is cut inside one segment only, and all segments in front
of the cut are segments of the path. -/

namespace PolicyBundle

namespace Text

variable {α : Type}

/-- All pieces of the beginning of a text but the last one are the first pieces of the text. -/
theorem dropLast_splitOn_prefix [DecidableEq α] (separator : α) (front rest : List α) :
    (front.splitOn separator).dropLast <+: (front ++ rest).splitOn separator := by
  induction front with
  | nil => simp
  | cons c front ih =>
      obtain ⟨first, pieces, hPieces⟩ :=
        List.exists_cons_of_ne_nil (List.splitOn_ne_nil separator front)
      rw [hPieces] at ih
      rw [List.cons_append, List.splitOn_cons_eq_if_modifyHead,
        List.splitOn_cons_eq_if_modifyHead, hPieces]
      split
      · rw [List.dropLast_cons_of_ne_nil (by simp), List.prefix_cons_inj]
        exact ih
      · rw [List.modifyHead_cons]
        cases pieces with
        | nil => simp
        | cons second pieces =>
            rw [List.dropLast_cons_of_ne_nil (by simp)] at ih ⊢
            obtain ⟨more, hMore⟩ := ih
            rw [← hMore, List.cons_append, List.modifyHead_cons, List.prefix_cons_inj]
            exact List.prefix_append _ _

/-- What is in a piece of a text is in the text. -/
theorem mem_of_mem_splitOn [DecidableEq α] {separator a : α} {text piece : List α}
    (hPiece : piece ∈ text.splitOn separator) (h : a ∈ piece) : a ∈ text := by
  obtain ⟨first, rest, hPieces⟩ :=
    List.exists_cons_of_ne_nil (List.splitOn_ne_nil separator text)
  have hText : [separator].intercalate (text.splitOn separator) = text :=
    List.intercalate_splitOn separator
  rw [← hText, hPieces, intercalate_cons]
  rw [hPieces] at hPiece
  rcases List.mem_cons.mp hPiece with rfl | hPiece
  · exact List.mem_append_left _ h
  · exact List.mem_append_right _ (List.mem_flatMap.mpr ⟨piece, hPiece, List.mem_cons_of_mem _ h⟩)

theorem length_intercalate_filter_le (separator : α) (keep : List α → Bool)
    (pieces : List (List α)) : ([separator].intercalate (pieces.filter keep)).length ≤
      ([separator].intercalate pieces).length := by
  have hBehind (pieces : List (List α)) :
      ((pieces.filter keep).flatMap (separator :: ·)).length ≤
        (pieces.flatMap (separator :: ·)).length := by
    induction pieces with
    | nil => exact Nat.le_refl _
    | cons piece pieces ih =>
        rw [List.filter_cons]
        split
        · simp only [List.flatMap_cons, List.length_append]
          exact Nat.add_le_add_left ih _
        · rw [List.flatMap_cons, List.length_append]
          exact Nat.le_add_left_of_le ih
  induction pieces with
  | nil => exact Nat.le_refl _
  | cons piece pieces ih =>
      rw [intercalate_cons, List.length_append]
      rw [List.filter_cons]
      split
      · rw [intercalate_cons, List.length_append]
        exact Nat.add_le_add_left (hBehind pieces) _
      · refine Nat.le_trans ih ?_
        cases pieces with
        | nil => simp
        | cons next pieces =>
            rw [intercalate_cons]
            simp only [List.flatMap_cons, List.length_append, List.length_cons]
            omega

end Text

namespace Archive.Pack

theorem boundary_le (text : Bytes) (length : Nat) : boundary text length ≤ length := by
  induction length with
  | zero => exact Nat.le_refl 0
  | succ length ih =>
      rw [boundary]
      split
      · exact Nat.le_succ_of_le ih
      · exact Nat.le_refl _

theorem addPiece_of_le {written piece : Bytes} (hRoom : written.length + piece.length ≤ pathWidth)
    (hZero : 0 ∉ piece) : addPiece written piece = .ok (written ++ piece) := by
  rw [addPiece, if_neg (Nat.not_lt.mpr hRoom), if_neg (by simpa using hZero)]

/-- Segments among which only the last one may be a parent segment, and that only where it is cut. -/
def Writable (cut : Bool) (segs : List Bytes) : Prop :=
  ∀ rest, parentSegment :: rest <:+ segs → cut = true ∧ rest = []

theorem Writable.tail {cut : Bool} {segment : Bytes} {segs : List Bytes}
    (h : Writable cut (segment :: segs)) : Writable cut segs :=
  fun rest hRest => h rest (hRest.trans (List.suffix_cons segment segs))

/-- What is written with a segment behind it. -/
def joined (written segment : Bytes) : Bytes :=
  if written.isEmpty then segment else written ++ '/'.toUInt8 :: segment

theorem joined_nil (segment : Bytes) : joined [] segment = segment := rfl

theorem joined_of_ne_nil {written : Bytes} (h : written ≠ []) (segment : Bytes) :
    joined written segment = written ++ '/'.toUInt8 :: segment :=
  if_neg (by simpa using h)

/-- A segment is written behind others where there is room for it. -/
theorem addSegments_next {cut : Bool} {written segment : Bytes} {segs : List Bytes}
    (hWritable : Writable cut (segment :: segs)) (hZero : 0 ∉ segment)
    (hRoom : (joined written segment).length ≤ pathWidth) :
    addSegments cut written (segment :: segs) = addSegments cut (joined written segment) segs := by
  have hProper : ¬(segment = parentSegment && !(cut && segs.isEmpty)) = true := by
    intro hRefused
    simp only [Bool.and_eq_true, decide_eq_true_eq, Bool.not_eq_true'] at hRefused
    obtain ⟨rfl, hRefused⟩ := hRefused
    obtain ⟨rfl, rfl⟩ := hWritable segs (List.suffix_refl _)
    simp at hRefused
  rw [addSegments, if_neg hProper]
  by_cases hWritten : written = []
  · subst hWritten
    simp only [joined_nil] at hRoom ⊢
    have hPiece : addPiece [] segment = .ok ([] ++ segment) :=
      addPiece_of_le (by simpa using hRoom) hZero
    simp only [List.isEmpty_nil, if_true, hPiece, bind, Except.bind, List.nil_append]
  · rw [joined_of_ne_nil hWritten] at hRoom ⊢
    simp only [List.length_append, List.length_cons] at hRoom
    have hSlash : addPiece written ['/'.toUInt8] = .ok (written ++ ['/'.toUInt8]) :=
      addPiece_of_le (by simp only [List.length_singleton]; omega) (by decide)
    have hPiece : addPiece (written ++ ['/'.toUInt8]) segment =
        .ok (written ++ ['/'.toUInt8] ++ segment) :=
      addPiece_of_le (by simp only [List.length_append, List.length_singleton]; omega) hZero
    have hNotEmpty : ¬written.isEmpty = true := by simpa using hWritten
    simp only [if_neg hNotEmpty, hSlash, hPiece, bind, Except.bind, List.append_assoc,
      List.singleton_append]

/-- Segments are written behind others where there is room for all of them. -/
theorem addSegments_behind {cut : Bool} {written : Bytes} (hWritten : written ≠ [])
    {segs : List Bytes} (hWritable : Writable cut segs) (hZero : ∀ s ∈ segs, 0 ∉ s)
    (hRoom : (written ++ segs.flatMap ('/'.toUInt8 :: ·)).length ≤ pathWidth) :
    addSegments cut written segs = .ok (written ++ segs.flatMap ('/'.toUInt8 :: ·)) := by
  induction segs generalizing written with
  | nil => simp [addSegments]
  | cons segment segs ih =>
      have hWhole : written ++ (segment :: segs).flatMap ('/'.toUInt8 :: ·) =
          joined written segment ++ segs.flatMap ('/'.toUInt8 :: ·) := by
        simp [joined_of_ne_nil hWritten]
      rw [hWhole] at hRoom ⊢
      have hFirst : (joined written segment).length ≤ pathWidth := by
        rw [List.length_append] at hRoom
        omega
      rw [addSegments_next hWritable (hZero segment List.mem_cons_self) hFirst]
      exact ih (by simp [joined_of_ne_nil hWritten]) hWritable.tail
        (fun s hs => hZero s (List.mem_cons_of_mem _ hs)) hRoom

/-- Segments are written where there is room for their join. -/
theorem addSegments_eq_intercalate {cut : Bool} {segs : List Bytes} (hNonempty : ∀ s ∈ segs, s ≠ [])
    (hWritable : Writable cut segs) (hZero : ∀ s ∈ segs, 0 ∉ s)
    (hRoom : (['/'.toUInt8].intercalate segs).length ≤ pathWidth) :
    addSegments cut [] segs = .ok (['/'.toUInt8].intercalate segs) := by
  cases segs with
  | nil => rfl
  | cons segment segs =>
      rw [Text.intercalate_cons] at hRoom ⊢
      have hFirst : (joined [] segment).length ≤ pathWidth := by
        rw [List.length_append] at hRoom
        rw [joined_nil]
        omega
      rw [addSegments_next hWritable (hZero segment List.mem_cons_self) hFirst, joined_nil]
      exact addSegments_behind (hNonempty segment List.mem_cons_self) hWritable.tail
        (fun s hs => hZero s (List.mem_cons_of_mem _ hs)) hRoom

/-- The segments of a text need no more room than the text. -/
theorem length_segments_le (text : Bytes) :
    (['/'.toUInt8].intercalate (segments text)).length ≤ text.length := by
  have hFilter := Text.length_intercalate_filter_le '/'.toUInt8
    (fun s => !s.isEmpty && s ≠ ['.'.toUInt8]) (text.splitOn '/'.toUInt8)
  rwa [List.intercalate_splitOn] at hFilter

theorem segments_slash (text : Bytes) : segments (text ++ ['/'.toUInt8]) = segments text := by
  rw [segments, List.splitOn_append_cons_self, List.splitOn_nil, List.filter_append]
  simp [segments]

/-- The field for a text of segments that can be written. -/
theorem pathField_of_writable {cut : Bool} {text : Bytes} (hWritable : Writable cut (segments text))
    (hZero : 0 ∉ text) (hRoom : text.length ≤ pathWidth) :
    ∃ name, pathField cut text = .ok name := by
  have hNonempty : ∀ s ∈ segments text, s ≠ [] := by
    intro s hs
    have hKept := (List.mem_filter.mp hs).2
    simp only [Bool.and_eq_true, Bool.not_eq_true', List.isEmpty_eq_false_iff] at hKept
    exact hKept.1
  have hZeros : ∀ s ∈ segments text, 0 ∉ s := by
    intro s hs hMem
    exact hZero (Text.mem_of_mem_splitOn (List.mem_of_mem_filter hs) hMem)
  have hLength := length_segments_le text
  have hWritten := addSegments_eq_intercalate hNonempty hWritable hZeros
    (Nat.le_trans hLength hRoom)
  simp only [pathField, hWritten, bind, Except.bind]
  split
  · rename_i hSlash
    obtain ⟨front, rfl⟩ := List.getLast?_eq_some_iff.mp hSlash
    have hFront := length_segments_le front
    rw [segments_slash]
    rw [List.length_append, List.length_singleton] at hRoom
    exact ⟨_, addPiece_of_le (by rw [List.length_singleton]; omega) (by decide)⟩
  · exact ⟨_, rfl⟩

/-- What is cut off a path of proper segments can be written. -/
theorem writable_segments_take {segs : List Bytes} (hSegs : ∀ s ∈ segs, IsSegment s)
    (hSome : segs ≠ []) (hParent : parentSegment ∉ segs) (length : Nat) :
    Writable true (segments ((['/'.toUInt8].intercalate segs).take length)) := by
  intro rest hSuffix
  refine ⟨rfl, ?_⟩
  have hSplit := List.splitOn_intercalate '/'.toUInt8 (fun s hs => (hSegs s hs).noSlash) hSome
  have hPrefix := Text.dropLast_splitOn_prefix '/'.toUInt8
    ((['/'.toUInt8].intercalate segs).take length) ((['/'.toUInt8].intercalate segs).drop length)
  rw [List.take_append_drop, hSplit] at hPrefix
  rw [segments] at hSuffix
  have hPieces := List.splitOn_ne_nil '/'.toUInt8 ((['/'.toUInt8].intercalate segs).take length)
  generalize ((['/'.toUInt8].intercalate segs).take length).splitOn '/'.toUInt8 = pieces at *
  rw [← List.dropLast_append_getLast hPieces, List.filter_append] at hSuffix
  -- Only the last piece is not a segment of the path.
  by_contra hRest
  have hFront : parentSegment ∈ (pieces.dropLast.filter
      fun s => !s.isEmpty && s ≠ ['.'.toUInt8]) := by
    obtain ⟨front, hWhole⟩ := hSuffix
    rw [List.filter_singleton, cond_eq_ite] at hWhole
    split at hWhole
    · have hBut := congrArg List.dropLast hWhole
      rw [List.dropLast_concat, List.dropLast_append_of_ne_nil (by simp),
        List.dropLast_cons_of_ne_nil hRest] at hBut
      rw [← hBut]
      simp
    · rw [List.append_nil] at hWhole
      rw [← hWhole]
      simp
  exact hParent (hPrefix.subset (List.mem_of_mem_filter hFront))

/-- A path without zero bytes and parent segments has a field, however long it is. -/
theorem exists_nameField {segs : List Bytes} (hSegs : ∀ s ∈ segs, IsSegment s) (hSome : segs ≠ [])
    (hParent : parentSegment ∉ segs) (hZero : 0 ∉ ['/'.toUInt8].intercalate segs) :
    ∃ name isCut, nameField (['/'.toUInt8].intercalate segs) = .ok (name, isCut) := by
  rw [nameField]
  cases hWhole : pathField false (['/'.toUInt8].intercalate segs) with
  | ok name => exact ⟨name, false, rfl⟩
  | error e =>
      have hLong : ¬(['/'.toUInt8].intercalate segs).length ≤ pathWidth := by
        intro hShort
        have hWritable : Writable false (segments (['/'.toUInt8].intercalate segs)) := by
          rw [segments_intercalate hSegs hSome]
          exact fun rest hRest => absurd (hRest.subset List.mem_cons_self) hParent
        obtain ⟨name, hName⟩ := pathField_of_writable hWritable hZero hShort
        rw [hName] at hWhole
        cases hWhole
      have hFits : ((['/'.toUInt8].intercalate segs).take
          (boundary (['/'.toUInt8].intercalate segs) pathWidth)).length ≤ pathWidth := by
        rw [List.length_take]
        exact Nat.le_trans (Nat.min_le_left _ _) (boundary_le _ _)
      obtain ⟨name, hName⟩ := pathField_of_writable
        (writable_segments_take hSegs hSome hParent _)
        (fun hMem => hZero (List.mem_of_mem_take hMem)) hFits
      refine ⟨name, true, ?_⟩
      have hNotShort : ¬(['/'.toUInt8].intercalate segs).length < pathWidth := by omega
      simp only [if_neg hNotShort, hName, Except.map]

theorem length_fileBlocks_le {name : Bytes} (path contents : Bytes) (isCut : Bool)
    (hName : name.length ≤ pathWidth) :
    (fileBlocks path name isCut contents).length ≤
      2 * blockSize + wholeBlocks (path.length + 1) + wholeBlocks contents.length := by
  have hFile : (fileHeader name contents.length).Sized :=
    headerOf_sized '0' contents.length hName List.length_replicate
  have hRecord : (longNameHeader (path.length + 1)).Sized :=
    headerOf_sized 'L' _ (by decide) (length_octalField 0 (by omega))
  have hZero : (path ++ [(0 : UInt8)]).length = path.length + 1 := by simp
  rw [fileBlocks, List.length_append, length_blocks hFile]
  cases isCut with
  | false =>
      simp only [Bool.false_eq_true, if_false, List.length_nil]
      omega
  | true =>
      rw [if_pos rfl, length_blocks hRecord, hZero]
      omega

/-- The room that a file needs at most. -/
def room (path contents : Bytes) : Nat :=
  2 * blockSize + wholeBlocks (path.length + 1) + wholeBlocks contents.length

/-- A file that is added takes no more than its room. -/
theorem size_add_le {pack next : Pack} {segs : List Bytes} (hSegs : ∀ s ∈ segs, IsSegment s)
    (hSome : segs ≠ []) {contents : Bytes}
    (hAdd : pack.add (['/'.toUInt8].intercalate segs) contents = .ok next) :
    next.written.size ≤ pack.written.size + room (['/'.toUInt8].intercalate segs) contents := by
  obtain ⟨name, isCut, hName, hWritten⟩ := add_eq_ok hAdd
  have hBlocks := length_fileBlocks_le (['/'.toUInt8].intercalate segs) contents isCut
    (nameField_eq_ok hSegs hSome hName).1
  rw [← Array.length_toList, hWritten, List.length_append, Array.length_toList]
  exact Nat.add_le_add_left hBlocks _

/-- A file with a path without zero bytes and parent segments is added. -/
theorem exists_add (pack : Pack) {segs : List Bytes} (hSegs : ∀ s ∈ segs, IsSegment s)
    (hSome : segs ≠ []) (hParent : parentSegment ∉ segs)
    (hZero : 0 ∉ ['/'.toUInt8].intercalate segs) (contents : Bytes) :
    ∃ next, pack.add (['/'.toUInt8].intercalate segs) contents = .ok next := by
  obtain ⟨name, isCut, hName⟩ := exists_nameField hSegs hSome hParent hZero
  rw [add, hName]
  exact ⟨_, rfl⟩

end Archive.Pack

end PolicyBundle
