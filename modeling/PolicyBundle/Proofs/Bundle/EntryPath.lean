import PolicyBundle.Bundle.Reader
import PolicyBundle.Bundle.Writer
import PolicyBundle.Proofs.Archive.Paths
import PolicyBundle.Proofs.Text.Pieces
import PolicyBundle.Proofs.Text.Utf8

/-! Names of entries. The normalized form of a path is a join of proper segments, so an archive takes
it as it is and a reader finds it again; and it is the name of a module where the path is one. -/

namespace PolicyBundle

namespace Text

theorem notMem_of_mem_splitOn {α : Type} [DecidableEq α] {separator : α} {text piece : List α}
    (h : piece ∈ text.splitOn separator) : separator ∉ piece := by
  induction text generalizing piece with
  | nil =>
      rw [List.splitOn_nil, List.mem_singleton] at h
      simp [h]
  | cons c text ih =>
      rw [List.splitOn_cons_eq_if_modifyHead] at h
      split at h
      · rcases List.mem_cons.mp h with rfl | h
        · exact List.not_mem_nil
        · exact ih h
      · rename_i hNe
        obtain ⟨first, rest, hPieces⟩ :=
          List.exists_cons_of_ne_nil (List.splitOn_ne_nil separator text)
        rw [hPieces, List.modifyHead_cons] at h
        rcases List.mem_cons.mp h with rfl | h
        · have hFirst := ih (hPieces ▸ List.mem_cons_self)
          have hOther : separator ≠ c := fun hEq => hNe (by simp [hEq])
          simp [hFirst, hOther]
        · exact ih (hPieces ▸ List.mem_cons_of_mem _ h)

/-- The last piece of a text ends as the text does, where the ending has no separator. -/
theorem splitOn_append_ending {separator : Char} (front : List Char) {ending : List Char}
    (hEnding : separator ∉ ending) :
    ∃ pieces last, (front ++ ending).splitOn separator = pieces ++ [last] ∧ ending <:+ last := by
  induction front with
  | nil => exact ⟨[], ending, List.splitOn_eq_singleton hEnding, List.suffix_refl ending⟩
  | cons c front ih =>
      obtain ⟨pieces, last, hPieces, hSuffix⟩ := ih
      rw [List.cons_append, List.splitOn_cons_eq_if_modifyHead, hPieces]
      split
      · exact ⟨[] :: pieces, last, rfl, hSuffix⟩
      · cases pieces with
        | nil => exact ⟨[], c :: last, rfl, hSuffix.trans (List.suffix_cons c last)⟩
        | cons first pieces => exact ⟨(c :: first) :: pieces, last, rfl, hSuffix⟩

theorem cutLast?_eq_none {separator : Char} {text : List Char} (h : separator ∉ text) :
    cutLast? separator text = none := by
  induction text with
  | nil => rfl
  | cons c text ih =>
      rw [List.mem_cons, not_or] at h
      simp [cutLast?, ih h.2, Ne.symm h.1]

theorem cutLast?_append {separator : Char} (front : List Char) {last : List Char}
    (h : separator ∉ last) : cutLast? separator (front ++ separator :: last) = some (front, last) := by
  induction front with
  | nil => simp [cutLast?, cutLast?_eq_none h]
  | cons c front ih => simp [cutLast?, ih]

theorem cutLast?_eq_some {separator : Char} {text front last : List Char}
    (h : cutLast? separator text = some (front, last)) : text = front ++ separator :: last := by
  induction text generalizing front with
  | nil => cases h
  | cons c text ih =>
      simp only [cutLast?] at h
      split at h
      · rename_i hRest
        cases h
        rw [ih hRest, List.cons_append]
      · split at h
        · rename_i hEq
          cases h
          rw [hEq, List.nil_append]
        · cases h

/-- The name of a file is the ending of its path. -/
theorem name_suffix (path : String) : (dirAndName path).2.toList <:+ path.toList := by
  simp only [dirAndName]
  split
  · rename_i dir name hCut
    rw [cutLast?_eq_some hCut, String.toList_ofList]
    exact ⟨dir ++ ['/'], by simp⟩
  · exact List.suffix_refl _

/-- The last segment of a join is the name of the file. -/
theorem dirAndName_join (front : List String) {last : String} (h : '/' ∉ last.toList) :
    dirAndName (join "/" (front ++ [last])) = (join "/" front, last) := by
  have hLast : cutLast? '/' last.toList = none := cutLast?_eq_none h
  cases front with
  | nil => simp [dirAndName, join, hLast]
  | cons first front =>
      have hJoin : (join "/" (first :: front ++ [last])).toList =
          (join "/" (first :: front)).toList ++ '/' :: last.toList := by
        simp only [join, String.toList_ofList, List.map_append]
        rw [intercalate_append _ (by simp) (by simp)]
        simp
      rw [dirAndName, hJoin, cutLast?_append _ h]
      simp

/-- A join is split into what was joined. -/
theorem split_join {pieces : List String} (hSome : pieces ≠ [])
    (hSlash : ∀ piece ∈ pieces, '/' ∉ piece.toList) : split '/' (join "/" pieces) = pieces := by
  have hLists : ∀ piece ∈ pieces.map String.toList, '/' ∉ piece := by simpa using hSlash
  have hSeparator : "/".toList = ['/'] := rfl
  rw [split, join, String.toList_ofList, hSeparator,
    List.splitOn_intercalate '/' hLists (by simpa using hSome), List.map_map]
  simp

end Text

namespace EntryPath

/-- The segments of the name of an entry. -/
def segments (path : String) : List String :=
  (Text.split '/' (String.ofList (dropDrive (Text.replace '\\' '/' path).toList))).filter isProper

theorem normalize_eq_join (path : String) : normalize path = Text.join "/" (segments path) := rfl

theorem mem_segments {path segment : String} (h : segment ∈ segments path) :
    isProper segment = true ∧ '/' ∉ segment.toList := by
  obtain ⟨hSplit, hProper⟩ := List.mem_filter.mp h
  obtain ⟨piece, hPiece, rfl⟩ := List.mem_map.mp hSplit
  rw [String.toList_ofList]
  exact ⟨hProper, Text.notMem_of_mem_splitOn hPiece⟩

/-- Where a path has neither backslashes nor colons, its segments are the proper pieces of it. -/
theorem segments_of_notMem {path : String} (hBackslash : '\\' ∉ path.toList)
    (hColon : ':' ∉ path.toList) : segments path = (Text.split '/' path).filter isProper := by
  have hDropped : dropDrive path.toList = path.toList := by
    unfold dropDrive
    split
    · rename_i hPath
      exact absurd (by rw [hPath]; simp) hColon
    · rfl
  rw [segments, Text.replace_of_notMem hBackslash, hDropped, String.ofList_toList]

theorem isSegment_utf8 {segment : String} (hProper : isProper segment = true)
    (hSlash : '/' ∉ segment.toList) : Archive.Pack.IsSegment (Text.utf8 segment) := by
  simp only [isProper, Bool.and_eq_true, decide_eq_true_eq] at hProper
  refine ⟨fun h => hProper.1 ((Text.utf8_eq_nil_iff _).mp h), fun h => hProper.2 ?_, fun h => ?_⟩
  · exact Text.utf8_injective (h.trans (by decide))
  · exact hSlash ((Text.mem_utf8_iff (by decide) _).mp h)

theorem isSegment_of_mem {path : String} {segment : Bytes}
    (h : segment ∈ (segments path).map Text.utf8) : Archive.Pack.IsSegment segment := by
  obtain ⟨text, hText, rfl⟩ := List.mem_map.mp h
  exact isSegment_utf8 (mem_segments hText).1 (mem_segments hText).2

/-- The bytes of a name are those of its segments. -/
theorem utf8_normalize (path : String) : Text.utf8 (normalize path) =
    ['/'.toUInt8].intercalate ((segments path).map Text.utf8) := by
  have hSlash : Text.utf8 "/" = ['/'.toUInt8] := by decide
  rw [normalize_eq_join, Text.utf8_join, hSlash]

/-- Whether the name of the entry for a path leads out of the directory that it is in. -/
def hasParent (path : String) : Bool :=
  (segments path).contains ".."

theorem parentSegment_mem_iff (path : String) :
    Archive.Pack.parentSegment ∈ (segments path).map Text.utf8 ↔ hasParent path = true := by
  have hParent : Archive.Pack.parentSegment = Text.utf8 ".." := by decide
  rw [hasParent, List.contains_iff_mem, hParent, List.mem_map]
  constructor
  · rintro ⟨segment, hMem, hEq⟩
    rwa [← Text.utf8_injective hEq]
  · intro hMem
    exact ⟨_, hMem, rfl⟩

/-- A reader of an archive splits the name of an entry into the segments that it was joined from, and
refuses it where one of them leads to the parent directory. -/
theorem entrySegments?_normalize {path : String} (hSome : segments path ≠ []) :
    Bundle.entrySegments? (Text.utf8 (normalize path)) =
      if hasParent path = true then none else some ((segments path).map Text.utf8) := by
  have hSegs : ∀ s ∈ (segments path).map Text.utf8, Archive.Pack.IsSegment s :=
    fun s hs => isSegment_of_mem hs
  have hSplit := List.splitOn_intercalate '/'.toUInt8 (fun s hs => (hSegs s hs).noSlash)
    (by simpa using hSome)
  have hFilter : ((segments path).map Text.utf8).filter (fun s => s ≠ [] && s ≠ ['.'.toUInt8]) =
      (segments path).map Text.utf8 := by
    rw [List.filter_eq_self]
    intro s hs
    simp [(hSegs s hs).nonempty, (hSegs s hs).notDot]
  have hParent := parentSegment_mem_iff path
  rw [Archive.Pack.parentSegment] at hParent
  simp only [Bundle.entrySegments?, utf8_normalize, hSplit, hFilter, List.contains_iff_mem, hParent]

/-- A reader of an archive finds the name of an entry again. -/
theorem entryPath_normalize {path : String} (hSome : segments path ≠ [])
    (hParent : hasParent path = false) :
    Bundle.entryPath (Text.utf8 (normalize path)) = .ok (normalize path) := by
  have hTexts : ((segments path).map Text.utf8).map Text.ofUtf8Lossy = segments path := by
    simp [Function.comp_def]
  simp only [Bundle.entryPath, entrySegments?_normalize hSome, hParent, Bool.false_eq_true, if_false,
    hTexts]
  rw [normalize_eq_join]

/-- A reader of an archive refuses the name of an entry that leads to the parent directory. -/
theorem entryPath_of_hasParent {path : String} (hParent : hasParent path = true) :
    Bundle.entryPath (Text.utf8 (normalize path)) = .error (.pathTraversal (normalize path)) := by
  have hSome : segments path ≠ [] := by
    rintro hEmpty
    simp [hasParent, hEmpty] at hParent
  simp only [Bundle.entryPath, entrySegments?_normalize hSome, hParent, if_true,
    Text.ofUtf8Lossy_utf8]

theorem dropDrive_module (front : List Char) :
    ∃ rest, dropDrive (front ++ ".rego".toList) = rest ++ ".rego".toList := by
  match front with
  | [] => exact ⟨[], by decide⟩
  | [c] => exact ⟨[c], rfl⟩
  | c :: d :: front =>
      simp only [dropDrive, List.cons_append]
      split
      · rename_i hPath
        obtain ⟨rfl, rfl, rfl⟩ : _ ∧ _ ∧ _ := by simpa using hPath
        split
        · exact ⟨front, rfl⟩
        · exact ⟨_ :: ':' :: front, rfl⟩
      · exact ⟨c :: d :: front, rfl⟩

/-- The name of the entry for a module is that of a module. -/
theorem isModuleName_normalize {path : String} (h : Bundle.isModuleName path = true) :
    segments path ≠ [] ∧ Bundle.isModuleName (Text.dirAndName (normalize path)).2 = true := by
  rw [Bundle.isModuleName, Text.endsWith_iff] at h
  obtain ⟨front, hFront⟩ := h
  have hSlashed : (Text.replace '\\' '/' path).toList =
      front.map (fun c => if c = '\\' then '/' else c) ++ ".rego".toList := by
    rw [Text.replace, String.toList_ofList, ← hFront, List.map_append]
    rfl
  obtain ⟨rest, hRest⟩ := dropDrive_module (front.map fun c => if c = '\\' then '/' else c)
  have hSlash : '/' ∉ ".rego".toList := by decide
  obtain ⟨pieces, last, hPieces, hLast⟩ := Text.splitOn_append_ending rest hSlash
  have hLong : 5 ≤ last.length := hLast.length_le
  have hProper : isProper (String.ofList last) = true := by
    have hNonempty : String.ofList last ≠ "" := fun hEq => by
      have hNil : last = [] := String.ofList_injective hEq
      simp [hNil] at hLong
    have hNotDot : String.ofList last ≠ "." := fun hEq => by
      have hDot : last = ['.'] := String.ofList_injective hEq
      simp [hDot] at hLong
    simp [isProper, hNonempty, hNotDot]
  have hSegments : segments path =
      (pieces.map String.ofList).filter isProper ++ [String.ofList last] := by
    rw [segments, hSlashed, hRest, Text.split, String.toList_ofList, hPieces, List.map_append,
      List.filter_append]
    simp [hProper]
  have hNoSlash : '/' ∉ (String.ofList last).toList := by
    rw [String.toList_ofList]
    exact Text.notMem_of_mem_splitOn (hPieces ▸ List.mem_append_right _ List.mem_cons_self)
  have hName : (Text.dirAndName (normalize path)).2 = String.ofList last := by
    rw [normalize_eq_join, hSegments, Text.dirAndName_join _ hNoSlash]
  refine ⟨by simp [hSegments], ?_⟩
  have hChars : (String.ofList last).toList = last := String.toList_ofList
  rw [hName, Bundle.isModuleName, Text.endsWith_iff, hChars]
  exact hLast

end EntryPath

end PolicyBundle
