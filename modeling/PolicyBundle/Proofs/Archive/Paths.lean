import PolicyBundle.Archive.Pack
import PolicyBundle.Proofs.Text.Pieces
import Mathlib.Data.List.Basic

/-! What a path must be for a header to take it. A path of proper segments that fits is written as
it is, and then none of its segments leads to the parent directory. -/

namespace PolicyBundle.Archive.Pack

/-- A segment of a path that leads somewhere, which may be the parent directory. -/
structure IsSegment (segment : Bytes) : Prop where
  nonempty : segment ≠ []
  notDot : segment ≠ ['.'.toUInt8]
  noSlash : '/'.toUInt8 ∉ segment

variable {segs : List Bytes}

/-- A path of proper segments is divided into them. -/
theorem segments_intercalate (hSegs : ∀ s ∈ segs, IsSegment s) (hSome : segs ≠ []) :
    segments (['/'.toUInt8].intercalate segs) = segs := by
  rw [segments, List.splitOn_intercalate _ (fun s hs => (hSegs s hs).noSlash) hSome,
    List.filter_eq_self]
  intro s hs
  simp [(hSegs s hs).nonempty, (hSegs s hs).notDot]

theorem getLast?_intercalate (hSegs : ∀ s ∈ segs, IsSegment s) :
    (['/'.toUInt8].intercalate segs).getLast? ≠ some '/'.toUInt8 := by
  intro hLast
  by_cases hSome : segs = []
  · simp [hSome] at hLast
  · have hSplit := List.splitOn_intercalate '/'.toUInt8 (fun s hs => (hSegs s hs).noSlash) hSome
    obtain ⟨front, hFront⟩ := List.getLast?_eq_some_iff.mp hLast
    rw [hFront, List.splitOn_append_cons_self, List.splitOn_nil] at hSplit
    exact (hSegs [] (hSplit ▸ by simp)).nonempty rfl

theorem addPiece_eq_ok {written piece name : Bytes} (h : addPiece written piece = .ok name) :
    name = written ++ piece ∧ name.length ≤ pathWidth ∧ 0 ∉ piece := by
  simp only [addPiece] at h
  split at h
  · cases h
  · rename_i hShort
    split at h
    · cases h
    · rename_i hZero
      cases h
      refine ⟨rfl, by simpa using hShort, by simpa using hZero⟩

/-- What the next segment does to what is written. -/
theorem addSegments_cons {cut : Bool} {written segment name : Bytes}
    (h : addSegments cut written (segment :: segs) = .ok name) :
    ∃ next, addSegments cut next segs = .ok name ∧ next.length ≤ pathWidth ∧
      next = (if written.isEmpty then segment else written ++ '/'.toUInt8 :: segment) ∧
      (cut = false → segment ≠ parentSegment) ∧ 0 ∉ segment := by
  simp only [addSegments, bind, Except.bind] at h
  split at h
  · cases h
  · rename_i hParent
    have hProper : cut = false → segment ≠ parentSegment := by
      rintro rfl rfl
      simp at hParent
    split at h
    · rename_i hEmpty
      split at h
      · cases h
      · rename_i next hNext
        obtain ⟨rfl, hShort, hZero⟩ := addPiece_eq_ok hNext
        rw [List.isEmpty_iff] at hEmpty
        exact ⟨_, h, hShort, by simp [hEmpty], hProper, hZero⟩
    · rename_i hWritten
      split at h
      · cases h
      · rename_i slashed hSlashed
        split at h
        · cases h
        · rename_i next hNext
          obtain ⟨rfl, -, -⟩ := addPiece_eq_ok hSlashed
          obtain ⟨rfl, hShort, hZero⟩ := addPiece_eq_ok hNext
          exact ⟨_, h, hShort, by simp [hWritten], hProper, hZero⟩

theorem addSegments_length {cut : Bool} {written name : Bytes}
    (h : addSegments cut written segs = .ok name) (hWritten : written.length ≤ pathWidth) :
    name.length ≤ pathWidth := by
  induction segs generalizing written with
  | nil =>
      cases h
      exact hWritten
  | cons segment segs ih =>
      obtain ⟨next, hRest, hShort, -⟩ := addSegments_cons h
      exact ih hRest hShort

/-- What is written of segments behind others. -/
theorem addSegments_eq_ok {written name : Bytes} (h : addSegments false written segs = .ok name)
    (hWritten : written ≠ []) :
    name = written ++ segs.flatMap ('/'.toUInt8 :: ·) ∧ parentSegment ∉ segs ∧
      ∀ s ∈ segs, 0 ∉ s := by
  induction segs generalizing written with
  | nil =>
      cases h
      simp
  | cons segment segs ih =>
      obtain ⟨next, hRest, -, hNext, hParent, hZero⟩ := addSegments_cons h
      rw [if_neg (by simpa using hWritten)] at hNext
      subst hNext
      obtain ⟨hName, hParents, hZeros⟩ := ih hRest (by simp)
      refine ⟨by simp [hName], ?_, ?_⟩
      · simp only [List.mem_cons, not_or]
        exact ⟨(hParent rfl).symm, hParents⟩
      · simp only [List.mem_cons, forall_eq_or_imp]
        exact ⟨hZero, hZeros⟩

/-- A path that is written whole: as it is, without zero bytes, and inside the archive. -/
theorem pathField_eq_ok {name : Bytes} (hSegs : ∀ s ∈ segs, IsSegment s) (hSome : segs ≠ [])
    (h : pathField false (['/'.toUInt8].intercalate segs) = .ok name) :
    name = ['/'.toUInt8].intercalate segs ∧ parentSegment ∉ segs ∧ 0 ∉ name := by
  simp only [pathField, segments_intercalate hSegs hSome, getLast?_intercalate hSegs, if_false,
    bind, Except.bind] at h
  split at h
  · cases h
  · rename_i written hWritten
    cases h
    obtain ⟨first, rest, rfl⟩ := List.exists_cons_of_ne_nil hSome
    obtain ⟨next, hRest, -, hNext, hParent, hZero⟩ := addSegments_cons hWritten
    have hFirst : next = first := hNext
    subst hFirst
    have hNonempty := (hSegs next List.mem_cons_self).nonempty
    obtain ⟨hName, hParents, hZeros⟩ := addSegments_eq_ok hRest hNonempty
    refine ⟨by rw [hName, Text.intercalate_cons], ?_, ?_⟩
    · simp only [List.mem_cons, not_or]
      exact ⟨(hParent rfl).symm, hParents⟩
    · rw [hName]
      simp only [List.mem_append, List.mem_flatMap, List.mem_cons, not_or, not_exists, not_and]
      exact ⟨hZero, fun s hs => ⟨by decide, hZeros s hs⟩⟩

theorem pathField_length {cut : Bool} {path name : Bytes} (h : pathField cut path = .ok name) :
    name.length ≤ pathWidth := by
  simp only [pathField, bind, Except.bind] at h
  split at h
  · cases h
  · rename_i written hWritten
    have hShort := addSegments_length hWritten (by simp)
    split at h
    · exact (addPiece_eq_ok h).2.1
    · cases h
      exact hShort

/-- The field for a path is the whole path, or the path is long and stands elsewhere. -/
theorem nameField_eq_ok {name : Bytes} {isCut : Bool} (hSegs : ∀ s ∈ segs, IsSegment s)
    (hSome : segs ≠ []) (h : nameField (['/'.toUInt8].intercalate segs) = .ok (name, isCut)) :
    name.length ≤ pathWidth ∧
      (isCut = false → name = ['/'.toUInt8].intercalate segs ∧ parentSegment ∉ segs ∧ 0 ∉ name) ∧
      (isCut = true → pathWidth ≤ (['/'.toUInt8].intercalate segs).length) := by
  simp only [nameField] at h
  split at h
  · rename_i whole hWhole
    cases h
    exact ⟨pathField_length hWhole, fun _ => pathField_eq_ok hSegs hSome hWhole, by simp⟩
  · split at h
    · cases h
    · rename_i hLong
      cases hFront : pathField true
          ((['/'.toUInt8].intercalate segs).take (boundary _ pathWidth)) with
      | error e =>
          rw [hFront] at h
          cases h
      | ok front =>
          rw [hFront] at h
          cases h
          exact ⟨pathField_length hFront, by simp, fun _ => Nat.not_lt.mp hLong⟩

end PolicyBundle.Archive.Pack
