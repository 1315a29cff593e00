import PolicyBundle.Proofs.Bundle.RoundTrip
import PolicyBundle.Proofs.Files.Paths

/-! Canonical names of entries. What is left of a path when it is normalized has neither backslashes nor
segments that lead nowhere, whatever the path is. But a drive is dropped only from the very beginning of a
path and only once: where the first segment that is left begins with a drive itself, that drive comes to
the front, and the next time it is dropped as well. -/

namespace PolicyBundle

namespace EntryPath

/-- A text begins with a drive: a letter and a colon. -/
def BeginsWithDrive (text : String) : Prop :=
  ∃ letter rest, letter.isAlpha = true ∧ text.toList = letter :: ':' :: rest

/-- A name of an entry in which every piece counts. -/
structure Tidy (name : String) : Prop where
  noBackslash : '\\' ∉ name.toList
  pieces : name ≠ "" → ∀ piece ∈ Text.split '/' name, piece ≠ "" ∧ piece ≠ "."
  noSlashInFront : Text.startsWith name "/" = false
  noSlashBehind : Text.endsWith name "/" = false

/-- A canonical name: it has no drive in front, it is its own normalized form, and what a reader makes of it
in an archive is written under it again. -/
structure Canonical (name : String) : Prop extends Tidy name where
  noDrive : ¬BeginsWithDrive name
  normal : normalize name = name
  writtenBack : ∀ path, Bundle.entryPath (Text.utf8 name) = .ok path → normalize path = name

/-- The first segment that is left of a path begins with a drive. The drive in front of the whole path is
no part of it. -/
def ExposesDrive (path : String) : Prop :=
  ∃ first ∈ (segments path).head?, BeginsWithDrive first

section Drives

theorem dropDrive_suffix (text : List Char) : dropDrive text <:+ text := by
  unfold dropDrive
  split
  · split
    · exact ⟨[_, ':'], rfl⟩
    · exact List.suffix_refl _
  · exact List.suffix_refl _

theorem dropDrive_of_not_begins {text : String} (h : ¬BeginsWithDrive text) :
    dropDrive text.toList = text.toList := by
  unfold dropDrive
  split
  · rename_i letter rest hText
    rw [if_neg fun hLetter => h ⟨letter, rest, hLetter, hText⟩, hText]
  · rfl

/-- A drive is dropped with its colon. -/
theorem length_dropDrive_lt {text : String} (h : BeginsWithDrive text) :
    (dropDrive text.toList).length < text.toList.length := by
  obtain ⟨letter, rest, hLetter, hText⟩ := h
  rw [hText, dropDrive, if_pos hLetter]
  simp only [List.length_cons]
  omega

/-- A join begins with a drive where the first of its segments does. -/
theorem beginsWithDrive_join_iff {first : String} (hSome : first ≠ "") (rest : List String) :
    BeginsWithDrive (Text.join "/" (first :: rest)) ↔ BeginsWithDrive first := by
  have hJoin := Files.toList_join first rest
  constructor
  · rintro ⟨letter, behind, hLetter, hText⟩
    rw [hJoin] at hText
    match hChars : first.toList with
    | [] => exact absurd (String.toList_eq_nil_iff.mp hChars) hSome
    | [c] =>
        rw [hChars] at hText
        cases rest with
        | nil => simp at hText
        | cons next rest => simp at hText
    | c :: d :: chars =>
        rw [hChars, List.cons_append, List.cons_append, List.cons.injEq, List.cons.injEq] at hText
        obtain ⟨rfl, rfl, -⟩ := hText
        exact ⟨c, chars, hLetter, hChars⟩
  · rintro ⟨letter, behind, hLetter, hText⟩
    refine ⟨letter, behind ++ rest.flatMap fun next => '/' :: next.toList, hLetter, ?_⟩
    rw [hJoin, hText]
    rfl

end Drives

section Names

variable {path : String}

theorem beginsWithDrive_normalize_iff (path : String) :
    BeginsWithDrive (normalize path) ↔ ExposesDrive path := by
  rw [ExposesDrive, normalize_eq_join]
  cases hSegments : segments path with
  | nil =>
      constructor
      · rintro ⟨letter, rest, -, hText⟩
        cases hText
      · rintro ⟨first, hFirst, -⟩
        cases hFirst
  | cons first rest =>
      have hFirst : first ∈ segments path := by
        rw [hSegments]
        exact List.mem_cons_self
      have hSome : first ≠ "" := by
        rintro rfl
        exact absurd (mem_segments hFirst).1 (by decide)
      simp [beginsWithDrive_join_iff hSome]

theorem notMem_backslash_of_mem_segments {segment : String} (h : segment ∈ segments path) :
    '\\' ∉ segment.toList := by
  obtain ⟨piece, hPiece, rfl⟩ := List.mem_map.mp (List.mem_filter.mp h).1
  rw [String.toList_ofList] at hPiece ⊢
  intro hMem
  exact Text.notMem_replace (by decide) path
    ((dropDrive_suffix _).subset (Text.mem_of_mem_splitOn hPiece hMem))

theorem notMem_backslash_normalize (path : String) : '\\' ∉ (normalize path).toList := by
  rw [normalize_eq_join]
  intro hMem
  obtain ⟨segment, hSegment, hMem⟩ := Files.mem_join (by decide) hMem
  exact notMem_backslash_of_mem_segments hSegment hMem

/-- A text has no slash at either end if none of its pieces is empty. -/
theorem ends_of_pieces {name : String} (h : name ≠ "" → ∀ piece ∈ Text.split '/' name, piece ≠ "") :
    Text.startsWith name "/" = false ∧ Text.endsWith name "/" = false := by
  have hSlash : "/".toList = ['/'] := rfl
  have hPieces : name ≠ "" → ∀ piece ∈ name.toList.splitOn '/', piece ≠ [] := by
    rintro hSome piece hPiece rfl
    exact h hSome "" (List.mem_map.mpr ⟨[], hPiece, rfl⟩) rfl
  constructor
  · rw [Bool.eq_false_iff, ne_eq, Text.startsWith_iff, hSlash]
    rintro ⟨rest, hRest⟩
    have hSome : name ≠ "" := by
      rintro rfl
      cases hRest
    apply hPieces hSome []
    · rw [← hRest]
      simp [List.splitOn_cons_eq_if_modifyHead]
    · rfl
  · rw [Bool.eq_false_iff, ne_eq, Files.endsWith_slash_iff]
    rintro ⟨front, hFront⟩
    have hSome : name ≠ "" := by
      rintro rfl
      simp at hFront
    apply hPieces hSome []
    · rw [hFront, List.splitOn_append_cons_self]
      simp
    · rfl

/-- Every name that a path is normalized to is tidy. -/
theorem tidy_normalize (path : String) : Tidy (normalize path) := by
  have hPieces : normalize path ≠ "" →
      ∀ piece ∈ Text.split '/' (normalize path), piece ≠ "" ∧ piece ≠ "." := by
    intro hSome piece hPiece
    rw [split_normalize fun hNone => hSome ((normalize_eq_empty_iff path).mpr hNone)] at hPiece
    simpa [isProper] using (mem_segments hPiece).1
  have hEnds := ends_of_pieces fun hSome piece hPiece => (hPieces hSome piece hPiece).1
  exact ⟨notMem_backslash_normalize path, hPieces, hEnds.1, hEnds.2⟩

/-- A tidy name without a drive in front is its own normalized form. -/
theorem Tidy.normalize_eq {name : String} (h : Tidy name) (hDrive : ¬BeginsWithDrive name) :
    normalize name = name := by
  have hKept : Text.join "/" (Text.split '/' name) = name := by
    rw [Text.join, Text.split, List.map_map]
    have hSlash : "/".toList = ['/'] := rfl
    simp [Function.comp_def, hSlash, List.intercalate_splitOn]
  rw [normalize_eq_join, segments, Text.replace_of_notMem h.noBackslash,
    dropDrive_of_not_begins hDrive, String.ofList_toList]
  by_cases hSome : name = ""
  · subst hSome
    decide
  · rw [List.filter_eq_self.mpr, hKept]
    intro piece hPiece
    obtain ⟨hNonempty, hNotDot⟩ := h.pieces hSome piece hPiece
    simp [isProper, hNonempty, hNotDot]

/-- What is normalized is no longer than what follows the drive. -/
theorem length_normalize_le (path : String) :
    (normalize path).toList.length ≤ (dropDrive (Text.replace '\\' '/' path).toList).length := by
  have hSlash : "/".toList = ['/'] := rfl
  have hFilter := Text.length_intercalate_filter_le '/' (fun piece => isProper (String.ofList piece))
    ((dropDrive (Text.replace '\\' '/' path).toList).splitOn '/')
  rw [List.intercalate_splitOn] at hFilter
  rw [normalize_eq_join, segments, Text.join, String.toList_ofList, hSlash, Text.split,
    String.toList_ofList, List.filter_map, List.map_map]
  simpa [Function.comp_def] using hFilter

/-- A name with a drive in front is not its own normalized form. -/
theorem Tidy.normalize_ne {name : String} (h : Tidy name) (hDrive : BeginsWithDrive name) :
    normalize name ≠ name := by
  intro hSame
  have hLength := length_normalize_le name
  rw [Text.replace_of_notMem h.noBackslash, hSame] at hLength
  exact absurd (length_dropDrive_lt hDrive) (Nat.not_lt.mpr hLength)

/-- A reader that takes a name takes it as it stands. -/
theorem eq_normalize_of_entryPath {name : String}
    (h : Bundle.entryPath (Text.utf8 (normalize path)) = .ok name) : name = normalize path := by
  by_cases hSome : segments path = []
  · have hNone := (normalize_eq_empty_iff path).mpr hSome
    have hEmpty : Bundle.entryPath (Text.utf8 "") = .ok "" := by decide
    rw [hNone, hEmpty] at h
    rw [hNone, ← Except.ok.inj h]
  · cases hParent : hasParent path with
    | true =>
        rw [entryPath_of_hasParent hParent] at h
        cases h
    | false =>
        rw [entryPath_normalize hSome hParent] at h
        exact (Except.ok.inj h).symm

end Names

/-- What is left of a path is always tidy. It has no drive in front, and is its own normalized form, exactly
if no drive comes to the front; and then it is canonical. -/
theorem canonical_normalize_iff (path : String) :
    Tidy (normalize path) ∧ (Canonical (normalize path) ↔ ¬ExposesDrive path) ∧
      (normalize (normalize path) = normalize path ↔ ¬ExposesDrive path) := by
  have hTidy := tidy_normalize path
  refine ⟨hTidy, ?_⟩
  rw [← beginsWithDrive_normalize_iff]
  refine ⟨⟨fun hCanonical => hCanonical.noDrive, fun hDrive => ?_⟩, ?_, hTidy.normalize_eq⟩
  · have hNormal := hTidy.normalize_eq hDrive
    refine ⟨hTidy, hDrive, hNormal, fun name hName => ?_⟩
    rw [eq_normalize_of_entryPath hName, hNormal]
  · exact fun hNormal hDrive => hTidy.normalize_ne hDrive hNormal

/-- A drive behind a slash comes to the front. -/
theorem not_canonical_driveBehindSlash : ¬Canonical (normalize "/C:/policies/a.rego") := by
  have hNormal : normalize "/C:/policies/a.rego" = "C:/policies/a.rego" := by decide +kernel
  rw [hNormal]
  exact fun h => h.noDrive ⟨'C', "/policies/a.rego".toList, by decide, by decide⟩

end EntryPath

end PolicyBundle
