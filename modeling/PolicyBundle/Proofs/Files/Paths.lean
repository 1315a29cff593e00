import PolicyBundle.Files.Walk
import PolicyBundle.Proofs.Bundle.EntryPath

/-! Paths of files in a directory. Below a directory a file has the path of its names with slashes
between them, and the last of the names is the name of the file. -/

namespace PolicyBundle.Files

/-- A name that an entry of a directory can have. -/
structure EntryName (name : String) : Prop where
  nonempty : name ≠ ""
  noSlash : '/' ∉ name.toList

/-- A name that files and directories can have on every system. -/
structure Proper (name : String) : Prop where
  nonempty : name ≠ ""
  notDot : name ≠ "."
  notParent : name ≠ ".."
  noSlash : '/' ∉ name.toList
  noBackslash : '\\' ∉ name.toList
  noZero : '\x00' ∉ name.toList

theorem Proper.entryName {name : String} (h : Proper name) : EntryName name :=
  ⟨h.nonempty, h.noSlash⟩

theorem EntryName.not_startsWith_slash {name : String} (h : EntryName name) :
    Text.startsWith name "/" = false := by
  have hSlash : "/".toList = ['/'] := rfl
  rw [Bool.eq_false_iff, ne_eq, Text.startsWith_iff, hSlash]
  exact fun hPrefix => h.noSlash (hPrefix.subset List.mem_cons_self)

theorem endsWith_slash_iff (path : String) :
    Text.endsWith path "/" = true ↔ ∃ front, path.toList = front ++ ['/'] := by
  have hSlash : "/".toList = ['/'] := rfl
  rw [Text.endsWith_iff, hSlash]
  constructor
  · rintro ⟨front, hFront⟩
    exact ⟨front, hFront.symm⟩
  · rintro ⟨front, hFront⟩
    exact ⟨front, hFront.symm⟩

/-- Whether a path needs a slash in front of the next name. -/
def isOpen (path : String) : Bool :=
  path.isEmpty || Text.endsWith path "/"

theorem toList_within (path name : String) :
    (within path name).toList =
      path.toList ++ (if isOpen path then name.toList else '/' :: name.toList) := by
  have hSlash : "/".toList = ['/'] := rfl
  rw [within, ← isOpen]
  cases isOpen path with
  | true => simp
  | false => simp [hSlash]

theorem segments_eq_map (path : String) :
    segments path = (path.toList.splitOn '/').map String.ofList := rfl

/-- The segments of a path in a directory: those of the directory, but for an empty one at the end,
and the name. -/
theorem segments_within (path : String) {name : String} (hSlash : '/' ∉ name.toList) :
    ∃ front, (segments path = front ∨ segments path = front ++ [""]) ∧
      segments (within path name) = front ++ [name] := by
  have hName : (name.toList.splitOn '/').map String.ofList = [name] := by
    rw [List.splitOn_eq_singleton hSlash, List.map_singleton, String.ofList_toList]
  have hBehind (front : List Char) : ((front ++ '/' :: name.toList).splitOn '/').map String.ofList =
      (front.splitOn '/').map String.ofList ++ [name] := by
    rw [List.splitOn_append_cons_self, List.map_append, hName]
  rw [segments_eq_map, segments_eq_map, toList_within]
  by_cases hOpen : isOpen path = true
  · rw [if_pos hOpen]
    simp only [isOpen, Bool.or_eq_true, String.isEmpty_iff] at hOpen
    rcases hOpen with rfl | hEnds
    · exact ⟨[], .inr rfl, hName⟩
    · obtain ⟨front, hFront⟩ := (endsWith_slash_iff path).mp hEnds
      refine ⟨(front.splitOn '/').map String.ofList, .inr ?_, ?_⟩
      · rw [hFront, List.splitOn_append_cons_self, List.map_append]
        rfl
      · rw [hFront, List.append_assoc, List.singleton_append, hBehind]
  · rw [if_neg hOpen]
    exact ⟨_, .inl rfl, hBehind path.toList⟩

/-- The name of a file in a directory. -/
theorem fileName_within (path : String) {name : String} (h : Proper name) :
    fileName (within path name) = name := by
  obtain ⟨front, -, hSegments⟩ := segments_within path h.noSlash
  have hKept : [name].filter (fun s => s ≠ "" && s ≠ ".") = [name] := by
    simp [h.nonempty, h.notDot]
  rw [fileName, hSegments, List.filter_append, hKept, List.getLast?_append]
  simp [h.notParent]

/-- A path that ends with a name needs a slash in front of the next one. -/
theorem not_isOpen_of_suffix {path name : String} (h : EntryName name)
    (hSuffix : name.toList <:+ path.toList) : isOpen path = false := by
  have hChars : name.toList ≠ [] := fun hNil => h.nonempty (String.toList_eq_nil_iff.mp hNil)
  rw [isOpen, Bool.or_eq_false_iff]
  constructor
  · rw [Bool.eq_false_iff, ne_eq, String.isEmpty_iff]
    rintro rfl
    exact hChars (List.eq_nil_of_suffix_nil hSuffix)
  · rw [Bool.eq_false_iff, ne_eq, endsWith_slash_iff]
    rintro ⟨front, hFront⟩
    rw [hFront] at hSuffix
    rcases List.suffix_concat_iff.mp hSuffix with hNil | ⟨begin, hName, -⟩
    · exact hChars hNil
    · exact h.noSlash (by simp [hName])

/-- The names below a directory, with slashes between them. -/
theorem foldl_within {path : String} (hOpen : isOpen path = false) {names : List String}
    (hNames : ∀ name ∈ names, EntryName name) :
    names.foldl within path = Text.join "/" (path :: names) := by
  induction names generalizing path with
  | nil => simp [Text.join]
  | cons name names ih =>
      obtain ⟨hName, hRest⟩ := List.forall_mem_cons.mp hNames
      have hNext : (within path name).toList = path.toList ++ '/' :: name.toList := by
        rw [toList_within, hOpen]
        rfl
      have hSuffix : name.toList <:+ (within path name).toList := by
        rw [hNext]
        exact ⟨path.toList ++ ['/'], by simp⟩
      rw [List.foldl_cons, ih (not_isOpen_of_suffix hName hSuffix) hRest, Text.join, Text.join]
      have hSlash : "/".toList = ['/'] := rfl
      rw [hSlash, List.map_cons, List.map_cons, List.map_cons, Text.intercalate_cons,
        Text.intercalate_cons, hNext]
      simp

section Names

variable {names : List String}

/-- The path of a file below the beginning of a walk. -/
theorem relative_eq_join (hNames : ∀ name ∈ names, EntryName name) :
    names.foldl within "" = Text.join "/" names := by
  cases names with
  | nil => rfl
  | cons name names =>
      obtain ⟨hName, hRest⟩ := List.forall_mem_cons.mp hNames
      have hFirst : within "" name = name := by
        rw [within, if_pos (by rfl)]
        simp
      rw [List.foldl_cons, hFirst]
      exact foldl_within (not_isOpen_of_suffix hName List.suffix_rfl) hRest

theorem fileName_foldl (path : String) (front : List String) {last : String} (h : Proper last) :
    fileName ((front ++ [last]).foldl within path) = last := by
  rw [List.foldl_append, List.foldl_cons, List.foldl_nil]
  exact fileName_within _ h

theorem toList_join (name : String) (names : List String) :
    (Text.join "/" (name :: names)).toList =
      name.toList ++ names.flatMap fun next => '/' :: next.toList := by
  have hSlash : "/".toList = ['/'] := rfl
  rw [Text.join, String.toList_ofList, hSlash, List.map_cons, Text.intercalate_cons,
    List.flatMap_map]

/-- A character of a path is a slash or in one of the names. -/
theorem mem_join {c : Char} (hSlash : c ≠ '/') (h : c ∈ (Text.join "/" names).toList) :
    ∃ name ∈ names, c ∈ name.toList := by
  cases names with
  | nil => cases h
  | cons name names =>
      rw [toList_join, List.mem_append, List.mem_flatMap] at h
      rcases h with hFirst | ⟨next, hNext, hMem⟩
      · exact ⟨name, List.mem_cons_self, hFirst⟩
      · rcases List.mem_cons.mp hMem with hEq | hMem
        · exact absurd hEq hSlash
        · exact ⟨next, List.mem_cons_of_mem _ hNext, hMem⟩

theorem split_join (hSome : names ≠ []) (hNames : ∀ name ∈ names, Proper name) :
    Text.split '/' (Text.join "/" names) = names :=
  Text.split_join hSome fun name hName => (hNames name hName).noSlash

/-- A backslash that becomes a slash parts a name. -/
theorem replace_join_eq_split (names : List String) :
    Text.replace '\\' '/' (Text.join "/" names) =
      Text.join "/" (names.flatMap (Text.split '\\')) := by
  have hSlash : "/".toList = ['/'] := rfl
  have hName (chars : List Char) : chars.map (fun c => if c = '\\' then '/' else c) =
      ['/'].intercalate (chars.splitOn '\\') := by
    have hPieces : (chars.splitOn '\\').map (List.map fun c => if c = '\\' then '/' else c) =
        chars.splitOn '\\' := by
      apply (List.map_congr_left ?_).trans (List.map_id' _)
      intro piece hPiece
      apply (List.map_congr_left ?_).trans (List.map_id' _)
      intro c hc
      exact if_neg fun hEq : c = '\\' => Text.notMem_of_mem_splitOn hPiece (hEq ▸ hc)
    have hWhole : ['\\'].intercalate (chars.splitOn '\\') = chars := List.intercalate_splitOn '\\'
    conv_lhs => rw [← hWhole, Text.map_intercalate, hPieces]
    rfl
  have hSplit (name : String) : (Text.split '\\' name).map String.toList =
      name.toList.splitOn '\\' := by
    simp [Text.split, List.map_map, Function.comp_def]
  rw [Text.replace, Text.join, Text.join, String.toList_ofList, hSlash, Text.map_intercalate,
    List.map_flatMap, Text.intercalate_flatMap]
  · simp only [hSplit, ← hName, List.map_map]
    rfl
  · intro name _
    rw [hSplit]
    exact List.splitOn_ne_nil _ _

theorem split_backslash {name : String} (h : '\\' ∉ name.toList) :
    Text.split '\\' name = [name] := by
  rw [Text.split, List.splitOn_eq_singleton h, List.map_singleton, String.ofList_toList]

theorem replace_join (hNames : ∀ name ∈ names, Proper name) :
    Text.replace '\\' '/' (Text.join "/" names) = Text.join "/" names := by
  have hSplit : ∀ name ∈ names, Text.split '\\' name = [name] :=
    fun name hName => split_backslash (hNames name hName).noBackslash
  rw [replace_join_eq_split, List.flatMap_congr hSplit, List.flatMap_singleton']

theorem dropDrive_join {name : String} (hName : Proper name)
    (hDrive : EntryPath.dropDrive name.toList = name.toList) (names : List String) :
    EntryPath.dropDrive (Text.join "/" (name :: names)).toList =
      (Text.join "/" (name :: names)).toList := by
  rw [toList_join]
  generalize hChars : name.toList = chars at hDrive
  match chars with
  | [] => exact absurd (String.toList_eq_nil_iff.mp hChars) hName.nonempty
  | [c] =>
      cases names with
      | nil => rfl
      | cons next names => rfl
  | c :: d :: chars =>
      rw [List.cons_append, List.cons_append]
      by_cases hColon : d = ':'
      · subst hColon
        by_cases hLetter : c.isAlpha = true
        · have hLength := congrArg List.length hDrive
          simp [EntryPath.dropDrive, hLetter] at hLength
          omega
        · simp [EntryPath.dropDrive, hLetter]
      · simp only [EntryPath.dropDrive]
        split
        · rename_i hEq
          simp only [List.cons.injEq] at hEq
          exact absurd hEq.2.1 hColon
        · rfl

/-- The names of a file are the segments of its entry. -/
theorem entrySegments_join (hSome : names ≠ []) (hNames : ∀ name ∈ names, Proper name)
    (hDrive : ∀ name ∈ names.head?, EntryPath.dropDrive name.toList = name.toList) :
    EntryPath.segments (Text.join "/" names) = names := by
  have hReplaced := replace_join hNames
  have hDropped : EntryPath.dropDrive (Text.join "/" names).toList =
      (Text.join "/" names).toList := by
    obtain ⟨name, rest, rfl⟩ := List.exists_cons_of_ne_nil hSome
    exact dropDrive_join (hNames name List.mem_cons_self) (hDrive name rfl) rest
  rw [EntryPath.segments, hReplaced, hDropped, String.ofList_toList, split_join hSome hNames,
    List.filter_eq_self]
  intro name hName
  have hProper := hNames name hName
  simp [EntryPath.isProper, hProper.nonempty, hProper.notDot]

end Names

end PolicyBundle.Files
