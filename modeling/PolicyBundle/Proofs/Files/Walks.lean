import PolicyBundle.Proofs.Files.Resolution

/-! What a walk comes upon where there are no links: the files of the tree, each once under the path of
its names, whether links are followed or not. -/

namespace PolicyBundle.Files

open Node

/-- A tree of regular files and directories. -/
inductive Still : Node → Prop where
  | file (contents : Bytes) : Still (.file contents)
  | dir {entries : List (String × Node)} (different : (entries.map (·.1)).Nodup)
      (named : ∀ e ∈ entries, EntryName e.1) (all : ∀ e ∈ entries, Still e.2) : Still (.dir entries)

/-- A tree of regular files and directories. The entries of a directory have different names, and such
as are proper on every system. -/
inductive Plain : Node → Prop where
  | file (contents : Bytes) : Plain (.file contents)
  | dir {entries : List (String × Node)} (different : (entries.map (·.1)).Nodup)
      (proper : ∀ e ∈ entries, Proper e.1) (all : ∀ e ∈ entries, Plain e.2) : Plain (.dir entries)

theorem Plain.still {node : Node} (h : Plain node) : Still node := by
  induction h with
  | file contents => exact .file contents
  | dir different proper all ih => exact .dir different (fun e he => (proper e he).entryName) ih

theorem Plain.names_nodup {entries : List (String × Node)} (h : Plain (.dir entries)) :
    (entries.map (·.1)).Nodup := by
  cases h with
  | dir different proper all => exact different

theorem Plain.not_link {entries : List (String × Node)} (h : Plain (.dir entries)) {name : String}
    {child : Node} (hMem : (name, child) ∈ entries) (target : String) : child ≠ .link target := by
  rintro rfl
  cases h with
  | dir different proper all => cases all _ hMem

/-- A walk that keeps everything. -/
def keepAll : Keep := fun _ _ _ => true

theorem lookup_eq_some_iff {entries : List (String × Node)}
    (hDifferent : (entries.map (·.1)).Nodup) (name : String) (child : Node) :
    entries.lookup name = some child ↔ (name, child) ∈ entries := by
  induction entries with
  | nil => simp
  | cons e entries ih =>
      obtain ⟨other, node⟩ := e
      rw [List.map_cons, List.nodup_cons] at hDifferent
      obtain ⟨hNew, hRest⟩ := hDifferent
      rw [List.lookup_cons, List.mem_cons, Prod.mk.injEq]
      by_cases hSame : name = other
      · subst hSame
        have hOther : (name, child) ∉ entries :=
          fun hMem => hNew (List.mem_map.mpr ⟨(name, child), hMem, rfl⟩)
        simp [hOther, eq_comm]
      · have hBeq : (name == other) = false := by simpa using hSame
        simp [hBeq, hSame, ih hRest]

theorem stillEntries_eq_map (keep : Keep) (s : Spot) (entries : List (String × Node)) :
    stillEntries keep s entries =
      entries.map fun e => (e.1, stillFiles keep (s.enter e.1) e.1 e.2) := by
  induction entries with
  | nil => rfl
  | cons e entries ih => rw [stillEntries, ih, List.map_cons]

/-- What a walk comes upon in a directory is what it comes upon in the entries. -/
theorem mem_stillFiles_dir {s : Spot} {name : String} {entries : List (String × Node)}
    {step : Except WalkError Found} :
    step ∈ stillFiles keepAll s name (.dir entries) ↔
      ∃ e ∈ entries, step ∈ stillFiles keepAll (s.enter e.1) e.1 e.2 := by
  have hKeep : keepAll name true s.depth = true := rfl
  rw [stillFiles, if_pos hKeep, inOrder, List.mem_flatMap, stillEntries_eq_map]
  constructor
  · rintro ⟨found, hFound, hStep⟩
    rw [List.mem_mergeSort] at hFound
    obtain ⟨e, he, rfl⟩ := List.mem_map.mp hFound
    exact ⟨e, he, hStep⟩
  · rintro ⟨e, he, hStep⟩
    exact ⟨_, List.mem_mergeSort.mpr (List.mem_map_of_mem he), hStep⟩

/-- A walk of a tree without links meets no errors. -/
theorem exists_found {node : Node} (hPlain : Plain node) {s : Spot} {name : String}
    {step : Except WalkError Found} (h : step ∈ stillFiles keepAll s name node) :
    ∃ found, step = .ok found := by
  induction hPlain generalizing s name with
  | file contents =>
      have hKeep : keepAll name false s.depth = true := rfl
      rw [stillFiles, if_pos hKeep, List.mem_singleton] at h
      exact ⟨_, h⟩
  | dir different proper all ih =>
      obtain ⟨e, he, hStep⟩ := mem_stillFiles_dir.mp h
      exact ih e he hStep

theorem entryName_of_at? {node child : Node} (hStill : Still node) {names : List String}
    (h : node.at? names = some child) : ∀ name ∈ names, EntryName name := by
  induction hStill generalizing names with
  | file contents =>
      cases names with
      | nil => simp
      | cons name names => cases h
  | @dir entries different named all ih =>
      cases names with
      | nil => simp
      | cons name names =>
          rw [at?_dir_cons] at h
          obtain ⟨next, hNext, hRest⟩ := Option.bind_eq_some_iff.mp h
          have hMem := (lookup_eq_some_iff different name next).mp hNext
          exact List.forall_mem_cons.mpr ⟨named _ hMem, ih _ hMem hRest⟩

theorem proper_of_at? {node child : Node} (hPlain : Plain node) {names : List String}
    (h : node.at? names = some child) : ∀ name ∈ names, Proper name := by
  induction hPlain generalizing names with
  | file contents =>
      cases names with
      | nil => simp
      | cons name names => cases h
  | @dir entries different proper all ih =>
      cases names with
      | nil => simp
      | cons name names =>
          rw [at?_dir_cons] at h
          obtain ⟨next, hNext, hRest⟩ := Option.bind_eq_some_iff.mp h
          have hMem := (lookup_eq_some_iff different name next).mp hNext
          exact List.forall_mem_cons.mpr ⟨proper _ hMem, ih _ hMem hRest⟩

/-- The files that a walk comes upon are those of the tree, under the paths of their names. -/
theorem mem_stillFiles_iff {node : Node} (hPlain : Plain node) {s : Spot} {name : String}
    {found : Found} :
    .ok found ∈ stillFiles keepAll s name node ↔
      ∃ names, node.at? names = some (.file found.contents) ∧
        found.path = names.foldl within s.path ∧ found.relative = names.foldl within s.relative := by
  induction hPlain generalizing s name with
  | file contents =>
      have hKeep : keepAll name false s.depth = true := rfl
      rw [stillFiles, if_pos hKeep, List.mem_singleton, Except.ok.injEq]
      constructor
      · rintro rfl
        exact ⟨[], rfl, rfl, rfl⟩
      · rintro ⟨names, hPlace, hPath, hRelative⟩
        cases names with
        | nil =>
            cases hPlace
            cases found
            simp_all
        | cons first names => cases hPlace
  | @dir entries different proper all ih =>
      rw [mem_stillFiles_dir]
      constructor
      · rintro ⟨e, he, hStep⟩
        obtain ⟨names, hPlace, hPath, hRelative⟩ := (ih e he).mp hStep
        refine ⟨e.1 :: names, ?_, hPath, hRelative⟩
        rw [at?_dir_cons, (lookup_eq_some_iff different e.1 e.2).mpr he]
        exact hPlace
      · rintro ⟨names, hPlace, hPath, hRelative⟩
        cases names with
        | nil => cases hPlace
        | cons first names =>
            rw [at?_dir_cons] at hPlace
            obtain ⟨child, hChild, hRest⟩ := Option.bind_eq_some_iff.mp hPlace
            have hMem := (lookup_eq_some_iff different first child).mp hChild
            exact ⟨_, hMem, (ih _ hMem).mpr ⟨names, hRest, hPath, hRelative⟩⟩

theorem directories_le_of_mem {entries : List (String × Node)} {e : String × Node}
    (h : e ∈ entries) : e.2.directories ≤ entryDirectories entries := by
  induction entries with
  | nil => cases h
  | cons other entries ih =>
      rw [entryDirectories]
      rcases List.mem_cons.mp h with rfl | h
      · exact Nat.le_add_right _ _
      · exact Nat.le_trans (ih h) (Nat.le_add_left _ _)

/-- A tree has no fewer directories than any part of it. -/
theorem directories_le_of_at? {node child : Node} {location : Location}
    (h : node.at? location = some child) : child.directories ≤ node.directories := by
  induction location generalizing node with
  | nil =>
      rw [at?_nil] at h
      cases h
      exact Nat.le_refl _
  | cons name location ih =>
      cases node with
      | file contents => cases h
      | link target => cases h
      | dir entries =>
          rw [at?_dir_cons] at h
          obtain ⟨next, hNext, hRest⟩ := Option.bind_eq_some_iff.mp h
          obtain ⟨front, behind, hEntries, -⟩ := List.lookup_eq_some_iff.mp hNext
          have hMem : (name, next) ∈ entries := by
            rw [hEntries]
            exact List.mem_append_right _ List.mem_cons_self
          have hPart := directories_le_of_mem hMem
          have hInside := ih hRest
          simp only [directories] at hPart ⊢
          omega

/-- Without links it does not matter whether they are followed. -/
theorem followedFiles_eq {node : Node} (hStill : Still node) (root : Node) (keep : Keep)
    {depth : Nat} (hDepth : node.directories < depth) (s : Spot) (reach : Reach) (name : String) :
    followedFiles root keep depth s reach name node = stillFiles keep s name node := by
  induction hStill generalizing depth s reach name with
  | file contents =>
      obtain ⟨depth, rfl⟩ : ∃ less, depth = less + 1 := ⟨depth - 1, by omega⟩
      rw [followedFiles, stillFiles]
  | @dir entries different named all ih =>
      obtain ⟨depth, rfl⟩ : ∃ less, depth = less + 1 := ⟨depth - 1, by omega⟩
      rw [directories] at hDepth
      have hEntries (reach : String → Reach) : entries.map (fun e =>
          (e.1, followedFiles root keep depth (s.enter e.1) (reach e.1) e.1 e.2)) =
            stillEntries keep s entries := by
        rw [stillEntries_eq_map]
        apply List.map_congr_left
        intro e he
        have hLess := directories_le_of_mem he
        rw [ih e he (by omega)]
      rw [followedFiles, stillFiles]
      exact congrArg (fun found => if keep name true s.depth then inOrder found else [])
        (hEntries fun child => ⟨reach.location ++ [child], reach.links,
          ⟨reach.location, s.path⟩ :: reach.ancestors⟩)

section Single

/-- A tree without any file or link. -/
inductive Bare : Node → Prop where
  | dir {entries : List (String × Node)} (all : ∀ e ∈ entries, Bare e.2) : Bare (.dir entries)

/-- A directory with a single file, which stands right inside of it. -/
structure Alone (name : String) (contents : Bytes) (entries : List (String × Node)) : Prop where
  plain : Plain (.dir entries)
  file : entries.lookup name = some (.file contents)
  others : ∀ e ∈ entries, e.1 ≠ name → Bare e.2

theorem alone_singleton {name : String} (hName : Proper name) (contents : Bytes) :
    Alone name contents [(name, .file contents)] :=
  ⟨.dir (by simp) (by simpa using hName) (by simpa using Plain.file _), by simp, by simp⟩

theorem inOrder_eq_nil {found : List (String × Steps)} (h : ∀ f ∈ found, f.2 = []) :
    inOrder found = [] := by
  rw [inOrder, List.flatMap_eq_nil_iff]
  exact fun f hf => h f (List.mem_mergeSort.mp hf)

/-- What comes from a single one of the entries is in order. -/
theorem inOrder_eq_singleton {found : List (String × Steps)} {step : Except WalkError Found}
    (h : found.flatMap (·.2) = [step]) : inOrder found = [step] := by
  apply List.perm_singleton.mp
  rw [← h]
  exact (List.mergeSort_perm found _).flatMap_right _

theorem stillFiles_bare (keep : Keep) {node : Node} (h : Bare node) (s : Spot) (name : String) :
    stillFiles keep s name node = [] := by
  induction h generalizing s name with
  | @dir entries all ih =>
      rw [stillFiles, stillEntries_eq_map]
      split
      · apply inOrder_eq_nil
        intro f hf
        obtain ⟨e, he, rfl⟩ := List.mem_map.mp hf
        exact ih e he (s.enter e.1) e.1
      · rfl

/-- A walk of a directory comes upon its single file. -/
theorem stillFiles_alone {keep : Keep} {s : Spot} {dirName name : String} {contents : Bytes}
    {entries : List (String × Node)} (h : Alone name contents entries)
    (hDir : keep dirName true s.depth = true) (hFile : keep name false (s.depth + 1) = true) :
    stillFiles keep s dirName (.dir entries) =
      [.ok ⟨within s.path name, within s.relative name, contents⟩] := by
  obtain ⟨front, behind, rfl, -⟩ := List.lookup_eq_some_iff.mp h.file
  have hNames := h.plain.names_nodup
  rw [List.map_append, List.map_cons, List.nodup_append, List.nodup_cons] at hNames
  obtain ⟨-, ⟨hBehind, -⟩, hFront⟩ := hNames
  have hNone {part : List (String × Node)}
      (hPart : ∀ e ∈ part, e ∈ front ++ (name, .file contents) :: behind ∧ e.1 ≠ name) :
      part.flatMap (fun e => stillFiles keep (s.enter e.1) e.1 e.2) = [] := by
    rw [List.flatMap_eq_nil_iff]
    exact fun e he => stillFiles_bare keep (h.others e (hPart e he).1 (hPart e he).2) _ _
  have hHere : stillFiles keep (s.enter name) name (.file contents) =
      [.ok ⟨within s.path name, within s.relative name, contents⟩] := by
    rw [stillFiles]
    exact if_pos hFile
  rw [stillFiles, if_pos hDir, stillEntries_eq_map]
  apply inOrder_eq_singleton
  rw [List.flatMap_map, List.flatMap_append, List.flatMap_cons, hNone, hNone]
  · simpa using hHere
  · intro e he
    refine ⟨List.mem_append_right _ (List.mem_cons_of_mem _ he), fun hSame => ?_⟩
    have hMem : e.1 ∈ behind.map (·.1) := List.mem_map_of_mem he
    exact hBehind (hSame ▸ hMem)
  · intro e he
    refine ⟨List.mem_append_left _ he, fun hSame => ?_⟩
    exact hFront e.1 (List.mem_map_of_mem he) name List.mem_cons_self hSame

end Single

namespace Tree

variable {tree : Tree} {dir : String} {location : Location} {entries : List (String × Node)}
  {links : Nat}

/-- A walk where there are no links, whether they are followed or not. -/
theorem walk_still {node : Node} (h : tree.node false dir = .ok (location, node, links))
    (hStill : Still node) (follow : Bool) (keep : Keep) :
    tree.walk follow keep dir = stillFiles keep ⟨dir, "", 0⟩ (fileName dir) node := by
  have hRoot := directories_le_of_at? (at?_of_node h)
  have hDepth : node.directories < tree.maxDepth :=
    calc node.directories
      _ < tree.root.directories + 2 := by omega
      _ ≤ tree.maxDepth := Nat.le_mul_of_pos_right _ (by omega)
  simp only [walk, h]
  cases follow with
  | true => exact followedFiles_eq hStill tree.root keep hDepth _ _ _
  | false => cases hStill <;> rfl

/-- A walk of a directory without links. -/
theorem walk_eq (h : tree.node false dir = .ok (location, .dir entries, links))
    (hPlain : Plain (.dir entries)) (follow : Bool) (keep : Keep) :
    tree.walk follow keep dir = stillFiles keep ⟨dir, "", 0⟩ (fileName dir) (.dir entries) :=
  walk_still h hPlain.still follow keep

/-- A walk of a directory with a single file, where directories and this file are kept. -/
theorem walk_alone (h : tree.node false dir = .ok (location, .dir entries, links)) {name : String}
    {contents : Bytes} (hAlone : Alone name contents entries) (follow : Bool) {keep : Keep}
    (hDir : keep (fileName dir) true 0 = true) (hFile : keep name false 1 = true) :
    tree.walk follow keep dir = [.ok ⟨within dir name, within "" name, contents⟩] := by
  rw [walk_eq h hAlone.plain]
  exact stillFiles_alone hAlone hDir hFile

/-- The files that a walk comes upon. -/
theorem mem_walk_iff (h : tree.node false dir = .ok (location, .dir entries, links))
    (hPlain : Plain (.dir entries)) {follow : Bool} {found : Found} :
    .ok found ∈ tree.walk follow keepAll dir ↔
      ∃ names, (Node.dir entries).at? names = some (.file found.contents) ∧
        found.path = names.foldl within dir ∧ found.relative = Text.join "/" names := by
  rw [walk_eq h hPlain, mem_stillFiles_iff hPlain]
  constructor
  · rintro ⟨names, hPlace, hPath, hRelative⟩
    exact ⟨names, hPlace, hPath,
      hRelative.trans (relative_eq_join (entryName_of_at? hPlain.still hPlace))⟩
  · rintro ⟨names, hPlace, hPath, hRelative⟩
    exact ⟨names, hPlace, hPath,
      hRelative.trans (relative_eq_join (entryName_of_at? hPlain.still hPlace)).symm⟩

end Tree

end PolicyBundle.Files
