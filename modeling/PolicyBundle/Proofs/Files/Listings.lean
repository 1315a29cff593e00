import PolicyBundle.Proofs.Files.Walks
import PolicyBundle.Proofs.Text.Order

/-! What a walk lists where there are no links: the files that are kept together with all directories
around them, each once. Depth first, with the entries of each directory in the order of their names,
means that of two files the one comes first which comes first where the ways to them part. -/

namespace PolicyBundle.Files

open Node

/-- Where the ways to two files part, the bytes of the one name are less than those of the other. -/
def Precedes (first second : List String) : Prop :=
  ∃ common left right first' second', first = common ++ left :: first' ∧
    second = common ++ right :: second' ∧ Text.utf8 left < Text.utf8 right

theorem Precedes.of_lt {left right : String} (h : left < right) (first second : List String) :
    Precedes (left :: first) (right :: second) :=
  ⟨[], left, right, first, second, rfl, rfl, Text.utf8_lt_iff.mpr h⟩

theorem Precedes.cons {first second : List String} (h : Precedes first second) (name : String) :
    Precedes (name :: first) (name :: second) := by
  obtain ⟨common, left, right, first', second', rfl, rfl, hLess⟩ := h
  exact ⟨name :: common, left, right, first', second', rfl, rfl, hLess⟩

theorem Precedes.lt {first second : List String} (h : Precedes first second) : first < second := by
  obtain ⟨common, left, right, first', second', rfl, rfl, hLess⟩ := h
  exact List.append_left_lt (List.cons_lt_cons_iff.mpr (.inl (Text.utf8_lt_iff.mp hLess)))

theorem Precedes.ne {first second : List String} (h : Precedes first second) : first ≠ second :=
  ne_of_lt h.lt

/-- Files in this order are determined by which they are. -/
theorem eq_of_precedes {left right : List (List String × Bytes)}
    (hLeft : left.Pairwise fun f g => Precedes f.1 g.1)
    (hRight : right.Pairwise fun f g => Precedes f.1 g.1) (hSame : ∀ f, f ∈ left ↔ f ∈ right) :
    left = right := by
  have hOnce {files : List (List String × Bytes)}
      (hFiles : files.Pairwise fun f g => Precedes f.1 g.1) : files.Nodup :=
    hFiles.imp fun hBefore hEq => hBefore.ne (congrArg Prod.fst hEq)
  have hPerm : left.Perm right := (List.perm_ext_iff_of_nodup (hOnce hLeft) (hOnce hRight)).mpr hSame
  refine hPerm.eq_of_pairwise (fun f g _ _ hBefore hAfter => ?_) hLeft hRight
  exact absurd hAfter.lt (List.lt_asymm hBefore.lt)

/-- Whether a walk keeps a file and the directories around it, from a name at some depth on. -/
def keepsAll (keep : Keep) (depth : Nat) (name : String) : List String → Bool
  | [] => keep name false depth
  | next :: rest => keep name true depth && keepsAll keep (depth + 1) next rest

/-- The files of a tree that a walk keeps, in the order of the walk. -/
structure Lists (keep : Keep) (depth : Nat) (name : String) (node : Node)
    (files : List (List String × Bytes)) : Prop where
  mem : ∀ names contents, (names, contents) ∈ files ↔
    node.at? names = some (.file contents) ∧ keepsAll keep depth name names = true
  ordered : files.Pairwise fun f g => Precedes f.1 g.1

theorem Lists.once {keep : Keep} {depth : Nat} {name : String} {node : Node}
    {files : List (List String × Bytes)} (h : Lists keep depth name node files) :
    (files.map (·.1)).Nodup :=
  List.pairwise_map.mpr (h.ordered.imp Precedes.ne)

/-- Entries in the order of their names. -/
def byName (entries : List (String × Node)) : List (String × Node) :=
  entries.mergeSort fun a b => a.1 ≤ b.1

theorem byName_pairwise {entries : List (String × Node)}
    (hDifferent : (entries.map (·.1)).Nodup) : (byName entries).Pairwise fun a b => a.1 < b.1 := by
  have hSorted : (byName entries).Pairwise fun a b => a.1 ≤ b.1 := by
    refine (List.pairwise_mergeSort ?_ ?_ entries).imp (by simp)
    · simp only [decide_eq_true_eq]
      exact fun a b c => String.le_trans
    · simp only [Bool.or_eq_true, decide_eq_true_eq]
      exact fun a b => String.le_total a.1 b.1
  have hNames : ((byName entries).map (·.1)).Nodup :=
    ((List.mergeSort_perm entries _).map _).nodup_iff.mpr hDifferent
  refine (hSorted.and (List.pairwise_map.mp hNames)).imp fun ⟨hLe, hNe⟩ => ?_
  exact lt_of_le_of_ne hLe hNe

theorem inOrder_map (entries : List (String × Node)) (stepsOf : String × Node → Steps) :
    inOrder (entries.map fun e => (e.1, stepsOf e)) = (byName entries).flatMap stepsOf := by
  have hSort : (byName entries).map (fun e => (e.1, stepsOf e)) =
      (entries.map fun e => (e.1, stepsOf e)).mergeSort fun a b => a.1 ≤ b.1 :=
    List.map_mergeSort fun a _ b _ => rfl
  rw [inOrder, ← hSort, List.flatMap_map]

section Directory

variable {keep : Keep} {depth : Nat} {name : String} {entries : List (String × Node)}
  {filesOf : String × Node → List (List String × Bytes)}

/-- The files of a directory, when those of its entries are known. -/
def inside (filesOf : String × Node → List (List String × Bytes)) (entries : List (String × Node)) :
    List (List String × Bytes) :=
  (byName entries).flatMap fun e => (filesOf e).map fun f => (e.1 :: f.1, f.2)

theorem mem_inside {file : List String × Bytes} :
    file ∈ inside filesOf entries ↔
      ∃ e ∈ entries, ∃ f ∈ filesOf e, (e.1 :: f.1, f.2) = file := by
  simp only [inside, byName, List.mem_flatMap, List.mem_mergeSort, List.mem_map]

theorem lists_inside (hDifferent : (entries.map (·.1)).Nodup) (hKept : keep name true depth = true)
    (h : ∀ e ∈ entries, Lists keep (depth + 1) e.1 e.2 (filesOf e)) :
    Lists keep depth name (.dir entries) (inside filesOf entries) where
  mem names contents := by
    rw [mem_inside]
    constructor
    · rintro ⟨e, he, f, hf, hSame⟩
      obtain ⟨rfl, rfl⟩ := Prod.mk.inj hSame
      obtain ⟨hPlace, hRest⟩ := ((h e he).mem f.1 f.2).mp hf
      refine ⟨?_, by rw [keepsAll, hKept, hRest]; rfl⟩
      rw [at?_dir_cons, (lookup_eq_some_iff hDifferent e.1 e.2).mpr he]
      exact hPlace
    · rintro ⟨hPlace, hAll⟩
      cases names with
      | nil => cases hPlace
      | cons next rest =>
          rw [at?_dir_cons] at hPlace
          obtain ⟨child, hChild, hBelow⟩ := Option.bind_eq_some_iff.mp hPlace
          have hMem := (lookup_eq_some_iff hDifferent next child).mp hChild
          rw [keepsAll, hKept, Bool.true_and] at hAll
          exact ⟨_, hMem, (rest, contents), ((h _ hMem).mem rest contents).mpr ⟨hBelow, hAll⟩, rfl⟩
  ordered := by
    rw [inside, List.pairwise_flatMap]
    constructor
    · intro e he
      rw [List.pairwise_map]
      exact (h e (List.mem_mergeSort.mp he)).ordered.imp fun hBefore => hBefore.cons e.1
    · refine (byName_pairwise hDifferent).imp fun {a b} hLess f hf g hg => ?_
      obtain ⟨f, -, rfl⟩ := List.mem_map.mp hf
      obtain ⟨g, -, rfl⟩ := List.mem_map.mp hg
      exact .of_lt hLess f.1 g.1

/-- A walk that does not keep a directory lists nothing of it. -/
theorem lists_nil (hKept : keep name true depth = false) :
    Lists keep depth name (.dir entries) [] where
  mem names contents := by
    cases names with
    | nil => simp [Node.at?]
    | cons next rest => simp [keepsAll, hKept]
  ordered := .nil

theorem lists_file (contents : Bytes) :
    Lists keep depth name (.file contents)
      (if keep name false depth then [([], contents)] else []) where
  mem names other := by
    cases names with
    | nil => cases hKept : keep name false depth <;> simp [Node.at?, keepsAll, hKept, eq_comm]
    | cons next rest => split <;> simp [Node.at?]
  ordered := by
    split
    · exact List.pairwise_singleton _ _
    · exact .nil

end Directory

/-- The step of a walk for a file below a spot. -/
def stepFor (s : Spot) (file : List String × Bytes) : Except WalkError Found :=
  .ok ⟨file.1.foldl within s.path, file.1.foldl within s.relative, file.2⟩

/-- What a walk of a tree without links lists. -/
theorem exists_lists {keep : Keep} {node : Node} (hStill : Still node) (s : Spot) (name : String) :
    ∃ files, stillFiles keep s name node = files.map (stepFor s) ∧
      Lists keep s.depth name node files := by
  induction hStill generalizing s name with
  | file contents =>
      refine ⟨_, ?_, lists_file contents⟩
      rw [stillFiles]
      split <;> rfl
  | @dir entries different named all ih =>
      rw [stillFiles, stillEntries_eq_map, inOrder_map]
      cases hKept : keep name true s.depth with
      | false => exact ⟨[], rfl, lists_nil hKept⟩
      | true =>
          -- each entry has its own list; the directory puts them behind each other, by the names
          choose! filesOf hSteps hLists using fun e he => ih e he (s.enter e.1) e.1
          refine ⟨inside filesOf entries, ?_, lists_inside different hKept hLists⟩
          rw [if_pos rfl, inside, List.map_flatMap]
          apply List.flatMap_congr
          intro e he
          rw [hSteps e (List.mem_mergeSort.mp he), List.map_map]
          rfl

namespace Tree

variable {tree : Tree} {root : String} {location : Location} {node : Node} {links : Nat}

/-- A walk of a tree without links lists the files that it keeps, under the paths of their names. -/
theorem walk_lists (h : tree.node false root = .ok (location, node, links)) (hStill : Still node)
    (follow : Bool) (keep : Keep) :
    ∃ files, Lists keep 0 (fileName root) node files ∧
      tree.walk follow keep root = files.map fun file =>
        .ok ⟨file.1.foldl within root, Text.join "/" file.1, file.2⟩ := by
  obtain ⟨files, hSteps, hLists⟩ := exists_lists hStill ⟨root, "", 0⟩ (fileName root)
  refine ⟨files, hLists, ?_⟩
  rw [walk_still h hStill, hSteps]
  apply List.map_congr_left
  rintro ⟨names, contents⟩ hFile
  have hNames := entryName_of_at? hStill ((hLists.mem names contents).mp hFile).1
  rw [stepFor, relative_eq_join hNames]

end Tree

end PolicyBundle.Files
