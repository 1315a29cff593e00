import PolicyBundle.Proofs.Files.Walks

/-! What a walk that passes over links can tell of a tree: nothing of where the links point. The path
that it begins at may itself be a link; below that, a link is a name without a file. -/

namespace PolicyBundle.Files

namespace Node

mutual

/-- A tree without the targets of its links. -/
def unlinked : Node → Node
  | .file contents => .file contents
  | .link _ => .link ""
  | .dir entries => .dir (unlinkedEntries entries)

/-- Entries without the targets of the links among them and below them. -/
def unlinkedEntries : List (String × Node) → List (String × Node)
  | [] => []
  | (name, node) :: rest => (name, node.unlinked) :: unlinkedEntries rest

end

theorem lookup_unlinkedEntries (name : String) (entries : List (String × Node)) :
    (unlinkedEntries entries).lookup name = (entries.lookup name).map unlinked := by
  induction entries with
  | nil => rfl
  | cons e entries ih =>
      obtain ⟨other, node⟩ := e
      rw [unlinkedEntries, List.lookup_cons, List.lookup_cons, ih]
      cases name == other <;> rfl

/-- The contents, where there is a file. -/
def contents? : Option Node → Option Bytes
  | some (.file contents) => some contents
  | _ => none

theorem contents?_unlinked (place : Option Node) :
    contents? (place.map unlinked) = contents? place := by
  cases place with
  | none => rfl
  | some node => cases node <;> rfl

/-- A link to somewhere. -/
def IsLink (place : Option Node) : Prop := ∃ target, place = some (.link target)

theorem isLink_unlinked_iff (place : Option Node) : IsLink (place.map unlinked) ↔ IsLink place := by
  cases place with
  | none => simp [IsLink]
  | some node => cases node <;> simp [IsLink, unlinked]

/-- Another link in the place of one. -/
theorem unlinkedEntries_setEntry {name target : String} (other : String)
    {entries : List (String × Node)} (hLink : entries.lookup name = some (.link target)) :
    unlinkedEntries (setEntry name (.link other) entries) = unlinkedEntries entries := by
  induction entries with
  | nil => cases hLink
  | cons e entries ih =>
      obtain ⟨first, node⟩ := e
      rw [List.lookup_cons] at hLink
      by_cases hSame : name = first
      · subst hSame
        simp only [beq_self_eq_true, Option.some.injEq] at hLink
        subst hLink
        simp [setEntry, unlinkedEntries, unlinked]
      · have hBeq : (name == first) = false := by simpa using hSame
        rw [hBeq] at hLink
        rw [setEntry, if_neg (Ne.symm hSame), unlinkedEntries, unlinkedEntries, ih hLink]

theorem lookup_setEntry (name : String) (node : Node) (entries : List (String × Node)) :
    (setEntry name node entries).lookup name = some node := by
  induction entries with
  | nil => simp [setEntry]
  | cons e entries ih =>
      obtain ⟨first, old⟩ := e
      rw [setEntry]
      split
      · simp
      · rename_i hOther
        have hBeq : (name == first) = false := by simpa using Ne.symm hOther
        rw [List.lookup_cons, hBeq]
        exact ih

end Node

open Node

section Walk

variable (keep : Keep)

mutual

/-- Where links point does not matter to a walk that passes over them. -/
theorem stillFiles_unlinked (s : Spot) (name : String) : (node : Node) →
    stillFiles keep s name node.unlinked = stillFiles keep s name node
  | .file _ => rfl
  | .link _ => rfl
  | .dir entries => by
      rw [unlinked, stillFiles, stillFiles, stillEntries_unlinked]

theorem stillEntries_unlinked (s : Spot) : (entries : List (String × Node)) →
    stillEntries keep s (unlinkedEntries entries) = stillEntries keep s entries
  | [] => rfl
  | (name, node) :: rest => by
      rw [unlinkedEntries, stillEntries, stillEntries, stillFiles_unlinked, stillEntries_unlinked]

end

end Walk

/-- A name in a directory that is a link leads to where the link points. -/
theorem resolveFrom_link {root : Node} {links : Nat} {location : Location}
    {entries : List (String × Node)} (hDir : root.at? location = some (.dir entries)) {name : String}
    (hName : Proper name) (hShort : name.utf8ByteSize ≤ 255) {target : String}
    (hLink : entries.lookup name = some (.link target)) (rest : List String) :
    resolveFrom root true (links + 1) location (name :: rest) =
      resolveFrom root true links (if Text.startsWith target "/" then [] else location)
        (segments target ++ rest) :=
  resolveFrom_pass hDir hName.notStay hName.notParent (Nat.not_lt.mpr hShort) hLink (by simp)

/-- A path that leads somewhere when it is followed to its end leads to the same place otherwise, or to
a link. -/
theorem resolveFrom_unfollowed {root : Node} {links left : Nat} {start location : Location}
    {segs : List String} {node : Node}
    (h : resolveFrom root true links start segs = .ok (.found location node, left)) :
    resolveFrom root false links start segs = .ok (.found location node, left) ∨
      ∃ linkLocation target linkLeft, resolveFrom root false links start segs =
        .ok (.found linkLocation (.link target), linkLeft) := by
  fun_induction resolveFrom root true links start segs with
  | case1 links start child hChild =>
      left
      rw [resolveFrom, hChild]
      exact h
  | case3 links start segment segs entries hDir hBlank ih =>
      rw [resolveFrom_stay hDir hBlank]
      exact ih h
  | case4 links start segs entries hDir hProper ih =>
      rw [resolveFrom_parent hDir]
      exact ih h
  | case6 links start segment segs entries hDir hProper hUp hShort target hLink hLast =>
      simp at hLast
  | case8 start segment segs entries hDir hProper hUp hShort target hLink hOn links begin ih =>
      cases segs with
      | nil =>
          right
          rw [resolveFrom]
          simp only [hDir, hProper, hUp, hShort, hLink, if_false]
          exact ⟨_, _, _, rfl⟩
      | cons next segs =>
          rw [resolveFrom_pass hDir hProper hUp hShort hLink (by simp)]
          exact ih h
  | case9 links start segment segs entries hDir hProper hUp hShort child hNoLink hChild ih =>
      rw [resolveFrom_child hDir hProper hUp hShort hChild hNoLink]
      exact ih h
  | _ => cases h

namespace Tree

variable {tree : Tree} {dir : String} {location : Location} {entries : List (String × Node)}
  {links : Nat}

/-- A walk that passes over links, from a path that leads to a directory. -/
theorem walk_of_node (h : tree.node true dir = .ok (location, .dir entries, links)) {keep : Keep}
    (hKeep : keep (fileName dir) true 0 = true) :
    tree.walk false keep dir = inOrder (stillEntries keep ⟨dir, "", 0⟩ entries) := by
  obtain ⟨hUsable, hFound⟩ := resolve_eq_ok (node_eq_ok_iff.mp h)
  rcases resolveFrom_unfollowed hFound with hSame | ⟨linkLocation, target, linkLeft, hLink⟩
  · rw [← resolve_of_usable tree false hUsable, ← node_eq_ok_iff] at hSame
    simp only [walk, hSame, stillFiles, hKeep, if_true, Bool.false_eq_true, if_false]
  · rw [← resolve_of_usable tree false hUsable, ← node_eq_ok_iff] at hLink
    simp only [walk, hLink, h, Bool.false_eq_true, if_false]

/-- The contents of the file at a path, where there is one. -/
def contents? (tree : Tree) (path : String) : Option Bytes :=
  match tree.node true path with
  | .ok (_, .file contents, _) => some contents
  | _ => none

theorem isFile_eq (tree : Tree) (path : String) :
    tree.isFile path = (tree.contents? path).isSome := by
  simp only [isFile, contents?]
  cases tree.node true path with
  | error e => rfl
  | ok found =>
      obtain ⟨location, node, links⟩ := found
      cases node <;> rfl

theorem read_of_contents? {path : String} {contents : Bytes}
    (h : tree.contents? path = some contents) : tree.read path = .ok contents := by
  rw [contents?] at h
  split at h
  · rename_i hNode
    cases h
    rw [read, hNode]
    rfl
  · cases h

/-- The contents of a file in a directory, where no link has its name. -/
theorem contents?_join (h : tree.node true dir = .ok (location, .dir entries, links)) {name : String}
    (hName : Proper name) (hLength : name.utf8ByteSize ≤ 255)
    (hNoLink : ¬ IsLink (entries.lookup name)) :
    tree.contents? (join dir name) =
      if (join dir name).utf8ByteSize ≤ 4095 then Node.contents? (entries.lookup name) else none := by
  have hDir := at?_of_node h
  split
  · rename_i hShort
    rw [contents?, Tree.node, resolve_join h hName hShort]
    cases hChild : entries.lookup name with
    | none =>
        rw [resolveFrom_free hDir hName hLength hChild]
        rfl
    | some child =>
        rw [resolveFrom_name hDir hName hLength hChild fun target hEq =>
          hNoLink ⟨target, by rw [hChild, hEq]⟩]
        cases child <;> rfl
  · rename_i hLong
    rw [contents?]
    split
    · rename_i hNode
      exact absurd (resolve_eq_ok (node_eq_ok_iff.mp hNode)).1.short hLong
    · rfl

end Tree

end PolicyBundle.Files
