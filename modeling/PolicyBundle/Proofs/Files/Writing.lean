import PolicyBundle.Proofs.Files.Links

/-! What writing a file does to a tree: the file is where the path led, the same path leads there
afterwards, and every other location holds what it held before. -/

namespace PolicyBundle.Files

namespace Node

/-- A node without what is below it. -/
def alone : Node → Node
  | .dir _ => .dir []
  | node => node

/-- A location at which there is nothing, or a file. -/
def Takes (root : Node) (spot : Location) : Prop :=
  ∀ node, root.at? spot = some node → ∃ contents, node = .file contents

theorem lookup_setEntry_of_ne {name other : String} (hOther : other ≠ name) (node : Node)
    (entries : List (String × Node)) :
    (setEntry name node entries).lookup other = entries.lookup other := by
  have hBeq : (other == name) = false := by simpa using hOther
  induction entries with
  | nil => simp [setEntry, List.lookup_cons, hBeq]
  | cons e entries ih =>
      obtain ⟨first, old⟩ := e
      rw [setEntry]
      split
      · rename_i hFirst
        rw [List.lookup_cons, List.lookup_cons, hFirst, hBeq]
      · rw [List.lookup_cons, List.lookup_cons, ih]

theorem at?_setEntry (name : String) (node : Node) (entries : List (String × Node))
    (rest : Location) : (dir (setEntry name node entries)).at? (name :: rest) = node.at? rest := by
  rw [at?_dir_cons, lookup_setEntry, Option.bind_some]

theorem at?_setEntry_of_ne {name other : String} (hOther : other ≠ name) (node : Node)
    (entries : List (String × Node)) (rest : Location) :
    (dir (setEntry name node entries)).at? (other :: rest) = (dir entries).at? (other :: rest) := by
  rw [at?_dir_cons, at?_dir_cons, lookup_setEntry_of_ne hOther]

theorem setAt_cons_of_some {entries : List (String × Node)} {name : String} {child : Node}
    (hChild : entries.lookup name = some child) (rest : Location) (node : Node) :
    (dir entries).setAt (name :: rest) node = .dir (setEntry name (child.setAt rest node) entries) := by
  simp only [setAt, hChild]

theorem setAt_cons_of_none {entries : List (String × Node)} {name : String}
    (hNone : entries.lookup name = none) (rest : Location) (node : Node) :
    (dir entries).setAt (name :: rest) node =
      if rest = [] then .dir (setEntry name node entries) else .dir entries := by
  simp only [setAt, hNone, List.isEmpty_iff]

/-- What is put in the place of something is there. -/
theorem at?_setAt {root old : Node} {spot : Location} (h : root.at? spot = some old) (node : Node) :
    (root.setAt spot node).at? spot = some node := by
  induction spot generalizing root with
  | nil => exact at?_nil node
  | cons name spot ih =>
      cases root with
      | file contents => cases h
      | link target => cases h
      | dir entries =>
          rw [at?_dir_cons] at h
          obtain ⟨child, hChild, hBelow⟩ := Option.bind_eq_some_iff.mp h
          rw [setAt_cons_of_some hChild, at?_setEntry]
          exact ih hBelow

/-- What is put under a name in a directory is there. -/
theorem at?_setAt_concat {root : Node} {location : Location} {entries : List (String × Node)}
    (hDir : root.at? location = some (.dir entries)) (name : String) (node : Node) :
    (root.setAt (location ++ [name]) node).at? (location ++ [name]) = some node := by
  induction location generalizing root with
  | nil =>
      rw [at?_nil] at hDir
      obtain rfl := Option.some.inj hDir
      rw [List.nil_append]
      cases hChild : entries.lookup name with
      | some child =>
          rw [setAt_cons_of_some hChild, at?_setEntry]
          exact at?_nil node
      | none =>
          rw [setAt_cons_of_none hChild, if_pos rfl, at?_setEntry]
          exact at?_nil node
  | cons first location ih =>
      cases root with
      | file contents => cases hDir
      | link target => cases hDir
      | dir outer =>
          rw [at?_dir_cons] at hDir
          obtain ⟨child, hChild, hBelow⟩ := Option.bind_eq_some_iff.mp hDir
          rw [List.cons_append, setAt_cons_of_some hChild, at?_setEntry]
          exact ih hBelow

/-- Only the first name on the way to it tells whether something is changed in a directory. -/
theorem at?_setAt_cons_of_ne {first name : String} (hFirst : first ≠ name)
    (entries : List (String × Node)) (spot rest : Location) (node : Node) :
    ((dir entries).setAt (name :: spot) node).at? (first :: rest) =
      (dir entries).at? (first :: rest) := by
  cases hChild : entries.lookup name with
  | some child => rw [setAt_cons_of_some hChild, at?_setEntry_of_ne hFirst]
  | none =>
      rw [setAt_cons_of_none hChild]
      split
      · exact at?_setEntry_of_ne hFirst node entries rest
      · rfl

/-- A directory on the way to what is changed is still a directory. -/
theorem exists_setAt_cons (entries : List (String × Node)) (name : String) (spot : Location)
    (node : Node) : ∃ entriesAfter, (dir entries).setAt (name :: spot) node = .dir entriesAfter := by
  cases hChild : entries.lookup name with
  | some child => exact ⟨_, setAt_cons_of_some hChild spot node⟩
  | none =>
      rw [setAt_cons_of_none hChild]
      split <;> exact ⟨_, rfl⟩

/-- Every other location holds what it held, directories with what is below them apart. -/
theorem at?_setAt_of_ne {root : Node} {spot other : Location} (hTakes : root.Takes spot)
    (hOther : other ≠ spot) (contents : Bytes) :
    ((root.setAt spot (.file contents)).at? other).map alone = (root.at? other).map alone := by
  induction spot generalizing root other with
  | nil =>
      obtain ⟨old, rfl⟩ := hTakes root (at?_nil root)
      obtain ⟨name, rest, rfl⟩ := List.exists_cons_of_ne_nil hOther
      rfl
  | cons name spot ih =>
      cases root with
      | file old => rfl
      | link target => rfl
      | dir entries =>
          cases other with
          | nil =>
              obtain ⟨entriesAfter, hAfter⟩ := exists_setAt_cons entries name spot (.file contents)
              rw [hAfter]
              rfl
          | cons first rest =>
              by_cases hFirst : first = name
              · subst hFirst
                have hRest : rest ≠ spot := fun hSame => hOther (by rw [hSame])
                cases hChild : entries.lookup first with
                | some child =>
                    have hBelow (rest : Location) :
                        (dir entries).at? (first :: rest) = child.at? rest := by
                      rw [at?_dir_cons, hChild, Option.bind_some]
                    rw [setAt_cons_of_some hChild, at?_setEntry, hBelow]
                    exact ih (fun node hNode => hTakes node (by rwa [hBelow])) hRest
                | none =>
                    rw [setAt_cons_of_none hChild]
                    split
                    · rename_i hEnd
                      subst hEnd
                      obtain ⟨next, rest, rfl⟩ := List.exists_cons_of_ne_nil hRest
                      rw [at?_setEntry, at?_dir_cons, hChild]
                      rfl
                    · rfl
              · rw [at?_setAt_cons_of_ne hFirst]

end Node

open Node

/-- The tree `next` is the tree `root` with a file of these contents at a location. -/
structure Node.Wrote (root : Node) (spot : Location) (contents : Bytes) (next : Node) : Prop where
  takes : root.Takes spot
  file : next.at? spot = some (.file contents)
  others : ∀ other, other ≠ spot → (next.at? other).map alone = (root.at? other).map alone

/-- Where a file comes to be that is written at a place. -/
def Place.spot? : Place → Option Location
  | .found location (.file _) => some location
  | .found _ _ => none
  | .free location name => some (location ++ [name])

/-- A name that is no link leads on to what is found from its entry. -/
theorem resolveFrom_of_entry {root : Node} {links : Nat} {location : Location}
    {entries : List (String × Node)} (hDir : root.at? location = some (.dir entries))
    {segment : String} (hProper : ¬(segment = "" || segment = ".") = true) (hUp : segment ≠ "..")
    (hShort : ¬segment.utf8ByteSize > 255)
    (hNoLink : ∀ target, entries.lookup segment ≠ some (.link target)) {rest : List String}
    {found : Place × Nat}
    (h : resolveFrom root true links (location ++ [segment]) rest = .ok found) :
    resolveFrom root true links location (segment :: rest) = .ok found := by
  cases hChild : entries.lookup segment with
  | none =>
      rw [← at?_concat hDir] at hChild
      cases rest <;> (rw [resolveFrom, hChild] at h; cases h)
  | some child =>
      have hOther (target : String) : child ≠ .link target :=
        fun hEq => hNoLink target (hEq ▸ hChild)
      rw [resolveFrom_child hDir hProper hUp hShort hChild hOther]
      exact h

section Wrote

variable {root next : Node} {spot : Location} {contents : Bytes}

/-- A directory is none that was written, and it is still there. -/
theorem Node.Wrote.dir (h : root.Wrote spot contents next) {location : Location}
    {entries : List (String × Node)} (hDir : root.at? location = some (.dir entries)) :
    ∃ entriesAfter, next.at? location = some (.dir entriesAfter) := by
  have hOther : location ≠ spot := by
    rintro rfl
    obtain ⟨old, hOld⟩ := h.takes _ hDir
    cases hOld
  have hSame := h.others location hOther
  rw [hDir] at hSame
  obtain ⟨node, hNode, hAlone⟩ := Option.map_eq_some_iff.mp hSame
  cases node with
  | dir entriesAfter => exact ⟨entriesAfter, hNode⟩
  | file old => cases hAlone
  | link target => cases hAlone

/-- A name in a directory is that of a link to the same place as before, or of no link. -/
theorem Node.Wrote.link_iff (h : root.Wrote spot contents next) {location : Location}
    {entries entriesAfter : List (String × Node)} (hDir : root.at? location = some (.dir entries))
    (hAfter : next.at? location = some (.dir entriesAfter)) (name target : String) :
    entriesAfter.lookup name = some (.link target) ↔ entries.lookup name = some (.link target) := by
  rw [← at?_concat hDir, ← at?_concat hAfter]
  by_cases hSpot : location ++ [name] = spot
  · rw [hSpot, h.file]
    refine ⟨nofun, fun hLink => ?_⟩
    obtain ⟨old, hOld⟩ := h.takes _ hLink
    cases hOld
  · have hSame := h.others _ hSpot
    have hLinks (node : Node) : node.alone = .link target ↔ node = .link target := by
      cases node <;> simp [alone]
    have hPlaces (place : Option Node) :
        place.map alone = some (.link target) ↔ place = some (.link target) := by
      simp only [Option.map_eq_some_iff, hLinks, exists_eq_right]
    rw [← hPlaces, hSame, hPlaces]

/-- A path that leads to where the file was written leads to the file. -/
theorem resolveFrom_wrote (h : root.Wrote spot contents next) {links left : Nat} {start : Location}
    {segs : List String} {place : Place}
    (hFound : resolveFrom root true links start segs = .ok (place, left))
    (hSpot : place.spot? = some spot) :
    resolveFrom next true links start segs = .ok (.found spot (.file contents), left) := by
  -- The same steps are taken: every directory on the way is still one, and no link has changed.
  fun_induction resolveFrom root true links start segs with
  | case1 links start child hChild =>
      cases hFound
      cases child with
      | file old =>
          obtain rfl : start = spot := Option.some.inj hSpot
          rw [resolveFrom, h.file]
      | dir inner => cases hSpot
      | link target => cases hSpot
  | case3 links start segment segs entries hDir hBlank ih =>
      obtain ⟨entriesAfter, hAfter⟩ := h.dir hDir
      rw [resolveFrom_stay hAfter hBlank]
      exact ih hFound
  | case4 links start segs entries hDir hProper ih =>
      obtain ⟨entriesAfter, hAfter⟩ := h.dir hDir
      rw [resolveFrom_parent hAfter]
      exact ih hFound
  | case6 links start segment segs entries hDir hProper hUp hShort target hLink hLast =>
      simp at hLast
  | case8 start segment segs entries hDir hProper hUp hShort target hLink hOn links begin ih =>
      obtain ⟨entriesAfter, hAfter⟩ := h.dir hDir
      have hLinkAfter := (h.link_iff hDir hAfter segment target).mpr hLink
      rw [resolveFrom_pass hAfter hProper hUp hShort hLinkAfter hOn]
      exact ih hFound
  | case9 links start segment segs entries hDir hProper hUp hShort child hNoLink hChild ih =>
      obtain ⟨entriesAfter, hAfter⟩ := h.dir hDir
      refine resolveFrom_of_entry hAfter hProper hUp hShort (fun target => ?_) (ih hFound)
      rw [Ne, h.link_iff hDir hAfter, hChild]
      exact fun hEq => hNoLink target (Option.some.inj hEq)
  | case10 links start segment segs entries hDir hProper hUp hShort hNone hLast =>
      obtain ⟨entriesAfter, hAfter⟩ := h.dir hDir
      obtain rfl := List.isEmpty_iff.mp hLast
      cases hFound
      obtain rfl : start ++ [segment] = spot := Option.some.inj hSpot
      refine resolveFrom_of_entry hAfter hProper hUp hShort (fun target hLink => ?_) ?_
      · rw [h.link_iff hDir hAfter, hNone] at hLink
        cases hLink
      · rw [resolveFrom, h.file]
  | _ => cases hFound

end Wrote

/-- A place that is free is a directory that has no such name. -/
theorem dir_of_resolveFrom {root : Node} {follow : Bool} {links left : Nat} {start location : Location}
    {segs : List String} {name : String}
    (h : resolveFrom root follow links start segs = .ok (.free location name, left)) :
    ∃ entries, root.at? location = some (.dir entries) ∧ entries.lookup name = none := by
  fun_induction resolveFrom root follow links start segs with
  | case3 links start segment segs entries hDir hBlank ih => exact ih h
  | case4 links start segs entries hDir hProper ih => exact ih h
  | case8 start segment segs entries hDir hProper hUp hShort target hLink hOn links begin ih =>
      exact ih h
  | case9 links start segment segs entries hDir hProper hUp hShort child hNoLink hChild ih =>
      exact ih h
  | case10 links start segment segs entries hDir hProper hUp hShort hNone hLast =>
      cases h
      exact ⟨entries, hDir, hNone⟩
  | _ => cases h

/-- A file can be written where a path leads to a file or to a free place. -/
theorem wrote_of_resolveFrom {root : Node} {links left : Nat} {start spot : Location}
    {segs : List String} {place : Place}
    (h : resolveFrom root true links start segs = .ok (place, left)) (hSpot : place.spot? = some spot)
    (contents : Bytes) : root.Wrote spot contents (root.setAt spot (.file contents)) := by
  have hTakes : root.Takes spot ∧
      (root.setAt spot (.file contents)).at? spot = some (.file contents) := by
    cases place with
    | found location node =>
        have hNode := at?_of_resolveFrom h
        cases node with
        | file old =>
            obtain rfl : location = spot := Option.some.inj hSpot
            refine ⟨fun node hAt => ?_, at?_setAt hNode _⟩
            rw [hNode] at hAt
            exact ⟨old, (Option.some.inj hAt).symm⟩
        | dir inner => cases hSpot
        | link target => cases hSpot
    | free location name =>
        obtain ⟨entries, hDir, hNone⟩ := dir_of_resolveFrom h
        obtain rfl : location ++ [name] = spot := Option.some.inj hSpot
        refine ⟨fun node hAt => ?_, at?_setAt_concat hDir name _⟩
        rw [at?_concat hDir, hNone] at hAt
        cases hAt
  exact ⟨hTakes.1, hTakes.2, fun other hOther => at?_setAt_of_ne hTakes.1 hOther contents⟩

namespace Tree

variable {tree next : Tree} {path : String} {contents : Bytes}

/-- A write that succeeds is one to a file or to a free place. -/
theorem exists_place_of_write (h : tree.write path contents = .ok next) :
    ∃ place links spot, tree.resolve true path = .ok (place, links) ∧ place.spot? = some spot ∧
      next = tree.setAt spot (.file contents) := by
  rw [write] at h
  split at h
  · split at h
    · cases h
    · rename_i first rest hPath
      cases hBare : tree.resolve true (String.ofList (first :: rest).reverse) <;>
        (rw [hBare] at h; cases h)
  · cases hPlace : tree.resolve true path with
    | error e => rw [hPlace] at h; cases h
    | ok found =>
        obtain ⟨place, links⟩ := found
        rw [hPlace] at h
        cases place with
        | free location name => exact ⟨_, _, _, rfl, rfl, (Except.ok.inj h).symm⟩
        | found location node =>
            cases node with
            | file old => exact ⟨_, _, _, rfl, rfl, (Except.ok.inj h).symm⟩
            | dir inner => cases h
            | link target => cases h

/-- A name that is free in the current directory can be written to. -/
theorem exists_write_of_name {entries : List (String × Node)}
    (hDir : tree.root.at? tree.current = some (.dir entries)) {name : String} (hName : Proper name)
    (hShort : name.utf8ByteSize ≤ 255) (hNone : entries.lookup name = none) (contents : Bytes) :
    ∃ next, tree.write name contents = .ok next := by
  have hEnd : Text.endsWith name "/" = false :=
    (Bool.or_eq_false_iff.mp (not_isOpen_of_suffix hName.entryName List.suffix_rfl)).2
  have hPlace := resolve_of_name tree hName hShort
  rw [resolveFrom_free hDir hName hShort hNone] at hPlace
  refine ⟨tree.setAt (tree.current ++ [name]) (.file contents), ?_⟩
  simp only [write, hEnd, hPlace, Bool.false_eq_true, if_false]
  rfl

/-- A file that was written is what the path then leads to, and nothing else has changed. -/
theorem exists_wrote (h : tree.write path contents = .ok next) :
    ∃ spot links, tree.root.Wrote spot contents next.root ∧ next.current = tree.current ∧
      next.node true path = .ok (spot, .file contents, links) := by
  obtain ⟨place, links, spot, hPlace, hSpot, rfl⟩ := exists_place_of_write h
  obtain ⟨hUsable, hFound⟩ := resolve_eq_ok hPlace
  have hWrote := wrote_of_resolveFrom hFound hSpot contents
  refine ⟨spot, links, hWrote, rfl, ?_⟩
  rw [node_eq_ok_iff, resolve_of_usable _ true hUsable]
  exact resolveFrom_wrote hWrote hFound hSpot

theorem read_of_write (h : tree.write path contents = .ok next) : next.read path = .ok contents := by
  obtain ⟨spot, links, -, -, hNode⟩ := exists_wrote h
  rw [read, hNode]
  rfl

end Tree

end PolicyBundle.Files
