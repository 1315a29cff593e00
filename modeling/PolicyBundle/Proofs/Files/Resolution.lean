import PolicyBundle.Proofs.Files.Paths

/-! Where paths lead. A place that is found holds the node that is found there, and a path that goes on
behind a directory leads to where its rest leads from there. -/

namespace PolicyBundle.Files

namespace Node

theorem at?_nil (node : Node) : node.at? [] = some node := by
  cases node <;> rfl

theorem at?_dir_cons (entries : List (String × Node)) (name : String) (rest : Location) :
    (dir entries).at? (name :: rest) = (entries.lookup name).bind fun child => child.at? rest := rfl

/-- What is below a place that is reached. -/
theorem at?_append {node middle : Node} {location : Location} (h : node.at? location = some middle)
    (rest : Location) : node.at? (location ++ rest) = middle.at? rest := by
  induction location generalizing node with
  | nil =>
      rw [at?_nil] at h
      obtain rfl := Option.some.inj h
      rfl
  | cons name location ih =>
      cases node with
      | file contents => cases h
      | link target => cases h
      | dir entries =>
          rw [List.cons_append, at?_dir_cons]
          rw [at?_dir_cons] at h
          cases hChild : entries.lookup name with
          | none => rw [hChild] at h; cases h
          | some child =>
              rw [hChild] at h
              exact ih h

theorem at?_concat {node : Node} {location : Location} {entries : List (String × Node)}
    (h : node.at? location = some (.dir entries)) (name : String) :
    node.at? (location ++ [name]) = entries.lookup name := by
  rw [at?_append h, at?_dir_cons]
  cases entries.lookup name with
  | none => rfl
  | some child => exact at?_nil child

end Node

theorem Proper.notStay {name : String} (h : Proper name) : ¬(name = "" || name = ".") = true := by
  simp [h.nonempty, h.notDot]

variable {root : Node}

section Steps

variable {follow : Bool} {links : Nat} {start : Location} {entries : List (String × Node)}
  {segment : String}

/-- A segment that stays in a directory. -/
theorem resolveFrom_stay (hDir : root.at? start = some (.dir entries))
    (hBlank : (segment = "" || segment = ".") = true) (rest : List String) :
    resolveFrom root follow links start (segment :: rest) =
      resolveFrom root follow links start rest := by
  rw [resolveFrom]
  simp only [hDir, hBlank, if_true]

/-- A segment that leads out of a directory. -/
theorem resolveFrom_parent (hDir : root.at? start = some (.dir entries)) (rest : List String) :
    resolveFrom root follow links start (".." :: rest) =
      resolveFrom root follow links start.dropLast rest := by
  rw [resolveFrom]
  simp [hDir]

/-- A segment that leads to a link that is passed. -/
theorem resolveFrom_pass (hDir : root.at? start = some (.dir entries))
    (hProper : ¬(segment = "" || segment = ".") = true) (hUp : segment ≠ "..")
    (hShort : ¬segment.utf8ByteSize > 255) {target : String}
    (hLink : entries.lookup segment = some (.link target)) {rest : List String}
    (hOn : ¬(rest.isEmpty && !follow) = true) :
    resolveFrom root follow (links + 1) start (segment :: rest) =
      resolveFrom root follow links (if Text.startsWith target "/" then [] else start)
        (segments target ++ rest) := by
  rw [resolveFrom]
  simp only [hDir, hProper, hUp, hShort, hLink, hOn, Bool.false_eq_true, if_false]

/-- A segment that leads to an entry that is no link. -/
theorem resolveFrom_child (hDir : root.at? start = some (.dir entries))
    (hProper : ¬(segment = "" || segment = ".") = true) (hUp : segment ≠ "..")
    (hShort : ¬segment.utf8ByteSize > 255) {child : Node}
    (hChild : entries.lookup segment = some child) (hNoLink : ∀ target, child ≠ .link target)
    (rest : List String) : resolveFrom root follow links start (segment :: rest) =
      resolveFrom root follow links (start ++ [segment]) rest := by
  rw [resolveFrom]
  simp only [hDir, hProper, hUp, hShort, hChild, if_false]
  cases child with
  | link target => exact absurd rfl (hNoLink target)
  | file contents => rfl
  | dir inner => rfl

end Steps

/-- A place that is found holds the node. -/
theorem at?_of_resolveFrom {follow : Bool} {links left : Nat} {start location : Location}
    {segs : List String} {node : Node}
    (h : resolveFrom root follow links start segs = .ok (.found location node, left)) :
    root.at? location = some node := by
  fun_induction resolveFrom root follow links start segs with
  | case1 links start child hChild =>
      cases h
      exact hChild
  | case3 links start segment segs entries hDir hBlank ih => exact ih h
  | case4 links start segs entries hDir hProper ih => exact ih h
  | case6 links start segment segs entries hDir hProper hUp hShort target hLink hLast =>
      cases h
      rw [Node.at?_concat hDir, hLink]
  | case8 start segment segs entries hDir hProper hUp hShort target hLink hOn links begin ih =>
      exact ih h
  | case9 links start segment segs entries hDir hProper hUp hShort child hNoLink hChild ih =>
      exact ih h
  | _ => cases h

/-- A path goes on behind a directory. -/
theorem resolveFrom_append {follow : Bool} {links left : Nat} {start location : Location}
    {segs : List String} {entries : List (String × Node)}
    (h : resolveFrom root follow links start segs = .ok (.found location (.dir entries), left))
    (rest : List String) :
    resolveFrom root true links start (segs ++ rest) = resolveFrom root true left location rest := by
  fun_induction resolveFrom root follow links start segs with
  | case1 links start child hChild =>
      cases h
      rfl
  | case3 links start segment segs entries hDir hBlank ih =>
      rw [List.cons_append, resolveFrom_stay hDir hBlank]
      exact ih h
  | case4 links start segs entries hDir hProper ih =>
      rw [List.cons_append, resolveFrom_parent hDir]
      exact ih h
  | case8 start segment segs entries hDir hProper hUp hShort target hLink hOn links begin ih =>
      rw [List.cons_append, resolveFrom_pass hDir hProper hUp hShort hLink (by simp),
        ← List.append_assoc]
      exact ih h
  | case9 links start segment segs entries hDir hProper hUp hShort child hNoLink hChild ih =>
      rw [List.cons_append, resolveFrom_child hDir hProper hUp hShort hChild hNoLink]
      exact ih h
  | _ => cases h

/-- What is found and is no link is also found where links are followed to the end. -/
theorem resolveFrom_followed {follow : Bool} {links left : Nat} {start location : Location}
    {segs : List String} {node : Node} (hNoLink : ∀ target, node ≠ .link target)
    (h : resolveFrom root follow links start segs = .ok (.found location node, left)) :
    resolveFrom root true links start segs = .ok (.found location node, left) := by
  fun_induction resolveFrom root follow links start segs with
  | case1 links start child hChild =>
      cases h
      rw [resolveFrom, hChild]
  | case3 links start segment segs entries hDir hBlank ih =>
      rw [resolveFrom_stay hDir hBlank]
      exact ih h
  | case4 links start segs entries hDir hProper ih =>
      rw [resolveFrom_parent hDir]
      exact ih h
  | case6 links start segment segs entries hDir hProper hUp hShort target hLink hLast =>
      cases h
      exact absurd rfl (hNoLink target)
  | case8 start segment segs entries hDir hProper hUp hShort target hLink hOn links begin ih =>
      rw [resolveFrom_pass hDir hProper hUp hShort hLink (by simp)]
      exact ih h
  | case9 links start segment segs entries hDir hProper hUp hShort child hOther hChild ih =>
      rw [resolveFrom_child hDir hProper hUp hShort hChild hOther]
      exact ih h
  | _ => cases h

/-- A segment that stays where it is, in front of others. -/
theorem resolveFrom_dot_cons {follow : Bool} (links : Nat) (start : Location) {dot : String}
    (hDot : dot = "" ∨ dot = ".") (segment : String) (rest : List String) :
    resolveFrom root follow links start (dot :: segment :: rest) =
      resolveFrom root follow links start (segment :: rest) := by
  have hStays : (dot = "" || dot = ".") = true := by simpa using hDot
  rw [resolveFrom.eq_def]
  cases hPlace : root.at? start with
  | none => rw [resolveFrom, hPlace]
  | some node =>
      cases node with
      | dir entries => simp only [hStays, if_true]
      | file contents => rw [resolveFrom, hPlace]
      | link target => rw [resolveFrom, hPlace]

/-- Dots and empty segments lead to the directory that they are in. -/
theorem resolveFrom_dots {follow : Bool} (links : Nat) {location : Location}
    {entries : List (String × Node)} (hPlace : root.at? location = some (.dir entries))
    {segs : List String} (hDots : ∀ segment ∈ segs, segment = "" ∨ segment = ".") :
    resolveFrom root follow links location segs = .ok (.found location (.dir entries), links) := by
  induction segs with
  | nil => rw [resolveFrom, hPlace]
  | cons segment segs ih =>
      have hDot : (segment = "" || segment = ".") = true := by
        simpa using hDots segment List.mem_cons_self
      rw [resolveFrom, hPlace]
      simp only [hDot, if_true]
      exact ih fun other hOther => hDots other (List.mem_cons_of_mem segment hOther)

theorem resolveFrom_blank (links : Nat) (start : Location) (segs : List String) (segment : String)
    (rest : List String) :
    resolveFrom root true links start (segs ++ "" :: segment :: rest) =
      resolveFrom root true links start (segs ++ segment :: rest) := by
  fun_induction resolveFrom root true links start segs with
  | case1 links start child hChild => exact resolveFrom_dot_cons links start (.inl rfl) segment rest
  | case2 links start hNone => exact resolveFrom_dot_cons links start (.inl rfl) segment rest
  | case3 links start first segs entries hDir hBlank ih =>
      rw [List.cons_append, List.cons_append, resolveFrom_stay hDir hBlank,
        resolveFrom_stay hDir hBlank, ih]
  | case4 links start segs entries hDir hProper ih =>
      rw [List.cons_append, List.cons_append, resolveFrom_parent hDir, resolveFrom_parent hDir, ih]
  | case6 links start first segs entries hDir hProper hUp hShort target hLink hLast =>
      simp at hLast
  | case8 start first segs entries hDir hProper hUp hShort target hLink hOn links begin ih =>
      rw [List.append_assoc, List.append_assoc] at ih
      rw [List.cons_append, List.cons_append,
        resolveFrom_pass hDir hProper hUp hShort hLink (by simp),
        resolveFrom_pass hDir hProper hUp hShort hLink (by simp)]
      exact ih
  | case9 links start first segs entries hDir hProper hUp hShort child hNoLink hChild ih =>
      rw [List.cons_append, List.cons_append,
        resolveFrom_child hDir hProper hUp hShort hChild hNoLink,
        resolveFrom_child hDir hProper hUp hShort hChild hNoLink, ih]
  | case5 | case7 | case10 | case11 | case12 | case13 =>
      -- both paths end here, with one error
      rw [List.cons_append, List.cons_append, resolveFrom, resolveFrom]
      simp [*]

/-- The entry of a directory that a name leads to. -/
theorem resolveFrom_name {links : Nat} {location : Location} {entries : List (String × Node)}
    (hDir : root.at? location = some (.dir entries)) {name : String} (hName : Proper name)
    (hShort : name.utf8ByteSize ≤ 255) {child : Node} (hChild : entries.lookup name = some child)
    (hNoLink : ∀ target, child ≠ .link target) :
    resolveFrom root true links location [name] =
      .ok (.found (location ++ [name]) child, links) := by
  have hPlace : root.at? (location ++ [name]) = some child := by
    rw [Node.at?_concat hDir, hChild]
  have hEnd : resolveFrom root true links (location ++ [name]) [] =
      .ok (.found (location ++ [name]) child, links) := by
    rw [resolveFrom, hPlace]
  rw [resolveFrom_child hDir hName.notStay hName.notParent (Nat.not_lt.mpr hShort) hChild hNoLink,
    hEnd]

theorem resolveFrom_free {links : Nat} {location : Location} {entries : List (String × Node)}
    (hDir : root.at? location = some (.dir entries)) {name : String} (hName : Proper name)
    (hShort : name.utf8ByteSize ≤ 255) (hNone : entries.lookup name = none) :
    resolveFrom root true links location [name] = .ok (.free location name, links) := by
  rw [resolveFrom]
  simp only [hDir, hName.notStay, hName.notParent, Nat.not_lt.mpr hShort, hNone, Bool.false_eq_true,
    if_false, List.isEmpty_nil, if_true]

namespace Tree

/-- A path that can be resolved at all. -/
structure Usable (path : String) : Prop where
  nonempty : path ≠ ""
  noZero : '\x00' ∉ path.toList
  short : path.utf8ByteSize ≤ 4095

/-- Where a path begins. -/
def start (tree : Tree) (path : String) : Location :=
  if Text.startsWith path "/" then [] else tree.current

theorem resolve_of_usable (tree : Tree) (follow : Bool) {path : String} (h : Usable path) :
    tree.resolve follow path =
      resolveFrom tree.root follow maxLinks (tree.start path) (segments path) := by
  have hZero : path.toList.contains (Char.ofNat 0) = false := by
    simpa using h.noZero
  simp only [resolve, String.isEmpty_iff, h.nonempty, hZero, Nat.not_lt.mpr h.short,
    Bool.false_eq_true, if_false, start]

theorem resolve_eq_ok {tree : Tree} {follow : Bool} {path : String} {found : Place × Nat}
    (h : tree.resolve follow path = .ok found) :
    Usable path ∧
      resolveFrom tree.root follow maxLinks (tree.start path) (segments path) = .ok found := by
  have hUsable : Usable path := by
    simp only [resolve] at h
    split at h
    · cases h
    · rename_i hSome
      split at h
      · cases h
      · rename_i hZero
        split at h
        · cases h
        · rename_i hShort
          exact ⟨by simpa using hSome, by simpa using hZero, Nat.not_lt.mp hShort⟩
  exact ⟨hUsable, (resolve_of_usable tree follow hUsable).symm.trans h⟩

theorem node_eq_ok_iff {tree : Tree} {follow : Bool} {path : String} {location : Location}
    {node : Node} {links : Nat} :
    tree.node follow path = .ok (location, node, links) ↔
      tree.resolve follow path = .ok (.found location node, links) := by
  simp only [Tree.node, bind, Except.bind]
  cases tree.resolve follow path with
  | error e => simp
  | ok found =>
      obtain ⟨place, left⟩ := found
      cases place <;> simp [and_assoc]

/-- A name is looked up in the current directory. -/
theorem resolve_of_name (tree : Tree) {name : String} (hName : Proper name)
    (hShort : name.utf8ByteSize ≤ 255) :
    tree.resolve true name = resolveFrom tree.root true maxLinks tree.current [name] := by
  have hUsable : Usable name := ⟨hName.nonempty, hName.noZero, by omega⟩
  have hStart : tree.start name = tree.current := by
    rw [start, hName.entryName.not_startsWith_slash]
    rfl
  have hSegments : segments name = [name] := by
    rw [segments_eq_map, List.splitOn_eq_singleton hName.noSlash, List.map_singleton,
      String.ofList_toList]
  rw [resolve_of_usable tree true hUsable, hStart, hSegments]

/-- A path of dots leads to where it begins. -/
theorem node_of_dots {tree : Tree} {follow : Bool} {path : String} (hUsable : Usable path)
    {entries : List (String × Node)} (hPlace : tree.root.at? (tree.start path) = some (.dir entries))
    (hDots : ∀ segment ∈ segments path, segment = "" ∨ segment = ".") :
    tree.node follow path = .ok (tree.start path, .dir entries, maxLinks) := by
  rw [node_eq_ok_iff, resolve_of_usable tree follow hUsable]
  exact resolveFrom_dots maxLinks hPlace hDots

/-- A name is that of an entry of the current directory. -/
theorem node_of_name {tree : Tree} {entries : List (String × Node)}
    (hDir : tree.root.at? tree.current = some (.dir entries)) {name : String} (hName : Proper name)
    (hShort : name.utf8ByteSize ≤ 255) {child : Node} (hChild : entries.lookup name = some child)
    (hNoLink : ∀ target, child ≠ .link target) :
    tree.node true name = .ok (tree.current ++ [name], child, maxLinks) := by
  rw [node_eq_ok_iff, resolve_of_name tree hName hShort,
    resolveFrom_name hDir hName hShort hChild hNoLink]

section Directory

variable {tree : Tree} {follow : Bool} {dir : String} {location : Location}
  {entries : List (String × Node)} {links : Nat}

theorem at?_of_node {node : Node} (h : tree.node follow dir = .ok (location, node, links)) :
    tree.root.at? location = some node :=
  at?_of_resolveFrom (resolve_eq_ok (node_eq_ok_iff.mp h)).2

/-- What is no link is also found by a path that is followed to its end. -/
theorem node_followed {node : Node} (hNoLink : ∀ target, node ≠ .link target)
    (h : tree.node follow dir = .ok (location, node, links)) :
    tree.node true dir = .ok (location, node, links) := by
  obtain ⟨hUsable, hFound⟩ := resolve_eq_ok (node_eq_ok_iff.mp h)
  rw [node_eq_ok_iff, resolve_of_usable tree true hUsable, resolveFrom_followed hNoLink hFound]

/-- A name in a directory leads to its entry. -/
theorem resolve_join (h : tree.node follow dir = .ok (location, .dir entries, links))
    {name : String} (hName : Proper name) (hShort : (join dir name).utf8ByteSize ≤ 4095) :
    tree.resolve true (join dir name) = resolveFrom tree.root true links location [name] := by
  obtain ⟨hUsable, hFound⟩ := resolve_eq_ok (node_eq_ok_iff.mp h)
  obtain ⟨c, chars, hDir⟩ := List.exists_cons_of_ne_nil
    (fun hNil => hUsable.nonempty (String.toList_eq_nil_iff.mp hNil) : dir.toList ≠ [])
  have hChars := toList_within dir name
  rw [hDir, List.cons_append] at hChars
  have hSlash : "/".toList = ['/'] := rfl
  have hJoin : join dir name = within dir name := by
    rw [join, hName.entryName.not_startsWith_slash]
    rfl
  have hStart : tree.start (within dir name) = tree.start dir := by
    simp [start, Text.startsWith, hChars, hDir, hSlash]
  have hWithin : Usable (within dir name) := by
    refine ⟨fun hEmpty => ?_, fun hZero => ?_, hJoin ▸ hShort⟩
    · rw [hEmpty] at hChars
      cases hChars
    · rw [toList_within, List.mem_append] at hZero
      rcases hZero with hZero | hZero
      · exact hUsable.noZero hZero
      · split at hZero
        · exact hName.noZero hZero
        · rcases List.mem_cons.mp hZero with hEq | hZero
          · exact absurd hEq (by decide)
          · exact hName.noZero hZero
  rw [hJoin, resolve_of_usable tree true hWithin, hStart, ← resolveFrom_append hFound]
  obtain ⟨front, hSegments | hSegments, hName⟩ := segments_within dir hName.noSlash
  · rw [hName, hSegments]
  · rw [hName, hSegments, List.append_assoc, List.singleton_append, resolveFrom_blank]

end Directory

end Tree

end PolicyBundle.Files
