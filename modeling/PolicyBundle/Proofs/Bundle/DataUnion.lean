import PolicyBundle.Proofs.Bundle.DataTree
import PolicyBundle.Proofs.Text.Order

/-! Mounting is a union that is checked for conflicts. A position is the list of names that lead to a
value; a merge of two trees fails exactly where they hold values at one position of which only one
can stand there, and otherwise each position of the result holds what the two trees held there. -/

namespace PolicyBundle.DataTree

open Json

/-- The value at a position of a tree. -/
def valueAt? (tree : Json) : List String → Option Json
  | [] => some tree
  | name :: position =>
    match tree with
    | .object fields => (fields.lookup name).bind (valueAt? · position)
    | _ => none

/-- A value in objects of one field each. -/
def wrap (path : List String) (value : Json) : Json :=
  path.foldr (fun name inner => .object [(name, inner)]) value

/-- Two values of which only one can stand at a position: the first is no object, or it is an object
with fields and the second is none. -/
def Clash (old new : Json) : Prop :=
  old.isObject = false ∨ old.isEmptyObject = false ∧ new.isObject = false

/-- A position that both trees have, with values that clash. -/
def Conflicts (target incoming : Json) (position : List String) : Prop :=
  ∃ old new, valueAt? target position = some old ∧ valueAt? incoming position = some new ∧
    Clash old new

/-- The order of positions: at the first name that differs, in the order of the bytes. -/
def Before : List String → List String → Prop :=
  List.Lex fun a b => Text.utf8 a < Text.utf8 b

/-- The conflict of two trees that comes before all their others, if they have any. -/
def IsFirstConflict (target incoming : Json) : Option (List String) → Prop
  | none => ∀ position, ¬Conflicts target incoming position
  | some first => Conflicts target incoming first ∧
      ∀ position, Conflicts target incoming position → position = first ∨ Before first position

/-- What the union of two trees has at a position, by what the trees have there. -/
inductive UnionAt : Option Json → Option Json → Option Json → Prop where
  | left (old : Option Json) : UnionAt old none old
  | right (new : Option Json) : UnionAt none new new
  | empty (new : Json) : UnionAt (some emptyObject) (some new) (some new)
  | both {old new fields : Fields}
      (names : ∀ name, (fields.lookup name).isSome =
        ((old.lookup name).isSome || (new.lookup name).isSome)) :
      UnionAt (some (.object old)) (some (.object new)) (some (.object fields))

/-- A tree that has at each position what the union of two others has there. -/
def IsUnion (target incoming result : Json) : Prop :=
  ∀ position, UnionAt (valueAt? target position) (valueAt? incoming position)
    (valueAt? result position)

/-- Every value of a tree that is no object is at its position in another one. -/
def Keeps (target result : Json) : Prop :=
  ∀ position value, valueAt? target position = some value → value.isObject = false →
    valueAt? result position = some value

/-- What a merge of two trees comes to. -/
structure Merges (target incoming : Json) (merged : Merged) : Prop where
  first : IsFirstConflict target incoming merged.2
  keeps : Keeps target merged.1
  union : merged.2 = none → IsUnion target incoming merged.1

@[simp] theorem valueAt?_nil (tree : Json) : valueAt? tree [] = some tree := rfl

@[simp] theorem valueAt?_object (fields : Fields) (name : String) (position : List String) :
    valueAt? (.object fields) (name :: position) =
      (fields.lookup name).bind (valueAt? · position) := rfl

theorem valueAt?_cons_of_not_isObject {value : Json} (h : value.isObject = false) (name : String)
    (position : List String) : valueAt? value (name :: position) = none := by
  cases value with
  | object fields => cases h
  | _ => rfl

theorem Keeps.refl (tree : Json) : Keeps tree tree :=
  fun _ _ hAt _ => hAt

theorem Keeps.trans {first second third : Json} (hFirst : Keeps first second)
    (hSecond : Keeps second third) : Keeps first third :=
  fun position value hAt hScalar => hSecond position value (hFirst position value hAt hScalar) hScalar

theorem Keeps.setField {name : String} {new : Json} {fields : Fields}
    (h : ∀ old, fields.lookup name = some old → Keeps old new) :
    Keeps (.object fields) (.object (setField name new fields)) := by
  intro position value hAt hScalar
  cases position with
  | nil =>
      cases hAt
      cases hScalar
  | cons other position =>
      rw [valueAt?_object, lookup_setField]
      rw [valueAt?_object] at hAt
      split
      · rename_i hSame
        obtain ⟨old, hOld, hInner⟩ := Option.bind_eq_some_iff.mp hAt
        exact h old (hSame ▸ hOld) position value hInner hScalar
      · exact hAt

theorem UnionAt.eq_left {old result : Option Json} (h : UnionAt old none result) : result = old := by
  cases h <;> rfl

/-- The union of two objects is an object with the names of both. -/
theorem UnionAt.names {old new : Fields} {result : Option Json}
    (h : UnionAt (some (.object old)) (some (.object new)) result) :
    ∃ fields, result = some (.object fields) ∧ ∀ name,
      (fields.lookup name).isSome = ((old.lookup name).isSome || (new.lookup name).isSome) := by
  cases h with
  | empty => exact ⟨new, rfl, fun name => rfl⟩
  | both names => exact ⟨_, rfl, names⟩

theorem not_conflicts_objects (old new : Fields) : ¬Conflicts (.object old) (.object new) [] := by
  rintro ⟨_, _, hOld, hNew, hClash⟩
  cases hOld
  cases hNew
  rcases hClash with h | ⟨-, h⟩ <;> cases h

section Fields

variable {name : String} {value new : Json} {existing incoming : Fields}

/-- One field more: its conflicts are below its name, all others are with the fields behind it. -/
theorem conflicts_cons_iff (hOnce : incoming.lookup name = none) (position : List String) :
    Conflicts (.object existing) (.object ((name, value) :: incoming)) position ↔
      (∃ old inner, position = name :: inner ∧ existing.lookup name = some old ∧
        Conflicts old value inner) ∨
      Conflicts (.object (setField name new existing)) (.object incoming) position := by
  cases position with
  | nil => simp [not_conflicts_objects]
  | cons other position =>
      simp only [Conflicts, valueAt?_object, lookup_cons, lookup_setField]
      by_cases hSame : other = name
      · subst hSame
        simp only [if_pos, hOnce, Option.bind_none, Option.bind_some, List.cons.injEq, true_and]
        constructor
        · rintro ⟨old, value, hOld, hValue⟩
          obtain ⟨tree, hTree, hInner⟩ := Option.bind_eq_some_iff.mp hOld
          exact .inl ⟨tree, position, rfl, hTree, old, value, hInner, hValue⟩
        · rintro (⟨tree, _, rfl, hTree, old, value, hInner, hValue⟩ | ⟨_, _, _, hNone, _⟩)
          · exact ⟨old, value, by rw [hTree]; exact hInner, hValue⟩
          · cases hNone
      · simp [hSame]

theorem IsUnion.cons (hOnce : incoming.lookup name = none) {result : Json}
    (hField : ∀ position, UnionAt ((existing.lookup name).bind (valueAt? · position))
      (valueAt? value position) (valueAt? new position))
    (hRest : IsUnion (.object (setField name new existing)) (.object incoming) result) :
    IsUnion (.object existing) (.object ((name, value) :: incoming)) result := by
  intro position
  have hAt := hRest position
  cases position with
  | nil =>
      obtain ⟨fields, hFields, hNames⟩ := hAt.names
      rw [valueAt?_nil, valueAt?_nil, hFields]
      refine .both fun other => ?_
      rw [hNames, lookup_setField, lookup_cons]
      split <;> simp
  | cons other position =>
      rw [valueAt?_object, valueAt?_object, lookup_setField] at hAt
      rw [valueAt?_object, valueAt?_object, lookup_cons]
      by_cases hSame : other = name
      · subst hSame
        rw [if_pos rfl, hOnce] at hAt
        rw [if_pos rfl, hAt.eq_left]
        exact hField position
      · rw [if_neg hSame] at hAt ⊢
        exact hAt

end Fields

theorem lookup_eq_none_of_sorted {name : String} {value : Json} {fields : Fields}
    (h : Sorted ((name, value) :: fields)) : fields.lookup name = none := by
  rw [Option.eq_none_iff_forall_ne_some]
  intro other hOther
  exact String.lt_irrefl name ((List.pairwise_cons.mp h).1 _ (mem_of_lookup hOther))

/-- What stands under the first of names in order comes before what stands under the others. -/
theorem before_of_lookup {name other : String} {value found : Json} {fields : Fields}
    (hSorted : Sorted ((name, value) :: fields)) (h : fields.lookup other = some found)
    (left right : List String) : Before (name :: left) (other :: right) :=
  .rel (Text.utf8_lt_iff.mpr ((List.pairwise_cons.mp hSorted).1 _ (mem_of_lookup h)))

theorem IsFirstConflict.congr {target incoming target' incoming' : Json}
    (h : ∀ position, Conflicts target incoming position ↔ Conflicts target' incoming' position)
    {first : Option (List String)} (hFirst : IsFirstConflict target' incoming' first) :
    IsFirstConflict target incoming first := by
  cases first with
  | none => exact fun position hConflict => hFirst position ((h position).mp hConflict)
  | some first =>
      exact ⟨(h first).mpr hFirst.1,
        fun position hConflict => hFirst.2 position ((h position).mp hConflict)⟩

theorem merges_nil (existing : Fields) :
    Merges (.object existing) (.object []) (.object existing, none) where
  first := by
    rintro (_ | ⟨name, position⟩) ⟨old, new, hOld, hNew, hClash⟩
    · exact not_conflicts_objects _ _ ⟨old, new, hOld, hNew, hClash⟩
    · cases hNew
  keeps := Keeps.refl _
  union := by
    rintro - (_ | ⟨name, position⟩)
    · exact .both (by simp)
    · exact .left _

/-- A field merged, and then those behind it. -/
theorem Merges.cons {name : String} {value new : Json} {existing incoming : Fields} {merged : Merged}
    (hSorted : Sorted ((name, value) :: incoming))
    (hField : ∀ old, existing.lookup name = some old → Merges old value (new, none))
    (hNew : existing.lookup name = none → new = value)
    (hRest : Merges (.object (setField name new existing)) (.object incoming) merged) :
    Merges (.object existing) (.object ((name, value) :: incoming)) merged where
  first := by
    refine .congr (fun position => ?_) hRest.first
    rw [conflicts_cons_iff (lookup_eq_none_of_sorted hSorted)]
    refine or_iff_right ?_
    rintro ⟨old, inner, -, hOld, hConflict⟩
    exact (hField old hOld).first inner hConflict
  keeps := (Keeps.setField fun old hOld => (hField old hOld).keeps).trans hRest.keeps
  union := by
    intro hNone
    refine IsUnion.cons (lookup_eq_none_of_sorted hSorted) (fun position => ?_) (hRest.union hNone)
    cases hOld : existing.lookup name with
    | none =>
        rw [hNew hOld]
        exact .right _
    | some old => exact (hField old hOld).union rfl position

/-- A field whose merge ends in a conflict: no field behind it has one that comes before. -/
theorem Merges.cons_conflict {name : String} {value old new : Json} {conflict : List String}
    {existing incoming : Fields} (hSorted : Sorted ((name, value) :: incoming))
    (hOld : existing.lookup name = some old) (hField : Merges old value (new, some conflict)) :
    Merges (.object existing) (.object ((name, value) :: incoming))
      (.object (setField name new existing), some (name :: conflict)) where
  first := by
    have hIff := @conflicts_cons_iff name value new existing incoming
      (lookup_eq_none_of_sorted hSorted)
    refine ⟨(hIff _).mpr (.inl ⟨old, conflict, rfl, hOld, hField.first.1⟩), fun position hConflict => ?_⟩
    rcases (hIff position).mp hConflict with ⟨other, inner, rfl, hOther, hInner⟩ | hBehind
    · obtain rfl : old = other := Option.some.inj (hOld.symm.trans hOther)
      rcases hField.first.2 inner hInner with rfl | hBefore
      · exact .inl rfl
      · exact .inr (.cons hBefore)
    · cases position with
      | nil => exact absurd hBehind (not_conflicts_objects _ _)
      | cons other position =>
          obtain ⟨_, _, _, hIncoming, _⟩ := hBehind
          obtain ⟨found, hFound, _⟩ := Option.bind_eq_some_iff.mp hIncoming
          exact .inr (before_of_lookup hSorted hFound _ _)
  keeps := Keeps.setField fun other hOther => by
    rw [hOld] at hOther
    cases hOther
    exact hField.keeps
  union := nofun

theorem mergeFields_merges {existing incoming : Fields} (hSorted : Sorted incoming)
    (hIncoming : ∀ f ∈ incoming, ∀ target, Merges target f.2 (merge target f.2)) :
    Merges (.object existing) (.object incoming)
      (.object (mergeFields existing incoming).1, (mergeFields existing incoming).2) := by
  induction incoming generalizing existing with
  | nil => exact merges_nil existing
  | cons f incoming ih =>
      obtain ⟨name, value⟩ := f
      have hRest (existing : Fields) := @ih existing (List.pairwise_cons.mp hSorted).2
        fun g hg => hIncoming g (List.mem_cons_of_mem _ hg)
      simp only [mergeFields]
      split
      · rename_i hNone
        refine .cons hSorted (fun old hOld => ?_) (fun _ => rfl) (hRest _)
        rw [hNone] at hOld
        cases hOld
      · rename_i old hOld
        have hField := hIncoming _ List.mem_cons_self old
        split
        · rename_i new hMerged
          rw [hMerged] at hField
          refine .cons hSorted (fun other hOther => ?_) (fun hNone => ?_) (hRest _)
          · rw [hOld] at hOther
            cases hOther
            exact hField
          · rw [hOld] at hNone
            cases hNone
        · rename_i new conflict hMerged
          rw [hMerged] at hField
          exact .cons_conflict hSorted hOld hField

/-- Two values that clash where they meet, one of which has no positions below. -/
theorem merges_clash {target value : Json} (hClash : Clash target value)
    (hBelow : target.isObject = false ∨ value.isObject = false) :
    Merges target value (target, some []) where
  first := by
    refine ⟨⟨target, value, rfl, rfl, hClash⟩, ?_⟩
    rintro (_ | ⟨name, position⟩) ⟨old, new, hOld, hNew, -⟩
    · exact .inl rfl
    · rcases hBelow with h | h
      · rw [valueAt?_cons_of_not_isObject h] at hOld
        cases hOld
      · rw [valueAt?_cons_of_not_isObject h] at hNew
        cases hNew
  keeps := Keeps.refl target
  union := nofun

/-- An empty object gives way. -/
theorem merges_emptyObject (value : Json) : Merges emptyObject value (value, none) where
  first := by
    rintro (_ | ⟨name, position⟩) ⟨old, new, hOld, hNew, hClash⟩
    · cases hOld
      rcases hClash with hClash | ⟨hClash, -⟩ <;> cases hClash
    · cases hOld
  keeps := by
    rintro (_ | ⟨name, position⟩) old hOld hScalar
    · cases hOld
      cases hScalar
    · cases hOld
  union := by
    rintro - (_ | ⟨name, position⟩)
    · exact .empty value
    · exact .right _

theorem merges_scalar (target : Json) {value : Json} (h : value.isObject = false) :
    Merges target value
      (if target.isEmptyObject then ((value, none) : Merged) else (target, some [])) := by
  split
  · rename_i hEmpty
    obtain rfl : target = emptyObject := by
      unfold isEmptyObject at hEmpty
      split at hEmpty
      · rfl
      · cases hEmpty
    exact merges_emptyObject value
  · rename_i hSome
    exact merges_clash (.inr ⟨Bool.eq_false_iff.mpr hSome, h⟩) (.inr h)

theorem merge_merges (target : Json) {value : Json} (h : Formed value) :
    Merges target value (merge target value) := by
  induction h generalizing target with
  | @object incoming sorted all ih =>
      cases target with
      | object existing => exact mergeFields_merges sorted fun f hf target => ih f hf target
      | _ => exact merges_clash (.inl rfl) (.inl rfl)
  | _ => exact merges_scalar target rfl

@[simp] theorem wrap_cons (name : String) (path : List String) (value : Json) :
    wrap (name :: path) value = .object [(name, wrap path value)] := rfl

theorem wrap_formed {value : Json} (h : Formed value) (path : List String) :
    Formed (wrap path value) := by
  induction path with
  | nil => exact h
  | cons name path ih =>
      refine .object (List.pairwise_singleton _ _) fun f hf => ?_
      rw [List.mem_singleton.mp hf]
      exact ih

/-- The descent along a path is the merge of the objects along it. -/
theorem mountAt_eq_merge (target : Json) (path : List String) {value : Json} (h : Formed value) :
    mountAt target path value = merge target (wrap path value) := by
  induction path generalizing target with
  | nil => rfl
  | cons name path ih =>
      cases target with
      | object fields =>
          simp only [wrap_cons, mountAt, merge, mergeFields]
          cases hLookup : fields.lookup name with
          | none =>
              simp only [Option.getD_none, ih, merge_emptyObject (wrap_formed h path)]
              rfl
          | some old =>
              simp only [Option.getD_some, ih]
              rcases merge old (wrap path value) with ⟨new, _ | conflict⟩ <;> rfl
      | _ => rfl

/-- Fields in order are given by what stands under each name. -/
theorem eq_of_lookup {left right : Fields} (hLeft : Sorted left) (hRight : Sorted right)
    (h : ∀ name, left.lookup name = right.lookup name) : left = right := by
  induction left generalizing right with
  | nil =>
      cases right with
      | nil => rfl
      | cons g right =>
          have hNone := h g.1
          rw [lookup_cons, if_pos rfl] at hNone
          cases hNone
  | cons f left ih =>
      obtain ⟨name, value⟩ := f
      have hFound : right.lookup name = some value := by
        rw [← h, lookup_cons, if_pos rfl]
      cases right with
      | nil => cases hFound
      | cons g right =>
          obtain ⟨other, found⟩ := g
          -- each first name is among the names of the other side, so neither is less
          obtain rfl : name = other := by
            by_contra hNe
            have hOther := h other
            rw [lookup_cons, lookup_cons, if_pos rfl, if_neg (Ne.symm hNe)] at hOther
            rw [lookup_cons, if_neg hNe] at hFound
            exact String.lt_asymm ((List.pairwise_cons.mp hRight).1 _ (mem_of_lookup hFound))
              ((List.pairwise_cons.mp hLeft).1 _ (mem_of_lookup hOther))
          rw [lookup_cons, if_pos rfl, Option.some.injEq] at hFound
          subst hFound
          congr 1
          refine ih (List.pairwise_cons.mp hLeft).2 (List.pairwise_cons.mp hRight).2 fun other => ?_
          have hOther := h other
          rw [lookup_cons, lookup_cons] at hOther
          split at hOther
          · rename_i hSame
            rw [hSame, lookup_eq_none_of_sorted hLeft, lookup_eq_none_of_sorted hRight]
          · exact hOther

/-- What two trees have at a position is the same as far as the position itself shows it: objects
with the same names, or one value. -/
def Agree (left right : Option Json) : Prop :=
  left = right ∨ ∃ fields others, left = some (.object fields) ∧ right = some (.object others) ∧
    ∀ name, (fields.lookup name).isSome = (others.lookup name).isSome

theorem UnionAt.agree {old new left right : Option Json} (hLeft : UnionAt old new left)
    (hRight : UnionAt old new right) : Agree left right := by
  cases hLeft with
  | left => exact .inl hRight.eq_left.symm
  | right =>
      cases hRight with
      | left => exact .inl rfl
      | right => exact .inl rfl
  | empty =>
      cases hRight with
      | empty => exact .inl rfl
      | both names => exact .inr ⟨_, _, rfl, rfl, fun name => (names name).symm⟩
  | both names =>
      obtain ⟨others, rfl, hOthers⟩ := hRight.names
      exact .inr ⟨_, _, rfl, rfl, fun name => (names name).trans (hOthers name).symm⟩

theorem eq_of_agree {left right : Json} (hLeft : Formed left) (hRight : Formed right)
    (h : ∀ position, Agree (valueAt? left position) (valueAt? right position)) : left = right := by
  induction hLeft generalizing right with
  | @object fields sorted all ih =>
      rcases h [] with hSame | ⟨_, others, hFields, hOthers, hNames⟩
      · exact Option.some.inj hSame
      · cases hFields
        cases hOthers
        cases hRight with
        | object hSorted hAll =>
            congr 1
            refine eq_of_lookup sorted hSorted fun name => ?_
            have hName := hNames name
            cases hField : fields.lookup name with
            | none =>
                rw [hField] at hName
                exact (Option.isSome_eq_false_iff.mp hName.symm |> Option.isNone_iff_eq_none.mp).symm
            | some value =>
                rw [hField] at hName
                obtain ⟨other, hOther⟩ := Option.isSome_iff_exists.mp hName.symm
                rw [hOther]
                congr 1
                refine ih _ (mem_of_lookup hField) (hAll _ (mem_of_lookup hOther)) fun position => ?_
                have hBelow := h (name :: position)
                rwa [valueAt?_object, valueAt?_object, hField, hOther] at hBelow
  | _ =>
      rcases h [] with hSame | ⟨_, _, hScalar, _⟩
      · exact Option.some.inj hSame
      · cases hScalar

/-- The union is the only one: no other tree has it at every position. -/
theorem IsUnion.unique {target incoming left right : Json} (hLeft : Formed left)
    (hRight : Formed right) (hUnionLeft : IsUnion target incoming left)
    (hUnionRight : IsUnion target incoming right) : left = right :=
  eq_of_agree hLeft hRight fun position => (hUnionLeft position).agree (hUnionRight position)

/-- Mounting a value is the union with the objects along its path around it, checked for
conflicts. -/
theorem mount_eq_union (tree : Json) (path : List String) {value : Json} (h : Formed value) :
    mount tree path value = mount tree [] (wrap path value) ∧
    ((mount tree path value).2 = none ↔
      ¬∃ position, Conflicts tree (wrap path value) position) ∧
    ((mount tree path value).2 = none → IsUnion tree (wrap path value) (mount tree path value).1) ∧
    (∀ text, (mount tree path value).2 = some text → ∃ position, text = Text.join "." position ∧
      IsFirstConflict tree (wrap path value) (some position)) ∧
    Keeps tree (mount tree path value).1 := by
  have hWrapped := wrap_formed h path
  have hMerge := mountAt_eq_merge tree path h
  obtain ⟨hFirst, hKeeps, hUnion⟩ := merge_merges tree hWrapped
  simp only [mount, mountAt, hMerge, Option.map_eq_none_iff, Option.map_eq_some_iff]
  refine ⟨trivial, ⟨fun hNone => ?_, fun hFree => ?_⟩, hUnion, ?_, hKeeps⟩
  · rw [hNone] at hFirst
    exact not_exists.mpr hFirst
  · rw [Option.eq_none_iff_forall_ne_some]
    intro position hSome
    rw [hSome] at hFirst
    exact hFree ⟨position, hFirst.1⟩
  · rintro text ⟨position, hSome, rfl⟩
    rw [hSome] at hFirst
    exact ⟨position, rfl, hFirst⟩

/-- A conflict below the path: the fields in front of it are merged, the empty object is not
asked for. -/
theorem mount_eq_union_conflict :
    let tree : Json := .object [("a", .object [("x", .bool false)]), ("b", emptyObject)]
    let incoming : Json := .object [("w", .null), ("x", .bool true), ("y", .null)]
    Formed incoming ∧ (mount tree ["a"] incoming).2 = some "a.x" ∧
      ∃ position, "a.x" = Text.join "." position ∧
        IsFirstConflict tree (wrap ["a"] incoming) (some position) := by
  intro tree incoming
  have hFormed : Formed incoming := by
    refine .object (by unfold Sorted; decide) fun f hf => ?_
    simp only [List.mem_cons, List.not_mem_nil, or_false] at hf
    rcases hf with rfl | rfl | rfl
    · exact .null
    · exact .bool true
    · exact .null
  have hText : (mount tree ["a"] incoming).2 = some "a.x" := rfl
  obtain ⟨-, -, -, hFirst, -⟩ := mount_eq_union tree ["a"] hFormed
  exact ⟨hFormed, hText, hFirst "a.x" hText⟩

end PolicyBundle.DataTree
