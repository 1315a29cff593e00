import Mathlib.Data.List.Pairwise
import PolicyBundle.Proofs.Bundle.DataUnion

/-! The union of several documents, one after the other. Documents are united exactly if no two of
them conflict, an earlier one with a later one, and what they come to is told by what each of them
has at each position. So an order matters only where two documents are united in one order and not
in the other: where one has an object without fields and the other a value that is no object. -/

namespace PolicyBundle.DataTree

open Json

/-- The union of two trees, if they have no conflict. -/
def union? (tree document : Json) : Option Json :=
  match merge tree document with
  | (result, none) => some result
  | (_, some _) => none

/-- A document that can be united with a tree. -/
def Fits (tree document : Json) : Prop :=
  ∀ position, ¬Conflicts tree document position

/-- A document has an object without fields where another one has a value that is no object. -/
def GivesWay (document other : Json) : Prop :=
  ∃ position value, valueAt? document position = some emptyObject ∧
    valueAt? other position = some value ∧ value.isObject = false

theorem union?_eq_some_iff {tree document result : Json} :
    union? tree document = some result ↔ merge tree document = (result, none) := by
  rw [union?]
  split
  · rename_i found hFound
    simp [hFound]
  · rename_i conflict hFound
    simp [hFound]

section Union

variable {tree document result : Json}

theorem isUnion_of_union? (hDocument : Formed document) (h : union? tree document = some result) :
    IsUnion tree document result := by
  have hMerges := merge_merges tree hDocument
  rw [union?_eq_some_iff.mp h] at hMerges
  exact hMerges.union rfl

theorem formed_of_union? (hTree : Formed tree) (hDocument : Formed document)
    (h : union? tree document = some result) : Formed result := by
  have hMerged := merge_formed hTree hDocument
  rwa [union?_eq_some_iff.mp h] at hMerged

theorem exists_union?_iff (hDocument : Formed document) :
    (∃ result, union? tree document = some result) ↔ Fits tree document := by
  have hFirst := (merge_merges tree hDocument).first
  simp only [union?_eq_some_iff]
  constructor
  · rintro ⟨result, hResult⟩
    rw [hResult] at hFirst
    exact hFirst
  · intro hFits
    cases hConflict : (merge tree document).2 with
    | none => exact ⟨_, Prod.ext rfl hConflict⟩
    | some position =>
        rw [hConflict] at hFirst
        exact absurd hFirst.1 (hFits position)

end Union

theorem exists_lookup_of_cons (f : String × Json) (fields : Fields) :
    ((f :: fields).lookup f.1).isSome = true := by
  rw [lookup_cons, if_pos rfl]
  rfl

theorem isEmptyObject_object_eq_false_iff {fields : Fields} :
    (Json.object fields).isEmptyObject = false ↔ ∃ name, (fields.lookup name).isSome = true := by
  cases fields with
  | nil => simp [isEmptyObject]
  | cons f fields => exact iff_of_true rfl ⟨f.1, exists_lookup_of_cons f fields⟩

/-- What a union clashes with, one of the two trees clashes with. -/
theorem UnionAt.clash_iff {old new found : Option Json} (h : UnionAt old new found) (value : Json) :
    (∃ x, found = some x ∧ Clash x value) ↔
      (∃ x, old = some x ∧ Clash x value) ∨ ∃ x, new = some x ∧ Clash x value := by
  cases h with
  | left => simp
  | right => simp
  | empty => simp [Clash, emptyObject, isObject, isEmptyObject]
  | @both old new fields names =>
      have hNames : (∃ name, (fields.lookup name).isSome = true) ↔
          (∃ name, (old.lookup name).isSome = true) ∨ ∃ name, (new.lookup name).isSome = true := by
        simp only [names, Bool.or_eq_true, exists_or]
      simp only [Option.some.injEq, exists_eq_left', Clash, isObject, Bool.true_eq_false, false_or,
        isEmptyObject_object_eq_false_iff, hNames, or_and_right]

/-- A document conflicts with a union where it conflicts with one of the two trees. -/
theorem IsUnion.conflicts_iff {tree document result : Json} (h : IsUnion tree document result)
    (other : Json) (position : List String) :
    Conflicts result other position ↔
      Conflicts tree other position ∨ Conflicts document other position := by
  simp only [Conflicts]
  cases valueAt? other position with
  | none => simp
  | some value => simpa using (h position).clash_iff value

theorem fits_union_iff {tree document result other : Json} (h : IsUnion tree document result) :
    Fits result other ↔ Fits tree other ∧ Fits document other := by
  simp only [Fits, h.conflicts_iff, not_or, forall_and]

theorem fits_emptyObject (document : Json) : Fits emptyObject document := by
  rintro (_ | ⟨name, position⟩) ⟨old, new, hOld, -, hClash⟩
  · cases hOld
    rcases hClash with h | ⟨h, -⟩ <;> cases h
  · cases hOld

/-- Documents are united one after the other exactly if each of them fits the tree and the documents
in front of it. -/
theorem exists_foldlM_union?_iff {tree : Json} {documents : List Json} (hTree : Formed tree)
    (hDocuments : ∀ d ∈ documents, Formed d) :
    (∃ result, documents.foldlM union? tree = some result) ↔
      (∀ d ∈ documents, Fits tree d) ∧ documents.Pairwise Fits := by
  induction documents generalizing tree with
  | nil => simp
  | cons d documents ih =>
      obtain ⟨hFirst, hRest⟩ := List.forall_mem_cons.mp hDocuments
      simp only [List.foldlM_cons, List.forall_mem_cons, List.pairwise_cons]
      constructor
      · rintro ⟨result, hResult⟩
        obtain ⟨united, hUnited, hBehind⟩ := Option.bind_eq_some_iff.mp hResult
        have hUnion := isUnion_of_union? hFirst hUnited
        obtain ⟨hFits, hPairs⟩ :=
          (ih (formed_of_union? hTree hFirst hUnited) hRest).mp ⟨result, hBehind⟩
        have hBoth : ∀ e ∈ documents, Fits tree e ∧ Fits d e :=
          fun e he => (fits_union_iff hUnion).mp (hFits e he)
        exact ⟨⟨(exists_union?_iff hFirst).mp ⟨united, hUnited⟩, fun e he => (hBoth e he).1⟩,
          fun e he => (hBoth e he).2, hPairs⟩
      · rintro ⟨⟨hFits, hOthers⟩, hHead, hPairs⟩
        obtain ⟨united, hUnited⟩ := (exists_union?_iff hFirst).mpr hFits
        have hUnion := isUnion_of_union? hFirst hUnited
        obtain ⟨result, hResult⟩ := (ih (formed_of_union? hTree hFirst hUnited) hRest).mpr
          ⟨fun e he => (fits_union_iff hUnion).mpr ⟨hOthers e he, hHead e he⟩, hPairs⟩
        exact ⟨result, Option.bind_eq_some_iff.mpr ⟨united, hUnited, hResult⟩⟩

theorem exists_foldlM_union?_emptyObject_iff {documents : List Json}
    (hDocuments : ∀ d ∈ documents, Formed d) :
    (∃ result, documents.foldlM union? emptyObject = some result) ↔ documents.Pairwise Fits := by
  have hEmpty : Formed emptyObject := .object List.Pairwise.nil (by simp)
  rw [exists_foldlM_union?_iff hEmpty hDocuments]
  exact and_iff_right fun d _ => fits_emptyObject d

/-- Two documents fit in one order and not in the other only where one of them gives way. -/
theorem Fits.symm {first second : Json} (h : Fits first second) (hStays : ¬GivesWay first second) :
    Fits second first := by
  rintro position ⟨old, new, hOld, hNew, hClash⟩
  refine h position ⟨new, old, hNew, hOld, ?_⟩
  cases hScalar : old.isObject with
  | true =>
      rcases hClash with hOldScalar | ⟨-, hNewScalar⟩
      · rw [hScalar] at hOldScalar
        cases hOldScalar
      · exact .inl hNewScalar
  | false =>
      refine or_iff_not_imp_left.mpr fun hObject => ⟨?_, hScalar⟩
      rw [← Bool.not_eq_true]
      intro hEmpty
      obtain rfl : new = emptyObject := by
        unfold isEmptyObject at hEmpty
        split at hEmpty
        · rfl
        · cases hEmpty
      exact hStays ⟨position, old, hNew, hOld, hScalar⟩

/-- A document that gives way does not fit behind the one that it gives way to. -/
theorem GivesWay.not_fits {document other : Json} (h : GivesWay document other) :
    ¬Fits other document := by
  obtain ⟨position, value, hEmpty, hValue, hScalar⟩ := h
  exact fun hFits => hFits position ⟨value, emptyObject, hValue, hEmpty, .inl hScalar⟩

theorem pairwise_fits_of_perm {first second : List Json} (hPerm : first.Perm second)
    (hStay : ∀ d ∈ first, ∀ e ∈ first, ¬GivesWay d e) (h : first.Pairwise Fits) :
    second.Pairwise Fits := by
  have hBoth : first.Pairwise fun d e => Fits d e ∧ Fits e d :=
    h.imp_of_mem fun hd he hFits => ⟨hFits, hFits.symm (hStay _ hd _ he)⟩
  exact ((hPerm.pairwise_iff fun hFits => hFits.symm).mp hBoth).imp And.left

section Values

theorem valueAt?_append (tree : Json) (position : List String) (name : String) :
    valueAt? tree (position ++ [name]) = (valueAt? tree position).bind (valueAt? · [name]) := by
  induction position generalizing tree with
  | nil => rfl
  | cons first position ih =>
      cases tree with
      | object fields =>
          rw [List.cons_append, valueAt?_object, valueAt?_object, Option.bind_assoc]
          exact Option.bind_congr fun inner _ => ih inner
      | _ => rfl

theorem UnionAt.isSome_eq {old new found : Option Json} (h : UnionAt old new found) :
    found.isSome = (old.isSome || new.isSome) := by
  cases h with
  | left => simp
  | _ => rfl

theorem UnionAt.scalar_iff {old new found : Option Json} (h : UnionAt old new found) {value : Json}
    (hScalar : value.isObject = false) :
    found = some value ↔ old = some value ∨ new = some value := by
  have hObject (fields : Fields) : Json.object fields ≠ value := by
    rintro rfl
    cases hScalar
  cases h with
  | left => simp
  | right => simp
  | empty => simp [emptyObject, hObject]
  | both names => simp [hObject]

variable {tree result : Json} {documents : List Json}

/-- What a union has exactly if one of the two has it, documents come to exactly if the tree or one of
them has it. -/
theorem iff_of_foldlM_union? (holds : Json → Prop)
    (hUnion : ∀ tree d united, Formed d → union? tree d = some united →
      (holds united ↔ holds tree ∨ holds d)) (hDocuments : ∀ d ∈ documents, Formed d)
    (h : documents.foldlM union? tree = some result) :
    holds result ↔ holds tree ∨ ∃ d ∈ documents, holds d := by
  induction documents generalizing tree with
  | nil =>
      cases h
      simp
  | cons d documents ih =>
      obtain ⟨hFirst, hRest⟩ := List.forall_mem_cons.mp hDocuments
      obtain ⟨united, hUnited, hBehind⟩ := Option.bind_eq_some_iff.mp h
      rw [ih hRest hBehind, hUnion tree d united hFirst hUnited]
      simp only [List.mem_cons, exists_eq_or_imp, or_assoc]

/-- What documents come to has a position exactly if the tree or one of them has it. -/
theorem isSome_of_foldlM_union? (hDocuments : ∀ d ∈ documents, Formed d)
    (h : documents.foldlM union? tree = some result) (position : List String) :
    (valueAt? result position).isSome = true ↔ (valueAt? tree position).isSome = true ∨
      ∃ d ∈ documents, (valueAt? d position).isSome = true := by
  refine iff_of_foldlM_union? (fun d => (valueAt? d position).isSome = true)
    (fun tree d united hFormed hUnited => ?_) hDocuments h
  rw [(isUnion_of_union? hFormed hUnited position).isSome_eq, Bool.or_eq_true]

/-- What documents come to has at a position a value that is no object exactly if the tree or one of
them has it there. -/
theorem scalar_of_foldlM_union? (hDocuments : ∀ d ∈ documents, Formed d)
    (h : documents.foldlM union? tree = some result) (position : List String) {value : Json}
    (hScalar : value.isObject = false) :
    valueAt? result position = some value ↔ valueAt? tree position = some value ∨
      ∃ d ∈ documents, valueAt? d position = some value := by
  exact iff_of_foldlM_union? (fun d => valueAt? d position = some value)
    (fun tree d united hFormed hUnited =>
      (isUnion_of_union? hFormed hUnited position).scalar_iff hScalar) hDocuments h

theorem formed_of_foldlM_union? (hTree : Formed tree) (hDocuments : ∀ d ∈ documents, Formed d)
    (h : documents.foldlM union? tree = some result) : Formed result := by
  induction documents generalizing tree with
  | nil =>
      cases h
      exact hTree
  | cons d documents ih =>
      obtain ⟨hFirst, hRest⟩ := List.forall_mem_cons.mp hDocuments
      obtain ⟨united, hUnited, hBehind⟩ := Option.bind_eq_some_iff.mp h
      exact ih (formed_of_union? hTree hFirst hUnited) hRest hBehind

end Values

/-- Two trees with the same positions and the same values that are no objects agree everywhere. -/
theorem agree_of_same {left right : Json}
    (hSome : ∀ position, (valueAt? left position).isSome = true ↔
      (valueAt? right position).isSome = true)
    (hScalar : ∀ position value, value.isObject = false →
      (valueAt? left position = some value ↔ valueAt? right position = some value))
    (position : List String) : Agree (valueAt? left position) (valueAt? right position) := by
  cases hLeft : valueAt? left position with
  | none =>
      have hNone := (hSome position).not
      rw [hLeft] at hNone
      simp only [Option.isSome_none, Bool.false_eq_true, not_false_eq_true, true_iff,
        Bool.not_eq_true, Option.isSome_eq_false_iff, Option.isNone_iff_eq_none] at hNone
      exact .inl hNone.symm
  | some value =>
      by_cases hObject : value.isObject = true
      · obtain ⟨found, hFound⟩ := Option.isSome_iff_exists.mp ((hSome position).mp (by rw [hLeft]; rfl))
        have hFoundObject : found.isObject = true := by
          by_contra hFoundScalar
          have hBack := (hScalar position found (by simpa using hFoundScalar)).mpr hFound
          rw [hLeft, Option.some.injEq] at hBack
          rw [hBack] at hObject
          exact hFoundScalar hObject
        cases value with
        | object fields =>
            cases found with
            | object others =>
                rw [hFound]
                refine .inr ⟨fields, others, rfl, rfl, fun name => Bool.eq_iff_iff.mpr ?_⟩
                -- the names of an object are the positions one step below it
                have hBelow := hSome (position ++ [name])
                rwa [valueAt?_append, valueAt?_append, hLeft, hFound, Option.bind_some,
                  Option.bind_some, valueAt?_object, valueAt?_object, Option.isSome_bind,
                  Option.isSome_bind] at hBelow
            | _ => cases hFoundObject
        | _ => cases hObject
      · rw [(hScalar position value (by simpa using hObject)).mp hLeft]
        exact .inl rfl

/-- Documents come to one tree in every order in which they are united. -/
theorem foldlM_union?_eq_of_perm {tree left right : Json} {first second : List Json}
    (hTree : Formed tree) (hDocuments : ∀ d ∈ first, Formed d) (hPerm : first.Perm second)
    (hLeft : first.foldlM union? tree = some left)
    (hRight : second.foldlM union? tree = some right) : left = right := by
  have hSecond : ∀ d ∈ second, Formed d := fun d hd => hDocuments d (hPerm.mem_iff.mpr hd)
  refine eq_of_agree (formed_of_foldlM_union? hTree hDocuments hLeft)
    (formed_of_foldlM_union? hTree hSecond hRight) (agree_of_same (fun position => ?_)
      fun position value hScalar => ?_)
  · rw [isSome_of_foldlM_union? hDocuments hLeft, isSome_of_foldlM_union? hSecond hRight]
    simp only [hPerm.mem_iff]
  · rw [scalar_of_foldlM_union? hDocuments hLeft position hScalar,
      scalar_of_foldlM_union? hSecond hRight position hScalar]
    simp only [hPerm.mem_iff]

end PolicyBundle.DataTree
