import PolicyBundle.Bundle.DataTree
import PolicyBundle.Proofs.Json.Parsed

/-! Data trees stay formed as documents are mounted into them, and a formed value that is mounted at
the root of an empty tree is the tree. -/

namespace PolicyBundle.DataTree

open Json

theorem mem_of_lookup {name : String} {fields : Fields} {value : Json}
    (h : fields.lookup name = some value) : (name, value) ∈ fields := by
  induction fields with
  | nil => cases h
  | cons f fields ih =>
      obtain ⟨other, old⟩ := f
      rw [List.lookup_cons] at h
      split at h
      · rename_i hEq
        cases h
        rw [eq_of_beq hEq]
        exact List.mem_cons_self
      · exact List.mem_cons_of_mem _ (ih h)

theorem lookup_eq_none {name : String} {fields : Fields} (h : ∀ f ∈ fields, f.1 < name) :
    fields.lookup name = none := by
  induction fields with
  | nil => rfl
  | cons f fields ih =>
      obtain ⟨other, old⟩ := f
      have hNe : (name == other) = false := by
        rw [beq_eq_false_iff_ne]
        rintro rfl
        exact String.lt_irrefl name (h _ List.mem_cons_self)
      rw [List.lookup_cons, hNe, ih fun g hg => h g (List.mem_cons_of_mem _ hg)]

/-- Fields merged into formed ones, if each of them can be merged into a formed value. -/
theorem mergeFields_formed {existing incoming : Fields} (hExisting : AllFields Formed existing)
    (hIncoming : ∀ f ∈ incoming, Formed f.2 ∧ ∀ target, Formed target → Formed (merge target f.2).1) :
    AllFields Formed (mergeFields existing incoming).1 := by
  induction incoming generalizing existing with
  | nil => exact hExisting
  | cons f incoming ih =>
      obtain ⟨name, value⟩ := f
      obtain ⟨hValue, hMerge⟩ := hIncoming _ List.mem_cons_self
      have hRest : ∀ f ∈ incoming, Formed f.2 ∧ ∀ target, Formed target →
          Formed (merge target f.2).1 := fun g hg => hIncoming g (List.mem_cons_of_mem _ hg)
      simp only [mergeFields]
      split
      · exact ih (hExisting.setField hValue name) hRest
      · rename_i old hOld
        have hNew := hMerge old (hExisting.2 _ (mem_of_lookup hOld))
        split
        · rename_i new hMerged
          rw [hMerged] at hNew
          exact ih (hExisting.setField hNew name) hRest
        · rename_i new conflict hMerged
          rw [hMerged] at hNew
          exact hExisting.setField hNew name

theorem merge_scalar {target value : Json} (hTarget : Formed target) (hValue : Formed value) :
    Formed (if target.isEmptyObject then ((value, none) : Merged) else (target, some [])).1 := by
  split
  · exact hValue
  · exact hTarget

theorem merge_formed {target value : Json} (hTarget : Formed target) (hValue : Formed value) :
    Formed (merge target value).1 := by
  induction hValue generalizing target with
  | null => exact merge_scalar hTarget .null
  | bool b => exact merge_scalar hTarget (.bool b)
  | integer fits => exact merge_scalar hTarget (.integer fits)
  | float x => exact merge_scalar hTarget (.float x)
  | string text => exact merge_scalar hTarget (.string text)
  | array all => exact merge_scalar hTarget (.array all)
  | @object incoming sorted all ih =>
      have hIncoming : ∀ f ∈ incoming, Formed f.2 ∧
          ∀ target, Formed target → Formed (merge target f.2).1 :=
        fun f hf => ⟨all f hf, fun target hTarget => ih f hf hTarget⟩
      cases target with
      | object existing =>
          cases hTarget with
          | object hSorted hAll =>
              have hMerged := mergeFields_formed ⟨hSorted, hAll⟩ hIncoming
              exact .object hMerged.1 hMerged.2
      | _ => exact hTarget

theorem mountAt_formed {target value : Json} (hTarget : Formed target) (hValue : Formed value)
    (path : List String) : Formed (mountAt target path value).1 := by
  induction path generalizing target with
  | nil => exact merge_formed hTarget hValue
  | cons name path ih =>
      cases target with
      | object fields =>
          cases hTarget with
          | object hSorted hAll =>
              have hInner : Formed ((fields.lookup name).getD emptyObject) := by
                cases hLookup : fields.lookup name with
                | none => exact .object List.Pairwise.nil (by simp)
                | some old => exact hAll _ (mem_of_lookup hLookup)
              have hNew := (AllFields.setField ⟨hSorted, hAll⟩ (ih hInner) name)
              exact .object hNew.1 hNew.2
      | _ => exact hTarget

/-- Mounting a document keeps a tree formed, even where it ends in a conflict. -/
theorem mount_formed {tree value : Json} (hTree : Formed tree) (hValue : Formed value)
    (path : List String) : Formed (mount tree path value).1 :=
  mountAt_formed hTree hValue path

theorem mergeFields_sorted {existing incoming : Fields} (h : Sorted (existing ++ incoming)) :
    mergeFields existing incoming = (existing ++ incoming, none) := by
  induction incoming generalizing existing with
  | nil => rw [List.append_nil]; rfl
  | cons f incoming ih =>
      obtain ⟨name, value⟩ := f
      have hBefore : ∀ g ∈ existing, g.1 < name :=
        fun g hg => (List.pairwise_append.mp h).2.2 g hg _ List.mem_cons_self
      have hSorted : Sorted (existing ++ [(name, value)] ++ incoming) := by
        simpa using h
      rw [mergeFields, lookup_eq_none hBefore]
      simp only [setField_last value hBefore, ih hSorted, List.append_assoc, List.singleton_append]

theorem merge_emptyObject {value : Json} (h : Formed value) :
    merge emptyObject value = (value, none) := by
  cases h with
  | @object fields sorted all =>
      have hMerged := mergeFields_sorted (show Sorted ([] ++ fields) from sorted)
      simp only [emptyObject, merge, hMerged]
      rfl
  | _ => rfl

/-- A formed value at the root of an empty tree is the tree. -/
theorem mount_emptyObject {value : Json} (hValue : Formed value) :
    mount emptyObject [] value = (value, none) := by
  rw [mount, mountAt, merge_emptyObject hValue]
  rfl

end PolicyBundle.DataTree
