import PolicyBundle.Json.Basic
import Mathlib.Data.List.Basic

/-! The fields of an object as a set of names with values: `setField` keeps them in order, and fields
that are in order come out of setting them one after the other. -/

namespace PolicyBundle.Json

/-- Fields in increasing order of their names, each name once. -/
def Sorted (fields : Fields) : Prop :=
  fields.Pairwise fun a b => a.1 < b.1

/-- Fields set one after the other in those that are there. -/
def setAll (fields more : Fields) : Fields :=
  more.foldl (fun done f => setField f.1 f.2 done) fields

theorem setField_last {name : String} (value : Json) {fields : Fields}
    (h : ∀ f ∈ fields, f.1 < name) : setField name value fields = fields ++ [(name, value)] := by
  induction fields with
  | nil => rfl
  | cons f fields ih =>
      obtain ⟨other, old⟩ := f
      have hBefore : other < name := h _ List.mem_cons_self
      have hNe : name ≠ other := fun hEq => String.lt_irrefl name (hEq ▸ hBefore)
      rw [setField, if_neg hNe, if_neg (String.lt_asymm hBefore),
        ih fun f hf => h f (List.mem_cons_of_mem _ hf), List.cons_append]

theorem setAll_append {fields more : Fields} (h : Sorted (fields ++ more)) :
    setAll fields more = fields ++ more := by
  induction more generalizing fields with
  | nil => rw [List.append_nil]; rfl
  | cons f more ih =>
      have hBefore : ∀ g ∈ fields, g.1 < f.1 :=
        fun g hg => (List.pairwise_append.mp h).2.2 g hg f List.mem_cons_self
      rw [setAll, List.foldl_cons, setField_last _ hBefore]
      have hSorted : Sorted ((fields ++ [f]) ++ more) := by
        simpa using h
      simpa [setAll] using ih hSorted

/-- Fields in order are what comes of setting them. -/
theorem setAll_nil {fields : Fields} (h : Sorted fields) : setAll [] fields = fields :=
  setAll_append h

theorem mem_setField {name : String} {value : Json} {fields : Fields} {f : String × Json}
    (h : f ∈ setField name value fields) : f = (name, value) ∨ f ∈ fields := by
  induction fields with
  | nil => exact Or.inl (List.mem_singleton.mp h)
  | cons g fields ih =>
      obtain ⟨other, old⟩ := g
      simp only [setField] at h
      split at h
      · rcases List.mem_cons.mp h with h | h
        · exact Or.inl h
        · exact Or.inr (List.mem_cons_of_mem _ h)
      · split at h
        · rcases List.mem_cons.mp h with h | h
          · exact Or.inl h
          · exact Or.inr h
        · rcases List.mem_cons.mp h with h | h
          · exact Or.inr (h ▸ List.mem_cons_self)
          · exact (ih h).imp id (List.mem_cons_of_mem _)

theorem Sorted.setField {fields : Fields} (h : Sorted fields) (name : String) (value : Json) :
    Sorted (setField name value fields) := by
  induction fields with
  | nil => exact List.pairwise_singleton _ _
  | cons g fields ih =>
      obtain ⟨other, old⟩ := g
      obtain ⟨hFirst, hRest⟩ := List.pairwise_cons.mp h
      simp only [Json.setField]
      split
      · rename_i hEq
        exact List.pairwise_cons.mpr ⟨hEq ▸ hFirst, hRest⟩
      · rename_i hNe
        split
        · rename_i hBefore
          refine List.pairwise_cons.mpr ⟨fun f hf => ?_, h⟩
          rcases List.mem_cons.mp hf with rfl | hf
          · exact hBefore
          · exact String.lt_trans hBefore (hFirst f hf)
        · rename_i hNotBefore
          refine List.pairwise_cons.mpr ⟨fun f hf => ?_, ih hRest⟩
          rcases mem_setField hf with rfl | hf
          · rcases String.le_total name other with hLe | hLe
            · exact absurd (String.le_antisymm hLe (String.not_lt.mp hNotBefore)) hNe
            · by_contra hNotAfter
              exact hNe (String.le_antisymm (String.not_lt.mp hNotAfter) hLe)
          · exact hFirst f hf

theorem lookup_cons (name first : String) (value : Json) (fields : Fields) :
    List.lookup name ((first, value) :: fields) =
      if name = first then some value else fields.lookup name := by
  rw [List.lookup_cons]
  by_cases h : name = first
  · simp [h]
  · simp [h, beq_false_of_ne h]

/-- Setting a field changes what stands under its name and nothing else. -/
theorem lookup_setField (other name : String) (value : Json) (fields : Fields) :
    (setField name value fields).lookup other =
      if other = name then some value else fields.lookup other := by
  induction fields with
  | nil => rw [setField, lookup_cons]
  | cons f fields ih =>
      obtain ⟨first, old⟩ := f
      simp only [setField]
      split
      · rename_i hFirst
        subst hFirst
        rw [lookup_cons, lookup_cons]
        split <;> rfl
      · rename_i hFirst
        split
        · rw [lookup_cons]
        · rw [lookup_cons, lookup_cons, ih]
          by_cases hOther : other = first
          · rw [if_pos hOther, if_pos hOther, if_neg (hOther ▸ Ne.symm hFirst)]
          · rw [if_neg hOther, if_neg hOther]

end PolicyBundle.Json
