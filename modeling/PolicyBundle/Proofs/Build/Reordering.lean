import PolicyBundle.Proofs.Build.Pruning
import PolicyBundle.Proofs.Policy.Rereading

/-! A build asks the same of modules in whatever order and files they are: which entrypoints they
have, what they call, and which packages are reached. Of their dialects it asks the effect alone. -/

namespace PolicyBundle.Build

open Policy

/-- The modules of one list occur in another one, perhaps in other files, or in other dialects of the
same effect. -/
def Occur (modules others : List Module) : Prop :=
  ∀ m ∈ modules, ∃ n ∈ others, ∃ path dialect,
    dialect.effective = m.dialect.effective ∧ n = m.moved path dialect

section Occurring

variable {modules others : List Module} {config : Config} {entrypoints more : List String}

theorem definesFunction_of_occur (h : Occur modules others) {package name : String}
    (hDefines : definesFunction modules package name = true) :
    definesFunction others package name = true := by
  rw [definesFunction, List.any_eq_true] at hDefines ⊢
  obtain ⟨m, hm, hDefines⟩ := hDefines
  obtain ⟨n, hn, path, dialect, -, rfl⟩ := h m hm
  exact ⟨_, hn, hDefines⟩

theorem refersToDecision_of_occur (h : Occur modules others) {path : String}
    (hRefers : refersToDecision modules path = true) : refersToDecision others path = true := by
  rw [refersToDecision, List.any_eq_true] at hRefers ⊢
  obtain ⟨m, hm, hRefers⟩ := hRefers
  obtain ⟨n, hn, file, dialect, -, rfl⟩ := h m hm
  exact ⟨_, hn, hRefers⟩

theorem declaredPaths_subset_of_occur (h : Occur modules others) :
    declaredPaths config modules ⊆ declaredPaths config others := by
  rw [declaredPaths, declaredPaths]
  split
  · intro path hPath
    obtain ⟨declared, hDeclared, rfl⟩ := List.mem_map.mp hPath
    obtain ⟨m, hm, hDeclared⟩ := List.mem_flatMap.mp hDeclared
    obtain ⟨n, hn, file, dialect, -, rfl⟩ := h m hm
    exact List.mem_map.mpr ⟨declared, List.mem_flatMap.mpr ⟨_, hn, hDeclared⟩, rfl⟩
  · exact List.Subset.refl _

/-- No package is lost where modules and entrypoints are added. -/
theorem reachable_subset_of_occur (h : Occur modules others) (hMore : entrypoints ⊆ more) :
    reachable modules entrypoints ⊆ reachable others more := by
  refine (isLeast_reachable modules entrypoints).2 ((isLeast_reachable others more).1.anti hMore ?_)
  intro m hm
  obtain ⟨n, hn, path, dialect, -, rfl⟩ := h m hm
  exact ⟨m.moved path dialect, hn, rfl, fun _ => id⟩

/-- A module that has no faults has none among other modules, in another file and under another name
of its dialect. -/
theorem checkModule_moved {capabilities : Capabilities} (h : Occur modules others) {m : Module}
    (hNone : checkModule capabilities modules m = []) (path : String) {dialect : Dialect}
    (hDialect : dialect.effective = m.dialect.effective) :
    checkModule capabilities others (m.moved path dialect) = [] := by
  have hCovered (call : Call) (hCall : isCovered capabilities modules m call = true) :
      isCovered capabilities others (m.moved path dialect) call = true := by
    simp only [isCovered, Bool.or_eq_true] at hCall ⊢
    exact hCall.imp_left (Or.imp_left (definesFunction_of_occur h))
  simp only [checkModule, List.append_eq_nil_iff, List.map_eq_nil_iff, List.filter_eq_nil_iff,
    ite_eq_right_iff, ite_eq_left_iff] at hNone ⊢
  obtain ⟨⟨⟨hDialects, hImports⟩, hKeywords⟩, hCalls⟩ := hNone
  refine ⟨⟨⟨fun hUncovered => absurd (hDialects ?_) (List.cons_ne_nil _ _), hImports⟩, hKeywords⟩,
    fun call hCall => ?_⟩
  · rw [← hDialect]
    exact hUncovered
  · simpa using hCovered call (by simpa using hCalls call hCall)

/-- Modules that occur among others without faults have none. -/
theorem check_of_occur {capabilities : Capabilities} (h : Occur modules others)
    (hBack : Occur others modules) (hNone : check capabilities modules = []) :
    check capabilities others = [] := by
  rw [check, List.flatMap_eq_nil_iff] at hNone ⊢
  intro n hn
  obtain ⟨m, hm, path, dialect, hDialect, rfl⟩ := hBack n hn
  exact checkModule_moved h (hNone _ hm) n.path hDialect.symm

/-- Where all modules are kept, they are kept in another order and other files. -/
theorem prune_of_occur (h : Occur modules others) (hBack : Occur others modules)
    (hMore : entrypoints ⊆ more) (hKept : prune modules entrypoints = modules) :
    prune others more = others := by
  refine List.filter_eq_self.mpr fun n hn => List.contains_iff_mem.mpr ?_
  obtain ⟨m, hm, path, dialect, -, rfl⟩ := hBack n hn
  rw [← hKept] at hm
  exact reachable_subset_of_occur h hMore (mem_prune_iff.mp hm).2

/-- The entrypoints are the same, though perhaps in another order. -/
theorem resolveEntrypoints_of_occur (h : Occur modules others) (hBack : Occur others modules)
    (hResolve : (resolveEntrypoints config modules).outcome.value = .ok entrypoints) :
    ∃ more, (resolveEntrypoints config others).outcome.value = .ok more ∧
      ∀ path, path ∈ more ↔ path ∈ entrypoints := by
  have hRefers (path : String) : refersToDecision others path = refersToDecision modules path :=
    Bool.eq_iff_iff.mpr ⟨refersToDecision_of_occur hBack, refersToDecision_of_occur h⟩
  have hRequested : requestedEntrypoints others config.entrypoints =
      requestedEntrypoints modules config.entrypoints := by
    simp only [requestedEntrypoints, hRefers]
  rw [value_resolveEntrypoints] at hResolve ⊢
  rw [hRequested]
  cases hFound : requestedEntrypoints modules config.entrypoints with
  | error e => rw [hFound] at hResolve; cases hResolve
  | ok requested =>
      rw [hFound] at hResolve
      obtain rfl := Except.ok.inj hResolve
      refine ⟨_, rfl, fun path => ?_⟩
      rw [mem_foldl_addOnce, mem_foldl_addOnce]
      exact or_congr_right ⟨fun hPath => declaredPaths_subset_of_occur hBack hPath,
        fun hPath => declaredPaths_subset_of_occur h hPath⟩

end Occurring

end PolicyBundle.Build
