import PolicyBundle.Build.Check
import PolicyBundle.Build.Plan
import PolicyBundle.Proofs.Build.Compiling
import PolicyBundle.Proofs.Build.Reachability

/-! Pruning changes nothing for the modules that are kept. Packages are kept whole, so checks find the
same functions; and whatever an entrypoint refers to lies in a package that is related to it, so
entrypoints and their plans stay as they are. -/

namespace PolicyBundle.Build

open Policy

section Related

/-- What begins the same path is related. -/
theorem segmentRelated_of_isWithin {a b path : String} (ha : isWithin path a = true)
    (hb : isWithin path b = true) : SegmentRelated a b :=
  List.prefix_or_prefix_of_prefix ((isWithin_iff path a).mp ha) ((isWithin_iff path b).mp hb)

theorem isWithin_refl (path : String) : isWithin path path = true := by
  simp [isWithin]

theorem isWithin_below (package name : String) :
    isWithin (package ++ "." ++ name) package = true := by
  have hStarts : Text.startsWith (package ++ "." ++ name) (package ++ ".") = true := by
    rw [Text.startsWith_iff]
    exact ⟨name.toList, String.toList_append.symm⟩
  simp [isWithin, hStarts]

theorem isWithin_rulePath {m : Module} {rule : String} (h : rule ∈ m.rulePaths) :
    isWithin rule m.package = true := by
  obtain ⟨r, -, rfl⟩ := List.mem_map.mp h
  exact isWithin_below m.package r.name

/-- The package of a rule is related to whatever the rule is related to. -/
theorem segmentRelated_package {m : Module} {rule path : String} (hRule : rule ∈ m.rulePaths)
    (hRelated : related rule path = true) : SegmentRelated m.package path := by
  have hPackage := isWithin_rulePath hRule
  rw [related, Bool.or_eq_true] at hRelated
  rcases hRelated with hWithin | hWithin
  · exact segmentRelated_of_isWithin hPackage hWithin
  · rw [isWithin_iff] at hPackage hWithin
    exact Or.inl (hPackage.trans hWithin)

end Related

section Kept

variable {modules : List Module} {entrypoints : List String}

/-- The packages that are reached are the least closed set. -/
theorem isLeast_reachable (modules : List Module) (entrypoints : List String) :
    IsLeast {packages | IsClosed modules entrypoints packages}
      {p | p ∈ reachable modules entrypoints} := by
  obtain ⟨hSteps, hEnd⟩ := Search.steps_run modules (Search.start modules entrypoints)
  exact (Search.inv_steps (Search.inv_start modules entrypoints) hSteps).isLeast hEnd

theorem mem_prune_iff {m : Module} :
    m ∈ prune modules entrypoints ↔ m ∈ modules ∧ m.package ∈ reachable modules entrypoints := by
  rw [prune, List.mem_filter, List.contains_iff_mem]

/-- A module whose package is related to an entrypoint is kept. -/
theorem mem_prune_of_related {m : Module} (hm : m ∈ modules) {e : String} (he : e ∈ entrypoints)
    (hRelated : SegmentRelated m.package e) : m ∈ prune modules entrypoints :=
  mem_prune_iff.mpr ⟨hm, (isLeast_reachable modules entrypoints).1.start m hm e he hRelated⟩

/-- A module whose package is not in a closed set is dropped. -/
theorem not_mem_prune_of_isClosed {packages : Set String}
    (hClosed : IsClosed modules entrypoints packages) {m : Module} (hm : m.package ∉ packages) :
    m ∉ prune modules entrypoints :=
  fun hKept => hm ((isLeast_reachable modules entrypoints).2 hClosed (mem_prune_iff.mp hKept).2)

/-- A module with the package of a module that is kept is kept. -/
theorem mem_prune_of_package {m n : Module} (hm : m ∈ prune modules entrypoints)
    (hn : n ∈ modules) (hPackage : n.package = m.package) : n ∈ prune modules entrypoints :=
  mem_prune_iff.mpr ⟨hn, hPackage ▸ (mem_prune_iff.mp hm).2⟩

/-- What no module gives that is dropped, all modules give that are kept. -/
theorem flatMap_prune {α : Type} (give : Module → List α)
    (hKept : ∀ m ∈ modules, give m ≠ [] → m ∈ prune modules entrypoints) :
    (prune modules entrypoints).flatMap give = modules.flatMap give := by
  have hFilter (part : List Module) (hPart : part ⊆ modules) :
      (part.filter fun m => (reachable modules entrypoints).contains m.package).flatMap give =
        part.flatMap give := by
    induction part with
    | nil => rfl
    | cons m part ih =>
        have hRest := ih fun n hn => hPart (List.mem_cons_of_mem _ hn)
        rw [List.filter_cons]
        split
        · rw [List.flatMap_cons, List.flatMap_cons, hRest]
        · rename_i hDropped
          have hNothing : give m = [] := by
            by_contra hSome
            have hMem := (mem_prune_iff.mp (hKept m (hPart List.mem_cons_self) hSome)).2
            exact hDropped (List.contains_iff_mem.mpr hMem)
          rw [List.flatMap_cons, hNothing, List.nil_append, hRest]
  exact hFilter modules (List.Subset.refl _)

/-- The packages that are reached are reached among the modules that are kept. -/
theorem mem_reachable_prune_iff (p : String) :
    p ∈ reachable (prune modules entrypoints) entrypoints ↔ p ∈ reachable modules entrypoints := by
  have hAll := isLeast_reachable modules entrypoints
  have hPruned := isLeast_reachable (prune modules entrypoints) entrypoints
  have hWithin : {p | p ∈ reachable (prune modules entrypoints) entrypoints} ⊆
      {p | p ∈ reachable modules entrypoints} :=
    hPruned.2 (hAll.1.anti (List.Subset.refl _) fun m hm =>
      ⟨m, (mem_prune_iff.mp hm).1, rfl, fun _ => id⟩)
  constructor
  · exact fun hReached => hWithin hReached
  · apply hAll.2
    constructor
    · intro m hm e he hRelated
      exact hPruned.1.start m (mem_prune_of_related hm he hRelated) e he hRelated
    · intro m hm hReached reference hRefers n hn hRelated
      have hm' : m ∈ prune modules entrypoints := mem_prune_iff.mpr ⟨hm, hWithin hReached⟩
      have hn' : n ∈ prune modules entrypoints := mem_prune_iff.mpr
        ⟨hn, hAll.1.follow m hm (hWithin hReached) reference hRefers n hn hRelated⟩
      exact hPruned.1.follow m hm' hReached reference hRefers n hn' hRelated

/-- Nothing is left to prune. -/
theorem prune_prune : prune (prune modules entrypoints) entrypoints = prune modules entrypoints := by
  have hKeeps (m : Module) (hm : m ∈ prune modules entrypoints) :
      (reachable (prune modules entrypoints) entrypoints).contains m.package = true := by
    rw [List.contains_iff_mem, mem_reachable_prune_iff]
    exact (mem_prune_iff.mp hm).2
  exact List.filter_eq_self.mpr hKeeps

end Kept

section Checks

variable {modules : List Module} {entrypoints : List String}

theorem definesFunction_prune {m : Module} (hm : m ∈ prune modules entrypoints) (name : String) :
    definesFunction (prune modules entrypoints) m.package name =
      definesFunction modules m.package name := by
  rw [Bool.eq_iff_iff, definesFunction, definesFunction, List.any_eq_true, List.any_eq_true]
  constructor
  · rintro ⟨n, hn, hDefines⟩
    exact ⟨n, (mem_prune_iff.mp hn).1, hDefines⟩
  · rintro ⟨n, hn, hDefines⟩
    have hPackage : n.package = m.package := by
      simp only [Bool.and_eq_true, decide_eq_true_eq] at hDefines
      exact hDefines.1
    exact ⟨n, mem_prune_of_package hm hn hPackage, hDefines⟩

theorem checkModule_prune (capabilities : Capabilities) {m : Module}
    (hm : m ∈ prune modules entrypoints) :
    checkModule capabilities (prune modules entrypoints) m = checkModule capabilities modules m := by
  have hCovered (call : Call) : isCovered capabilities (prune modules entrypoints) m call =
      isCovered capabilities modules m call := by
    rw [isCovered, isCovered, definesFunction_prune hm]
  simp only [checkModule, hCovered]

/-- The modules that are kept have the faults that they have among all modules. -/
theorem check_prune (capabilities : Capabilities) (modules : List Module)
    (entrypoints : List String) :
    check capabilities (prune modules entrypoints) =
      (prune modules entrypoints).flatMap (checkModule capabilities modules) := by
  rw [check, List.flatMap_def, List.flatMap_def]
  exact congrArg List.flatten (List.map_congr_left fun _ hm => checkModule_prune capabilities hm)

end Checks

section Plans

variable {modules : List Module} {entrypoints : List String}

theorem mem_prune_of_relatedRules {m : Module} (hm : m ∈ modules) {e : String}
    (he : e ∈ entrypoints) (hRules : relatedRules e m ≠ []) : m ∈ prune modules entrypoints := by
  obtain ⟨rule, hRule⟩ := List.exists_mem_of_ne_nil _ hRules
  obtain ⟨hPath, hRelated⟩ := List.mem_filter.mp hRule
  exact mem_prune_of_related hm he (segmentRelated_package hPath hRelated)

/-- The plan of an entrypoint stays as it is. -/
theorem entryOf_prune {e : String} (he : e ∈ entrypoints) :
    Plan.entryOf (prune modules entrypoints) e = Plan.entryOf modules e := by
  have hRules : (prune modules entrypoints).flatMap (relatedRules e) =
      modules.flatMap (relatedRules e) :=
    flatMap_prune (relatedRules e) fun m hm hRules => mem_prune_of_relatedRules hm he hRules
  have hModules : ((prune modules entrypoints).filter fun m => !(relatedRules e m).isEmpty) =
      modules.filter fun m => !(relatedRules e m).isEmpty := by
    rw [prune, List.filter_filter]
    apply List.filter_congr
    intro m hm
    cases hNone : (relatedRules e m).isEmpty with
    | true => rfl
    | false =>
        have hKept := mem_prune_of_relatedRules hm he (by simpa using hNone)
        rw [Bool.not_false, Bool.true_and]
        exact List.contains_iff_mem.mpr (mem_prune_iff.mp hKept).2
  rw [Plan.entryOf, Plan.entryOf, hRules, hModules]

theorem entrypoints_ofModules_prune (capabilities : Capabilities) (modules : List Module)
    (entrypoints : List String) :
    (Plan.ofModules capabilities (prune modules entrypoints) entrypoints).entrypoints =
      (Plan.ofModules capabilities modules entrypoints).entrypoints :=
  List.map_congr_left fun _ he => entryOf_prune he

end Plans

section Entrypoints

variable {modules : List Module} {config : Config} {entrypoints : List String}

theorem subset_addOnce (paths : List String) (path : String) : paths ⊆ addOnce paths path := by
  rw [addOnce]
  split
  · exact List.Subset.refl _
  · exact List.subset_append_left _ _

theorem mem_addOnce (paths : List String) (path : String) : path ∈ addOnce paths path := by
  rw [addOnce]
  split
  · rename_i hOld
    exact List.contains_iff_mem.mp hOld
  · simp

theorem mem_foldl_addOnce (more paths : List String) (path : String) :
    path ∈ more.foldl addOnce paths ↔ path ∈ paths ∨ path ∈ more := by
  induction more generalizing paths with
  | nil => simp
  | cons first more ih =>
      rw [List.foldl_cons, ih, List.mem_cons, ← or_assoc, addOnce]
      split
      · rename_i hOld
        have hOld : first ∈ paths := List.contains_iff_mem.mp hOld
        have hSame : path = first → path ∈ paths := fun hEq => hEq ▸ hOld
        tauto
      · simp

/-- What an entrypoint refers to is kept. -/
theorem refersToDecision_prune {path : String} (hPath : path ∈ entrypoints)
    (hRefers : refersToDecision modules path = true) :
    refersToDecision (prune modules entrypoints) path = true := by
  rw [refersToDecision, List.any_eq_true] at hRefers ⊢
  obtain ⟨m, hm, hDecision⟩ := hRefers
  refine ⟨m, ?_, hDecision⟩
  rw [Bool.or_eq_true, List.any_eq_true] at hDecision
  rcases hDecision with hPackage | ⟨rule, hRule, hWithin⟩
  · exact mem_prune_of_related hm hPath
      (segmentRelated_of_isWithin (isWithin_refl m.package) hPackage)
  · exact mem_prune_of_related hm hPath
      (segmentRelated_of_isWithin (isWithin_rulePath hRule) hWithin)

/-- One more entrypoint that a caller names. -/
def request (modules : List Module) (paths : List String) (entrypoint : String) :
    Except CompileError (List String) :=
  let path := normalizeEntrypoint entrypoint
  if path.isEmpty || !refersToDecision modules path then .error (.unknownEntrypoint entrypoint)
  else .ok (addOnce paths path)

theorem requestedEntrypoints_eq (modules : List Module) (names : List String) :
    requestedEntrypoints modules names = names.foldlM (request modules) [] := rfl

theorem request_eq_ok_iff {paths next : List String} {name : String} :
    request modules paths name = .ok next ↔
      (normalizeEntrypoint name).isEmpty = false ∧
        refersToDecision modules (normalizeEntrypoint name) = true ∧
          addOnce paths (normalizeEntrypoint name) = next := by
  simp only [request]
  split
  · rename_i hUnknown
    simp only [Bool.or_eq_true, Bool.not_eq_true'] at hUnknown
    rcases hUnknown with hEmpty | hNone
    · simp [hEmpty]
    · simp [hNone]
  · rename_i hKnown
    simp only [Bool.or_eq_true, Bool.not_eq_true', not_or, Bool.not_eq_true,
      Bool.not_eq_false] at hKnown
    simp [hKnown.1, hKnown.2]

/-- The entrypoints that a caller names are found among the modules that are kept. -/
theorem foldlM_request_prune {names start requested : List String}
    (hRequested : names.foldlM (request modules) start = .ok requested)
    (hAll : requested ⊆ entrypoints) :
    names.foldlM (request (prune modules entrypoints)) start = .ok requested ∧
      start ⊆ requested := by
  induction names generalizing start with
  | nil =>
      cases hRequested
      exact ⟨rfl, List.Subset.refl _⟩
  | cons name names ih =>
      rw [List.foldlM_cons] at hRequested ⊢
      cases hFirst : request modules start name with
      | error e => rw [hFirst] at hRequested; cases hRequested
      | ok next =>
          rw [hFirst] at hRequested
          obtain ⟨hRest, hNext⟩ := ih hRequested
          obtain ⟨hSome, hRefers, rfl⟩ := request_eq_ok_iff.mp hFirst
          have hPath : normalizeEntrypoint name ∈ entrypoints :=
            hAll (hNext (mem_addOnce start _))
          have hKept : request (prune modules entrypoints) start name =
              .ok (addOnce start (normalizeEntrypoint name)) :=
            request_eq_ok_iff.mpr ⟨hSome, refersToDecision_prune hPath hRefers, rfl⟩
          rw [hKept]
          exact ⟨hRest, fun p hp => hNext (subset_addOnce _ _ hp)⟩

theorem segmentRelated_declared {m : Module} {declared : Declaration × String}
    (h : declared ∈ declaredEntrypoints m) : SegmentRelated m.package declared.2 := by
  rw [declaredEntrypoints, List.mem_append] at h
  rcases h with hPackage | hRule
  · split at hPackage
    · obtain rfl := List.mem_singleton.mp hPackage
      exact segmentRelated_of_isWithin (isWithin_refl _) (isWithin_refl _)
    · cases hPackage
  · obtain ⟨rule, -, rfl⟩ := List.mem_map.mp hRule
    exact segmentRelated_of_isWithin (isWithin_below _ _) (isWithin_refl _)

/-- The entrypoints that modules declare are declared by the modules that are kept. -/
theorem declaredPaths_prune (hAll : declaredPaths config modules ⊆ entrypoints) :
    declaredPaths config (prune modules entrypoints) = declaredPaths config modules := by
  rw [declaredPaths] at hAll ⊢
  rw [declaredPaths]
  split
  · rename_i hCount
    rw [if_pos hCount] at hAll
    rw [flatMap_prune]
    intro m hm hSome
    obtain ⟨declared, hDeclared⟩ := List.exists_mem_of_ne_nil _ hSome
    have hPath : declared.2 ∈ entrypoints := hAll
      (List.mem_map.mpr ⟨declared, List.mem_flatMap.mpr ⟨m, hm, hDeclared⟩, rfl⟩)
    exact mem_prune_of_related hm hPath (segmentRelated_declared hDeclared)
  · rfl

theorem resolveEntrypoints_prune
    (hResolve : (resolveEntrypoints config modules).outcome.value = .ok entrypoints) :
    (resolveEntrypoints config (prune modules entrypoints)).outcome.value = .ok entrypoints := by
  rw [value_resolveEntrypoints] at hResolve ⊢
  cases hRequested : requestedEntrypoints modules config.entrypoints with
  | error e => rw [hRequested] at hResolve; cases hResolve
  | ok requested =>
      rw [hRequested] at hResolve
      have hAll : (declaredPaths config modules).foldl addOnce requested = entrypoints :=
        Except.ok.inj hResolve
      have hMem := mem_foldl_addOnce (declaredPaths config modules) requested
      rw [hAll] at hMem
      have hFirst : requested ⊆ entrypoints := fun path hPath => (hMem path).mpr (.inl hPath)
      have hDeclared : declaredPaths config modules ⊆ entrypoints :=
        fun path hPath => (hMem path).mpr (.inr hPath)
      rw [requestedEntrypoints_eq] at hRequested ⊢
      rw [(foldlM_request_prune hRequested hFirst).1, declaredPaths_prune hDeclared]
      exact hResolve

end Entrypoints

/-- Pruning is harmless to what is kept: the entrypoints are resolved as before, the modules that are
kept have the faults that they have among all modules, the entrypoints have the same plans, and
nothing is left to prune. -/
theorem prune_harmless {config : Config} {modules : List Module} {entrypoints : List String}
    (hResolve : (resolveEntrypoints config modules).outcome.value = .ok entrypoints) :
    (resolveEntrypoints config (prune modules entrypoints)).outcome.value = .ok entrypoints ∧
      (∀ capabilities, check capabilities (prune modules entrypoints) =
        (prune modules entrypoints).flatMap (checkModule capabilities modules)) ∧
      (∀ capabilities,
        (Plan.ofModules capabilities (prune modules entrypoints) entrypoints).entrypoints =
          (Plan.ofModules capabilities modules entrypoints).entrypoints) ∧
      prune (prune modules entrypoints) entrypoints = prune modules entrypoints :=
  ⟨resolveEntrypoints_prune hResolve, fun capabilities => check_prune capabilities _ _,
    fun capabilities => entrypoints_ofModules_prune capabilities _ _, prune_prune⟩

/-- Of two packages, the entrypoint is a rule of the second one. -/
theorem prune_harmless_secondPackage :
    let modules : List Module := [
      ⟨"q.rego", "q", [], [⟨"x", false, false, 2⟩], [], [], false, .v1, "package q\nx := 1\n"⟩,
      ⟨"p.rego", "p", [], [⟨"f", true, true, 2⟩], [⟨"f", 2⟩], [], false, .v1,
        "package p\nf(x) := f(x)\n"⟩]
    let config := configOf Parameters.default (.path "") .shared ⟨false, []⟩
    (resolveEntrypoints config modules).outcome.value = .ok ["p.f"] ∧
      (resolveEntrypoints config (prune modules ["p.f"])).outcome.value = .ok ["p.f"] ∧
      check .empty (prune modules ["p.f"]) =
        (prune modules ["p.f"]).flatMap (checkModule .empty modules) ∧
      (Plan.ofModules .empty (prune modules ["p.f"]) ["p.f"]).entrypoints =
        [⟨"p/f", ["p.f"], ["p.rego"]⟩] ∧
      prune (prune modules ["p.f"]) ["p.f"] = prune modules ["p.f"] := by
  intro modules config
  have hResolve : (resolveEntrypoints config modules).outcome.value = .ok ["p.f"] := by
    decide +kernel
  have hPlan : (Plan.ofModules .empty modules ["p.f"]).entrypoints =
      [⟨"p/f", ["p.f"], ["p.rego"]⟩] := by decide +kernel
  obtain ⟨hKept, hCheck, hSame, hAgain⟩ := prune_harmless hResolve
  exact ⟨hResolve, hKept, hCheck .empty, (hSame .empty).trans hPlan, hAgain⟩

end PolicyBundle.Build
