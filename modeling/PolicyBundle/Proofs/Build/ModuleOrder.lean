import Mathlib.Data.List.Nodup
import PolicyBundle.Proofs.Build.Collecting
import PolicyBundle.Proofs.Build.PlanText
import PolicyBundle.Proofs.Build.Rebuilding

/-! The order of the modules of a bundle. It decides neither whether a bundle is compiled nor what is
written of it, as modules are written in the order of their paths. Only a plan tells it: there
declared entrypoints, and the rules of each entrypoint, stand in the order in which the modules give
them. So all orders of the modules have one output exactly if of any two modules one gives no more than
a beginning of what the other one gives. -/

namespace PolicyBundle.Build

open PolicyBundle.Bundle Log Policy

/-- The output for a bundle that is given. -/
def outputOf (around : Surroundings) (config : Config) (bundle : Bundle) :
    Except CompileError Bytes :=
  (compile around { config with source := .bundle bundle }).outcome.value

theorem outputOf_eq (around : Surroundings) (config : Config) (bundle : Bundle) :
    outputOf around config bundle =
      match Target.ofName? config.target with
      | none => .error (.unsupportedTarget config.target)
      | some target => compiled config target bundle := by
  rw [outputOf, value_compile]
  cases Target.ofName? config.target <;> rfl

section Entrypoints

variable {config : Config} {modules : List Module}

/-- The entrypoints that a module declares, as far as declarations count. -/
def declaredBy (config : Config) (m : Module) : List String :=
  if config.annotations then (declaredEntrypoints m).map (·.2) else []

theorem declaredPaths_eq_flatMap (config : Config) (modules : List Module) :
    declaredPaths config modules = modules.flatMap (declaredBy config) := by
  unfold declaredPaths declaredBy
  split
  · rw [List.map_flatMap]
  · rw [List.flatMap_eq_nil_iff.mpr fun _ _ => rfl]

/-- The paths of the entrypoints that are asked for. -/
def requestedPaths (config : Config) : List String :=
  (config.entrypoints.map normalizeEntrypoint).foldl addOnce []

theorem foldlM_request_eq {names start requested : List String}
    (h : names.foldlM (request modules) start = .ok requested) :
    requested = (names.map normalizeEntrypoint).foldl addOnce start := by
  induction names generalizing start with
  | nil => exact (Except.ok.inj h).symm
  | cons name names ih =>
      rw [List.foldlM_cons] at h
      obtain ⟨next, hNext, hRest⟩ := bind_eq_ok h
      obtain ⟨-, -, rfl⟩ := request_eq_ok_iff.mp hNext
      exact ih hRest

/-- The entrypoints of a build are those that are asked for, and behind them what the modules declare,
module by module. -/
theorem resolved_eq {entrypoints : List String}
    (h : (resolveEntrypoints config modules).outcome.value = .ok entrypoints) :
    entrypoints = (modules.flatMap (declaredBy config)).foldl addOnce (requestedPaths config) := by
  rw [value_resolveEntrypoints, declaredPaths_eq_flatMap] at h
  cases hRequested : requestedEntrypoints modules config.entrypoints with
  | error e => rw [hRequested] at h; cases h
  | ok requested =>
      rw [hRequested] at h
      rw [requestedEntrypoints_eq] at hRequested
      rw [requestedPaths, ← foldlM_request_eq hRequested]
      exact (Except.ok.inj h).symm

end Entrypoints

section Kept

variable {config : Config} {modules others : List Module} {entrypoints more : List String}

theorem occur_of_subset (h : modules ⊆ others) : Occur modules others :=
  fun m hm => ⟨m, h hm, m.path, m.dialect, rfl, rfl⟩

/-- The modules that are kept are chosen by their packages, whatever their order is. -/
theorem exists_kept_eq_filter (config : Config) (hPerm : others.Perm modules)
    (hSame : ∀ path, path ∈ more ↔ path ∈ entrypoints) :
    ∃ keeps : Module → Bool, kept config entrypoints modules = modules.filter keeps ∧
      kept config more others = others.filter keeps := by
  have hForth := occur_of_subset hPerm.subset
  have hBack := occur_of_subset hPerm.symm.subset
  unfold kept
  rw [isEmpty_congr hSame]
  split
  · have hReached (package : String) : (reachable others more).contains package =
        (reachable modules entrypoints).contains package := by
      rw [Bool.eq_iff_iff, List.contains_iff_mem, List.contains_iff_mem]
      exact ⟨fun h => reachable_subset_of_occur hForth (fun path => (hSame path).mp) h,
        fun h => reachable_subset_of_occur hBack (fun path => (hSame path).mpr) h⟩
    exact ⟨_, rfl, List.filter_congr fun m _ => hReached m.package⟩
  · exact ⟨fun _ => true, (List.filter_true _).symm, (List.filter_true _).symm⟩

theorem kept_perm (config : Config) (hPerm : others.Perm modules)
    (hSame : ∀ path, path ∈ more ↔ path ∈ entrypoints) :
    (kept config more others).Perm (kept config entrypoints modules) := by
  obtain ⟨keeps, hKept, hKeptOrder⟩ := exists_kept_eq_filter config hPerm hSame
  rw [hKept, hKeptOrder]
  exact hPerm.filter keeps

/-- Modules with distinct paths have one order by their paths. -/
theorem byPath_eq_of_perm (hPerm : others.Perm modules) (hPaths : (modules.map (·.path)).Nodup) :
    byPath others = byPath modules := by
  have hSorted : (byPath others).Perm (byPath modules) :=
    (List.mergeSort_perm _ _).trans (hPerm.trans (List.mergeSort_perm _ _).symm)
  refine hSorted.eq_of_pairwise (fun m n hm hn hLe hGe => ?_) (pairwise_byPath _) (pairwise_byPath _)
  exact List.inj_on_of_nodup_map hPaths (hPerm.mem_iff.mp (mem_byPath.mp hm)) (mem_byPath.mp hn)
    (String.le_antisymm hLe hGe)

/-- What modules give to a plan beyond their rules does not depend on their order. -/
theorem entryOf_eq_of_perm (hPerm : others.Perm modules) {e : String}
    (hRules : (others.flatMap (relatedRules e)).foldl addOnce [] =
      (modules.flatMap (relatedRules e)).foldl addOnce []) :
    Plan.entryOf others e = Plan.entryOf modules e := by
  have hModules := sortedSet_congr fun path =>
    ((hPerm.filter fun m => !(relatedRules e m).isEmpty).map (·.path)).mem_iff (a := path)
  simp only [Plan.entryOf, hRules, hModules]

theorem builtins_eq_of_perm (capabilities : Capabilities) (hPerm : others.Perm modules)
    (more entrypoints : List String) :
    (Plan.ofModules capabilities others more).builtins =
      (Plan.ofModules capabilities modules entrypoints).builtins :=
  sortedSet_congr fun _ => ((hPerm.flatMap_right _).filter _).mem_iff

end Kept

/-- What is written of a bundle in front of its plan. -/
def writeFront (config : Config) (bundle : Bundle) : Writing Unit := do
  writeManifest (outputManifest config bundle.manifest)
  (byPath bundle.modules).forM writeModule
  writeData bundle.data

/-- The plan in an output. -/
def writePlan (config : Config) (target : Target) (entrypoints : List String) (modules : List Module) :
    Writing Unit :=
  if target = .plan then
    writeEntry planName (Text.utf8
      (Plan.ofModules config.capabilities.capabilities modules entrypoints).toJson.pretty)
  else pure ()

theorem writeOutput_eq (config : Config) (target : Target) (entrypoints : List String)
    (bundle : Bundle) : writeOutput config target entrypoints bundle =
      writeFront config bundle >>= fun _ => writePlan config target entrypoints bundle.modules := by
  simp only [writeOutput, writeFront, writePlan, bind_assoc]

theorem sourcesOf_perm (config : Config) {bundle : Bundle} {order : List Module}
    (hPerm : order.Perm bundle.modules) :
    (sourcesOf config { bundle with modules := order }).Perm (sourcesOf config bundle) := by
  unfold sourcesOf
  split
  · exact hPerm
  · exact hPerm.map _

theorem map_path_sourcesOf (config : Config) (bundle : Bundle) :
    (sourcesOf config bundle).map (·.path) = bundle.modules.map (·.path) := by
  unfold sourcesOf
  split
  · rfl
  · rw [List.map_map]
    rfl

section Orders

variable {config : Config} {target : Target} {bundle : Bundle} {order : List Module}
  {output : Bytes}

/-- In another order the same checks are passed, the same entrypoints are resolved, perhaps in another
order, and the same is written up to the plan. -/
theorem compiled_of_perm (hPerm : order.Perm bundle.modules)
    (hPaths : (bundle.modules.map (·.path)).Nodup) (h : compiled config target bundle = .ok output) :
    ∃ entrypoints more, ∃ front : Writing Unit,
      (resolveEntrypoints config (sourcesOf config bundle)).outcome.value = .ok entrypoints ∧
      (resolveEntrypoints config
        (sourcesOf config { bundle with modules := order })).outcome.value = .ok more ∧
      (∀ path, path ∈ more ↔ path ∈ entrypoints) ∧
      archive (front >>= fun _ => writePlan config target entrypoints
        (kept config entrypoints (sourcesOf config bundle))) = .ok output ∧
      ∀ other, compiled config target { bundle with modules := order } = .ok other ↔
        archive (front >>= fun _ => writePlan config target more
          (kept config more (sourcesOf config { bundle with modules := order }))) = .ok other := by
  obtain ⟨hCheck, entrypoints, hResolve, hFault, hArchive⟩ := compiled_eq_ok_iff.mp h
  have hSources := sourcesOf_perm config hPerm
  have hForth := occur_of_subset hSources.symm.subset
  have hBack := occur_of_subset hSources.subset
  obtain ⟨more, hMore, hSame⟩ := resolveEntrypoints_of_occur hForth hBack hResolve
  have hCheckOrder := check_of_occur hForth hBack hCheck
  have hFaultOrder : fault? config target more = none := by
    rw [fault?, isEmpty_congr hSame]
    exact hFault
  have hByPath : byPath (kept config more (sourcesOf config { bundle with modules := order })) =
      byPath (kept config entrypoints (sourcesOf config bundle)) := by
    refine byPath_eq_of_perm (kept_perm config hSources hSame) ?_
    refine List.Nodup.sublist ((kept_sublist config entrypoints _).map _) ?_
    rwa [map_path_sourcesOf]
  have hFront : writeFront config { bundle with
        modules := kept config more (sourcesOf config { bundle with modules := order }) } =
      writeFront config { bundle with
        modules := kept config entrypoints (sourcesOf config bundle) } := by
    simp only [writeFront, hByPath]
  rw [writeOutput_eq] at hArchive
  refine ⟨entrypoints, more, _, hResolve, hMore, hSame, hArchive, fun other => ?_⟩
  rw [compiled_eq_ok_iff, ← hFront]
  constructor
  · rintro ⟨-, found, hFound, -, hOther⟩
    obtain rfl : more = found := Except.ok.inj (hMore.symm.trans hFound)
    rwa [writeOutput_eq] at hOther
  · intro hOther
    rw [← writeOutput_eq] at hOther
    exact ⟨hCheckOrder, more, hMore, hFaultOrder, hOther⟩

theorem writable_planName : EntryPath.Writable planName :=
  ⟨by decide +kernel, by decide +kernel, by decide +kernel⟩

/-- A bundle that is compiled is compiled in every order of its modules. -/
theorem exists_compiled_of_perm (hPerm : order.Perm bundle.modules)
    (hPaths : (bundle.modules.map (·.path)).Nodup) (h : compiled config target bundle = .ok output) :
    ∃ other, compiled config target { bundle with modules := order } = .ok other := by
  obtain ⟨entrypoints, more, front, -, -, -, hArchive, hOther⟩ := compiled_of_perm hPerm hPaths h
  simp only [hOther, writePlan] at hArchive ⊢
  split
  · rename_i hPlan
    rw [if_pos hPlan] at hArchive
    rw [exists_archive_entry_iff writable_planName]
    exact (exists_archive_entry_iff writable_planName).mp ⟨_, hArchive⟩
  · rename_i hRego
    rw [if_neg hRego] at hArchive
    exact ⟨_, hArchive⟩

/-- Without a plan an output has no order but its own. -/
theorem compiled_eq_of_perm (hPerm : order.Perm bundle.modules)
    (hPaths : (bundle.modules.map (·.path)).Nodup) (hTarget : target ≠ .plan)
    (h : compiled config target bundle = .ok output) :
    compiled config target { bundle with modules := order } = .ok output := by
  obtain ⟨entrypoints, more, front, -, -, -, hArchive, hOther⟩ := compiled_of_perm hPerm hPaths h
  rw [hOther, writePlan, if_neg hTarget]
  rwa [writePlan, if_neg hTarget] at hArchive

/-- With a plan two orders have one output exactly if they have one plan. -/
theorem compiled_plan_eq_iff (hPerm : order.Perm bundle.modules)
    (hPaths : (bundle.modules.map (·.path)).Nodup) (h : compiled config .plan bundle = .ok output) :
    ∃ entrypoints more,
      (resolveEntrypoints config (sourcesOf config bundle)).outcome.value = .ok entrypoints ∧
      (resolveEntrypoints config
        (sourcesOf config { bundle with modules := order })).outcome.value = .ok more ∧
      (∀ path, path ∈ more ↔ path ∈ entrypoints) ∧
      (compiled config .plan { bundle with modules := order } = .ok output ↔
        more.map (Plan.entryOf
            (kept config more (sourcesOf config { bundle with modules := order }))) =
          entrypoints.map (Plan.entryOf (kept config entrypoints (sourcesOf config bundle)))) := by
  obtain ⟨entrypoints, more, front, hResolve, hMore, hSame, hArchive, hOther⟩ :=
    compiled_of_perm hPerm hPaths h
  refine ⟨entrypoints, more, hResolve, hMore, hSame, ?_⟩
  have hBuiltins := builtins_eq_of_perm config.capabilities.capabilities
    (kept_perm config (sourcesOf_perm config hPerm) hSame) more entrypoints
  have hLast (plan : Plan) : (Text.utf8 plan.toJson.pretty).getLast? ≠ some 0 := by
    rw [getLast?_utf8_pretty]
    decide
  rw [hOther]
  rw [writePlan, if_pos rfl] at hArchive ⊢
  constructor
  · intro hSameOutput
    have hText := archive_entry_injective (hLast _) (hLast _) writable_planName hSameOutput hArchive
    exact congrArg Plan.entrypoints (Plan.pretty_injective (Text.utf8_injective hText))
  · intro hEntries
    have hPlan : Plan.ofModules config.capabilities.capabilities
          (kept config more (sourcesOf config { bundle with modules := order })) more =
        Plan.ofModules config.capabilities.capabilities
          (kept config entrypoints (sourcesOf config bundle)) entrypoints :=
      Plan.mk.injEq .. ▸ ⟨hEntries, hBuiltins⟩
    rw [hPlan]
    exact hArchive

/-- Of any two modules, one declares no more than a beginning of the entrypoints that the other one
declares, and of each entrypoint one that is kept has no more than a beginning of the rules of the
other one. Entrypoints that are asked for, and rules that a module has twice, do not count. -/
structure OrderFree (config : Config) (modules : List Module) (entrypoints : List String) : Prop where
  declared : ∀ m ∈ modules, ∀ n ∈ modules,
    OneBegins ((declaredBy config m).foldl addOnce (requestedPaths config))
      ((declaredBy config n).foldl addOnce (requestedPaths config))
  rules : ∀ e ∈ entrypoints, ∀ m ∈ kept config entrypoints modules,
    ∀ n ∈ kept config entrypoints modules,
      OneBegins ((relatedRules e m).foldl addOnce []) ((relatedRules e n).foldl addOnce [])

theorem compiled_eq_of_orderFree (hPerm : order.Perm bundle.modules)
    (hPaths : (bundle.modules.map (·.path)).Nodup) (h : compiled config .plan bundle = .ok output)
    (hFree : ∀ entrypoints,
      (resolveEntrypoints config (sourcesOf config bundle)).outcome.value = .ok entrypoints →
        OrderFree config (sourcesOf config bundle) entrypoints) :
    compiled config .plan { bundle with modules := order } = .ok output := by
  obtain ⟨entrypoints, more, hResolve, hMore, hSame, hPlan⟩ := compiled_plan_eq_iff hPerm hPaths h
  have hFree := hFree entrypoints hResolve
  have hSources := sourcesOf_perm config hPerm
  obtain rfl : more = entrypoints := by
    rw [resolved_eq hResolve, resolved_eq hMore]
    exact foldl_addOnce_flatMap_eq hFree.declared fun m => hSources.mem_iff
  refine hPlan.mpr (List.map_congr_left fun e he => ?_)
  have hKeptPerm := kept_perm config hSources hSame
  exact entryOf_eq_of_perm hKeptPerm
    (foldl_addOnce_flatMap_eq (hFree.rules e he) fun m => hKeptPerm.mem_iff)

/-- A dotted path is told by its name in a plan. -/
theorem replace_replace {path : String} (h : '/' ∉ path.toList) :
    Text.replace '/' '.' (Text.replace '.' '/' path) = path := by
  have hChars : (path.toList.map fun c => if c = '.' then '/' else c).map
      (fun c => if c = '/' then '.' else c) = path.toList := by
    rw [List.map_map]
    refine (List.map_congr_left fun c hc => ?_).trans (List.map_id _)
    have hSlash : c ≠ '/' := fun hEq => h (hEq ▸ hc)
    by_cases hDot : c = '.' <;> simp [hDot, hSlash]
  rw [Text.replace, Text.replace, String.toList_ofList, hChars, String.ofList_toList]

theorem notMem_normalizeEntrypoint (entrypoint : String) :
    '/' ∉ (normalizeEntrypoint entrypoint).toList := by
  have hReplaced (text : String) : '/' ∉ (Text.replace '/' '.' text).toList := by
    rw [Text.replace, String.toList_ofList, List.mem_map]
    rintro ⟨c, -, hc⟩
    split at hc
    · cases hc
    · contradiction
  rw [normalizeEntrypoint, Text.dropStart]
  cases hRest : Text.after? "data." (Text.replace '/' '.'
      (String.ofList (Text.dropEnds (· = '/') entrypoint.toList))) with
  | none => exact hReplaced _
  | some rest =>
      obtain ⟨chars, hChars, rfl⟩ := Option.map_eq_some_iff.mp hRest
      rw [Option.getD_some, String.toList_ofList]
      refine fun hMem =>
        hReplaced (String.ofList (Text.dropEnds (· = '/') entrypoint.toList)) ?_
      rw [Text.afterList?_eq_some_iff.mp hChars]
      exact List.mem_append_right _ hMem

/-- Paths without slashes are told by the plans that modules make of them. -/
theorem eq_of_map_entryOf {modules others : List Module} {entrypoints more : List String}
    (hPlain : ∀ path ∈ entrypoints, '/' ∉ path.toList) (hPlainMore : ∀ path ∈ more, '/' ∉ path.toList)
    (h : more.map (Plan.entryOf others) = entrypoints.map (Plan.entryOf modules)) :
    more = entrypoints ∧ ∀ e ∈ entrypoints, (others.flatMap (relatedRules e)).foldl addOnce [] =
      (modules.flatMap (relatedRules e)).foldl addOnce [] := by
  have hBack {paths : List String} (hPaths : ∀ path ∈ paths, '/' ∉ path.toList)
      (modules : List Module) :
      (paths.map (Plan.entryOf modules)).map (fun e => Text.replace '/' '.' e.name) = paths := by
    rw [List.map_map]
    exact (List.map_congr_left fun path hPath => replace_replace (hPaths path hPath)).trans
      (List.map_id _)
  obtain rfl : more = entrypoints := by
    rw [← hBack hPlainMore others, h, hBack hPlain]
  exact ⟨rfl, fun e he => congrArg PlanEntry.rules (List.map_inj_left.mp h e he)⟩

theorem sourcesOf_eq_map (config : Config) (bundle : Bundle) : sourcesOf config bundle =
    bundle.modules.map fun m => if config.keepPrints then m else m.withoutPrints := by
  unfold sourcesOf
  split <;> simp_all

/-- Any module can stand in front of the others. -/
theorem exists_order_front {m : Module} (h : m ∈ sourcesOf config bundle) :
    ∃ order rest, order.Perm bundle.modules ∧
      sourcesOf config { bundle with modules := order } = m :: rest := by
  rw [sourcesOf_eq_map] at h
  obtain ⟨given, hGiven, rfl⟩ := List.mem_map.mp h
  refine ⟨given :: bundle.modules.erase given,
    (bundle.modules.erase given).map fun m => if config.keepPrints then m else m.withoutPrints,
    (List.perm_cons_erase hGiven).symm, ?_⟩
  rw [sourcesOf_eq_map, List.map_cons]

/-- No entrypoint has a slash, if none of the declared ones has: those that are asked for lose
theirs. -/
theorem notMem_of_resolved (hPlain : ∀ path ∈ declaredPaths config (sourcesOf config bundle),
      '/' ∉ path.toList) {entrypoints : List String}
    (hResolve : (resolveEntrypoints config (sourcesOf config bundle)).outcome.value =
      .ok entrypoints) : ∀ path ∈ entrypoints, '/' ∉ path.toList := by
  intro path hPath
  rw [resolved_eq hResolve, mem_foldl_addOnce, ← declaredPaths_eq_flatMap] at hPath
  rcases hPath with hRequested | hDeclared
  · rw [requestedPaths, mem_foldl_addOnce] at hRequested
    obtain ⟨entrypoint, -, rfl⟩ := List.mem_map.mp (hRequested.resolve_left List.not_mem_nil)
    exact notMem_normalizeEntrypoint entrypoint
  · exact hPlain path hDeclared

/-- An order with the same output has the same entrypoints in the same order, and the same rules for
each of them. -/
theorem resolved_of_compiled_eq (hPaths : (bundle.modules.map (·.path)).Nodup)
    (h : compiled config .plan bundle = .ok output) (hPerm : order.Perm bundle.modules)
    (hOrder : compiled config .plan { bundle with modules := order } = .ok output)
    {entrypoints : List String} (hSlash : ∀ path ∈ entrypoints, '/' ∉ path.toList)
    (hResolve : (resolveEntrypoints config (sourcesOf config bundle)).outcome.value =
      .ok entrypoints) :
    (resolveEntrypoints config
        (sourcesOf config { bundle with modules := order })).outcome.value = .ok entrypoints ∧
      ∀ e ∈ entrypoints,
        ((kept config entrypoints (sourcesOf config { bundle with modules := order })).flatMap
            (relatedRules e)).foldl addOnce [] =
          ((kept config entrypoints (sourcesOf config bundle)).flatMap
            (relatedRules e)).foldl addOnce [] := by
  obtain ⟨found, more, hFound, hMore, hSame, hPlan⟩ := compiled_plan_eq_iff hPerm hPaths h
  obtain rfl : entrypoints = found := Except.ok.inj (hResolve.symm.trans hFound)
  obtain ⟨rfl, hRules⟩ := eq_of_map_entryOf hSlash
    (fun path hPath => hSlash path ((hSame path).mp hPath)) (hPlan.mp hOrder)
  exact ⟨hMore, hRules⟩

/-- Where all orders have one output, none of them matters to the plan. -/
theorem orderFree_of_compiled_eq (hPaths : (bundle.modules.map (·.path)).Nodup)
    (hPlain : ∀ path ∈ declaredPaths config (sourcesOf config bundle), '/' ∉ path.toList)
    (h : compiled config .plan bundle = .ok output)
    (hAll : ∀ order : List Module, order.Perm bundle.modules →
      compiled config .plan { bundle with modules := order } = .ok output)
    {entrypoints : List String}
    (hResolve : (resolveEntrypoints config (sourcesOf config bundle)).outcome.value =
      .ok entrypoints) : OrderFree config (sourcesOf config bundle) entrypoints := by
  have hOrder (order : List Module) (hPerm : order.Perm bundle.modules) :=
    resolved_of_compiled_eq hPaths h hPerm (hAll order hPerm)
      (notMem_of_resolved hPlain hResolve) hResolve
  constructor
  · -- what a module declares, declared first, begins all entrypoints
    have hBegins : ∀ m ∈ sourcesOf config bundle,
        (declaredBy config m).foldl addOnce (requestedPaths config) <+: entrypoints := by
      intro m hm
      obtain ⟨order, rest, hPerm, hFront⟩ := exists_order_front hm
      rw [resolved_eq (hOrder order hPerm).1, hFront]
      exact prefix_flatMap_front m rest
    exact fun m hm n hn => List.prefix_or_prefix_of_prefix (hBegins m hm) (hBegins n hn)
  · intro e he
    have hBegins : ∀ m ∈ kept config entrypoints (sourcesOf config bundle),
        (relatedRules e m).foldl addOnce [] <+:
          ((kept config entrypoints (sourcesOf config bundle)).flatMap
            (relatedRules e)).foldl addOnce [] := by
      intro m hm
      obtain ⟨order, rest, hPerm, hFront⟩ := exists_order_front (mem_kept hm)
      obtain ⟨keeps, hKept, hKeptOrder⟩ := exists_kept_eq_filter config
        (sourcesOf_perm config hPerm) (fun path => Iff.rfl (a := path ∈ entrypoints))
      rw [hKept] at hm
      rw [← (hOrder order hPerm).2 e he, hKeptOrder, hFront,
        List.filter_cons_of_pos (List.mem_filter.mp hm).2]
      exact prefix_flatMap_front m _
    exact fun m hm n hn => List.prefix_or_prefix_of_prefix (hBegins m hm) (hBegins n hn)

theorem isOk_compiled_of_perm (config : Config) (target : Target) (hPerm : order.Perm bundle.modules)
    (hPaths : (bundle.modules.map (·.path)).Nodup) :
    (compiled config target { bundle with modules := order }).isOk =
      (compiled config target bundle).isOk := by
  cases hBundle : compiled config target bundle with
  | ok output =>
      obtain ⟨other, hOther⟩ := exists_compiled_of_perm hPerm hPaths hBundle
      rw [hOther]
      rfl
  | error e =>
      cases hOrder : compiled config target { bundle with modules := order } with
      | error e => rfl
      | ok output =>
          have hBack : bundle.modules.Perm { bundle with modules := order }.modules := hPerm.symm
          obtain ⟨other, hOther⟩ :=
            exists_compiled_of_perm hBack ((hPerm.map _).nodup_iff.mpr hPaths) hOrder
          rw [hBundle] at hOther
          cases hOther

/-- Two orders have the same outcome if one has the output of the other. -/
theorem toOption_compiled_eq (hPerm : order.Perm bundle.modules)
    (hPaths : (bundle.modules.map (·.path)).Nodup)
    (h : ∀ output, compiled config target bundle = .ok output →
      compiled config target { bundle with modules := order } = .ok output) :
    (compiled config target { bundle with modules := order }).toOption =
      (compiled config target bundle).toOption := by
  have hOk := isOk_compiled_of_perm config target hPerm hPaths
  cases hBundle : compiled config target bundle with
  | ok output => rw [h output hBundle]
  | error e =>
      rw [hBundle] at hOk
      cases hOrder : compiled config target { bundle with modules := order } with
      | error e => rfl
      | ok output => rw [hOrder] at hOk; cases hOk

end Orders

/-- The order of the modules decides neither whether a bundle is compiled nor what comes of it where it
has no plan. A plan is the same for all orders if no order matters to it; and it is only then, where
declared entrypoints are dotted names. -/
theorem outputOf_orders (around : Surroundings) (config : Config) (bundle : Bundle)
    (hPaths : (bundle.modules.map (·.path)).Nodup) :
    let alike (order : List Module) : Prop :=
      (outputOf around config { bundle with modules := order }).toOption =
        (outputOf around config bundle).toOption
    let free : Prop := ∀ output entrypoints, outputOf around config bundle = .ok output →
      (resolveEntrypoints config (sourcesOf config bundle)).outcome.value = .ok entrypoints →
        OrderFree config (sourcesOf config bundle) entrypoints
    (∀ order : List Module, order.Perm bundle.modules →
        (outputOf around config { bundle with modules := order }).isOk =
          (outputOf around config bundle).isOk) ∧
      (Target.ofName? config.target ≠ some .plan →
        ∀ order : List Module, order.Perm bundle.modules → alike order) ∧
      (free → ∀ order : List Module, order.Perm bundle.modules → alike order) ∧
      ((∀ path ∈ declaredPaths config (sourcesOf config bundle), '/' ∉ path.toList) →
        Target.ofName? config.target = some .plan →
          (∀ order : List Module, order.Perm bundle.modules → alike order) → free) := by
  intro alike free
  cases hTarget : Target.ofName? config.target with
  | none =>
      have hNone (order : List Module) : outputOf around config { bundle with modules := order } =
          .error (.unsupportedTarget config.target) := by
        rw [outputOf_eq, hTarget]
      exact ⟨fun order _ => by rw [hNone, hNone bundle.modules],
        fun _ order _ => show _ = _ by rw [hNone, hNone bundle.modules],
        fun _ order _ => show _ = _ by rw [hNone, hNone bundle.modules], fun _ h => by cases h⟩
  | some target =>
      have hOutput (order : List Module) : outputOf around config { bundle with modules := order } =
          compiled config target { bundle with modules := order } := by
        rw [outputOf_eq, hTarget]
      have hGiven : outputOf around config bundle = compiled config target bundle :=
        hOutput bundle.modules
      have hAlike (order : List Module) (hPerm : order.Perm bundle.modules)
          (h : ∀ output, compiled config target bundle = .ok output →
            compiled config target { bundle with modules := order } = .ok output) : alike order := by
        show _ = _
        rw [hOutput, hGiven]
        exact toOption_compiled_eq hPerm hPaths h
      refine ⟨fun order hPerm => ?_, fun hRego order hPerm => ?_, fun hFree order hPerm => ?_,
        fun hPlain hPlan hAll output entrypoints h hResolve => ?_⟩
      · rw [hOutput, hGiven]
        exact isOk_compiled_of_perm config target hPerm hPaths
      · exact hAlike order hPerm fun output h =>
          compiled_eq_of_perm hPerm hPaths (fun hPlan => hRego (hPlan ▸ rfl)) h
      · refine hAlike order hPerm fun output h => ?_
        cases target with
        | rego => exact compiled_eq_of_perm hPerm hPaths (by decide) h
        | plan =>
            exact compiled_eq_of_orderFree hPerm hPaths h fun entrypoints =>
              hFree output entrypoints (hGiven.trans h)
      · obtain rfl := Option.some.inj hPlan
        rw [hGiven] at h
        refine orderFree_of_compiled_eq hPaths hPlain h (fun order hPerm => ?_) hResolve
        have hSame : (outputOf around config { bundle with modules := order }).toOption =
            (outputOf around config bundle).toOption := hAll order hPerm
        rw [hOutput, hGiven, h] at hSame
        exact toOption_eq_some_iff.mp hSame

/-- A module of the package `p` with one rule. -/
def giving (path name : String) : Module where
  path := path
  package := "p"
  imports := []
  rules := [⟨name, false, false, 2⟩]
  calls := []
  dataRefs := []
  packageEntrypoint := false
  dialect := .v1
  source := "package p\n" ++ name ++ " := 1\n"

/-- Two modules of one package, not in the order of their paths. -/
def givingTwo : Bundle :=
  ⟨.empty, [giving "b.rego" "x", giving "a.rego" "y"], Json.emptyObject⟩

/-- What a compiler is told that plans an entrypoint. -/
def planning (entrypoint : String) : Config :=
  configOf { Parameters.default with target := "plan", entrypoints := [entrypoint] }
    (.bundle givingTwo) justV1 ⟨false, []⟩

theorem exists_compiled_givingTwo {entrypoint path : String}
    (hResolve : (resolveEntrypoints (planning entrypoint) givingTwo.modules).outcome.value =
      .ok [path]) :
    ∃ output, compiled (planning entrypoint) .plan givingTwo = .ok output := by
  have hWritable : ∀ m ∈ givingTwo.modules, EntryPath.Writable m.path := by
    simp only [givingTwo, giving, List.forall_mem_cons]
    refine ⟨⟨?_, ?_, ?_⟩, ⟨?_, ?_, ?_⟩, by simp⟩ <;> decide +kernel
  have hCheck : check (planning entrypoint).capabilities.capabilities givingTwo.modules = [] := by
    show check justV1.capabilities givingTwo.modules = []
    decide +kernel
  obtain ⟨pack, hPack, -⟩ := compiled_of_writable (planning entrypoint) .plan givingTwo [path]
    hCheck hResolve rfl hWritable
  exact ⟨pack.finish, hPack⟩

/-- The rule of one of the modules is the entrypoint: then no order matters. -/
theorem outputOf_orders_singleRule :
    let around : Surroundings := ⟨.empty, .default⟩
    (givingTwo.modules.map (·.path)).Nodup ∧
      (∃ output, outputOf around (planning "p/x") givingTwo = .ok output) ∧
      ∀ order : List Module, order.Perm givingTwo.modules →
        (outputOf around (planning "p/x") { givingTwo with modules := order }).toOption =
          (outputOf around (planning "p/x") givingTwo).toOption := by
  intro around
  have hPaths : (givingTwo.modules.map (·.path)).Nodup := by decide
  have hTarget : Target.ofName? (planning "p/x").target = some .plan := rfl
  have hResolve : (resolveEntrypoints (planning "p/x") givingTwo.modules).outcome.value =
      .ok ["p.x"] := by decide +kernel
  obtain ⟨output, hOutput⟩ := exists_compiled_givingTwo hResolve
  refine ⟨hPaths, ⟨output, by rw [outputOf_eq, hTarget]; exact hOutput⟩,
    (outputOf_orders around (planning "p/x") givingTwo hPaths).2.2.1 fun output entrypoints _ h => ?_⟩
  obtain rfl : ["p.x"] = entrypoints := Except.ok.inj (hResolve.symm.trans h)
  have hKept : kept (planning "p/x") ["p.x"] givingTwo.modules = givingTwo.modules := rfl
  refine ⟨?_, ?_⟩
  · show ∀ m ∈ givingTwo.modules, ∀ n ∈ givingTwo.modules, _
    unfold OneBegins
    decide +kernel
  · show ∀ e ∈ _, ∀ m ∈ givingTwo.modules, ∀ n ∈ givingTwo.modules, _
    unfold OneBegins
    decide +kernel

/-- The package of both modules is the entrypoint: then its rules stand in the order of the modules. -/
theorem not_outputOf_orderFree :
    ¬∀ (around : Surroundings) (config : Config) (bundle : Bundle) (order : List Module),
      order.Perm bundle.modules → (bundle.modules.map (·.path)).Nodup →
        (outputOf around config { bundle with modules := order }).toOption =
          (outputOf around config bundle).toOption := by
  intro h
  have hPaths : (givingTwo.modules.map (·.path)).Nodup := by decide
  have hPerm : givingTwo.modules.reverse.Perm givingTwo.modules := List.reverse_perm _
  have hTarget : Target.ofName? (planning "p").target = some .plan := rfl
  have hResolve : (resolveEntrypoints (planning "p") givingTwo.modules).outcome.value =
      .ok ["p"] := by decide +kernel
  have hReverse : (resolveEntrypoints (planning "p") givingTwo.modules.reverse).outcome.value =
      .ok ["p"] := by decide +kernel
  obtain ⟨output, hOutput⟩ := exists_compiled_givingTwo hResolve
  have hSame := h ⟨.empty, .default⟩ (planning "p") givingTwo _ hPerm hPaths
  rw [outputOf_eq, outputOf_eq, hTarget] at hSame
  simp only [hOutput] at hSame
  obtain ⟨entrypoints, more, hFound, hMore, -, hPlan⟩ := compiled_plan_eq_iff hPerm hPaths hOutput
  obtain rfl : ["p"] = entrypoints := Except.ok.inj (hResolve.symm.trans hFound)
  obtain rfl : ["p"] = more := Except.ok.inj (hReverse.symm.trans hMore)
  have hEntries := hPlan.mp (toOption_eq_some_iff.mp hSame)
  revert hEntries
  show ¬(["p"].map (Plan.entryOf givingTwo.modules.reverse) =
    ["p"].map (Plan.entryOf givingTwo.modules))
  decide +kernel

end PolicyBundle.Build
