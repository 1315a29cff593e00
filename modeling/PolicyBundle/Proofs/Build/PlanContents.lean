import PolicyBundle.Proofs.Build.CallCheck
import PolicyBundle.Proofs.Build.ModuleOrder

/-! What the plan of an output says. Its entries tell the rules of each entrypoint and the files that
have them, among the modules that are kept. Its builtin functions are found by the names of calls alone,
while the check of the same calls looks first for functions of the package and for imports: a function
that has the name of a builtin function is taken for it. -/

namespace PolicyBundle.Build

open PolicyBundle.Bundle Policy

/-- A call by a module means a builtin function of the capabilities: the module's package has no
function of that name, and the module no import that stands in front of it. -/
structure MeansBuiltin (capabilities : Capabilities) (modules : List Module) (m : Module)
    (name : String) : Prop where
  known : capabilities.hasBuiltin name = true
  notOwn : ¬∃ n ∈ modules, n.package = m.package ∧
    ∃ rule ∈ n.rules, rule.isFunction = true ∧ rule.name = name
  notImported : ¬∃ i ∈ m.imports, i.localName = some (Text.firstPiece '.' name)

/-- These are the calls that the check lets through because of the builtin functions alone. -/
theorem meansBuiltin_iff (capabilities : Capabilities) (modules : List Module) (m : Module)
    (call : Call) : MeansBuiltin capabilities modules m call.name ↔
      isCovered capabilities modules m call = true ∧ isCovered .empty modules m call = false := by
  have hEmpty : Capabilities.empty.hasBuiltin call.name = false := rfl
  rw [isCovered_iff, ← Bool.not_eq_true, isCovered_iff, MayCall, MayCall, hEmpty]
  constructor
  · rintro ⟨hKnown, hOwn, hImported⟩
    exact ⟨Or.inl hKnown, by simp only [Bool.false_eq_true, false_or, not_or]; exact ⟨hOwn, hImported⟩⟩
  · rintro ⟨hMay, hNone⟩
    simp only [Bool.false_eq_true, false_or, not_or] at hNone
    exact ⟨hMay.resolve_right fun h => h.elim hNone.1 hNone.2, hNone.1, hNone.2⟩

instance {capabilities : Capabilities} {modules : List Module} {m : Module} {name : String} :
    Decidable (MeansBuiltin capabilities modules m name) :=
  decidable_of_iff _ (meansBuiltin_iff capabilities modules m ⟨name, 0⟩).symm

/-- The plan of an entrypoint has its name, the related rules of some modules, each once and in the order
in which they occur first, and the set of the files that have such a rule. -/
structure DescribesEntry (modules : List Module) (entrypoint : String) (e : PlanEntry) : Prop where
  name : e.name = Text.replace '.' '/' entrypoint
  rules : FirstOccurrences
    ((modules.flatMap (·.rulePaths)).filter fun rule => SegmentRelated rule entrypoint) e.rules
  sorted : e.modules.Pairwise (· < ·)
  mem_modules : ∀ path, path ∈ e.modules ↔
    ∃ m ∈ modules, m.path = path ∧ ∃ rule ∈ m.rulePaths, SegmentRelated rule entrypoint

/-- The set of the builtin functions that the calls of some kept modules mean. -/
structure DescribesBuiltins (capabilities : Capabilities) (modules kept : List Module)
    (names : List String) : Prop where
  sorted : names.Pairwise (· < ·)
  mem : ∀ name, name ∈ names ↔
    ∃ m ∈ kept, ∃ call ∈ m.calls, call.name = name ∧ MeansBuiltin capabilities modules m name

section Entries

variable {modules : List Module} {entrypoint : String}

theorem mem_relatedRules_iff {m : Module} {rule : String} :
    rule ∈ relatedRules entrypoint m ↔ rule ∈ m.rulePaths ∧ SegmentRelated rule entrypoint := by
  rw [relatedRules, List.mem_filter, related_iff]

theorem flatMap_relatedRules (entrypoint : String) (modules : List Module) :
    modules.flatMap (relatedRules entrypoint) =
      (modules.flatMap (·.rulePaths)).filter fun rule => SegmentRelated rule entrypoint := by
  rw [List.filter_flatMap]
  refine List.flatMap_congr fun m _ => List.filter_congr fun rule _ => ?_
  rw [Bool.eq_iff_iff, related_iff, decide_eq_true_iff]

theorem describesEntry_entryOf (modules : List Module) (entrypoint : String) :
    DescribesEntry modules entrypoint (Plan.entryOf modules entrypoint) := by
  refine ⟨rfl, ?_, pairwise_sortedSet _, fun path => ?_⟩
  · rw [← flatMap_relatedRules]
    exact firstOccurrences_foldl_addOnce _
  · have hRelated (m : Module) : (!(relatedRules entrypoint m).isEmpty) = true ↔
        ∃ rule ∈ m.rulePaths, SegmentRelated rule entrypoint := by
      rw [Bool.not_eq_true', List.isEmpty_eq_false_iff]
      constructor
      · intro hSome
        obtain ⟨rule, hRule⟩ := List.exists_mem_of_ne_nil _ hSome
        exact ⟨rule, mem_relatedRules_iff.mp hRule⟩
      · rintro ⟨rule, hRule⟩
        exact List.ne_nil_of_mem (mem_relatedRules_iff.mpr hRule)
    simp only [Plan.entryOf, mem_sortedSet, List.mem_map, List.mem_filter, hRelated]
    exact exists_congr fun m => and_assoc.trans (and_congr_right fun _ => and_comm)

end Entries

section Builtins

variable {capabilities : Capabilities} {modules kept : List Module}

theorem mem_builtins_iff {entrypoints : List String} {name : String} :
    name ∈ (Plan.ofModules capabilities kept entrypoints).builtins ↔
      (∃ m ∈ kept, ∃ call ∈ m.calls, call.name = name) ∧ capabilities.hasBuiltin name = true := by
  simp only [Plan.ofModules, mem_sortedSet, List.mem_filter, List.mem_flatMap, List.mem_map]

/-- The builtin functions of a plan are those that calls mean exactly if each of them is meant by one
of the calls that name it. -/
theorem describesBuiltins_iff (entrypoints : List String) :
    DescribesBuiltins capabilities modules kept
        (Plan.ofModules capabilities kept entrypoints).builtins ↔
      ∀ m ∈ kept, ∀ call ∈ m.calls, capabilities.hasBuiltin call.name = true →
        ∃ n ∈ kept, ∃ other ∈ n.calls, other.name = call.name ∧
          MeansBuiltin capabilities modules n call.name := by
  constructor
  · intro h m hm call hCall hKnown
    exact (h.mem call.name).mp (mem_builtins_iff.mpr ⟨⟨m, hm, call, hCall, rfl⟩, hKnown⟩)
  · intro h
    refine ⟨pairwise_sortedSet _, fun name => mem_builtins_iff.trans ⟨?_, ?_⟩⟩
    · rintro ⟨⟨m, hm, call, hCall, rfl⟩, hKnown⟩
      exact h m hm call hCall hKnown
    · rintro ⟨m, hm, call, hCall, hName, hMeans⟩
      exact ⟨⟨m, hm, call, hCall, hName⟩, hMeans.known⟩

end Builtins

/-- An output for a bundle has a plan behind its other files. -/
def HasPlan (config : Config) (bundle : Bundle) (output : Bytes) (plan : Plan) : Prop :=
  archive (writeFront config bundle >>= fun _ =>
    writeEntry planName (Text.utf8 plan.toJson.pretty)) = .ok output

theorem HasPlan.unique {config : Config} {bundle : Bundle} {output : Bytes} {plan other : Plan}
    (h : HasPlan config bundle output plan) (hOther : HasPlan config bundle output other) :
    plan = other := by
  have hLast (plan : Plan) : (Text.utf8 plan.toJson.pretty).getLast? ≠ some 0 := by
    rw [getLast?_utf8_pretty]
    decide
  exact Plan.pretty_injective (Text.utf8_injective
    (archive_entry_injective (hLast plan) (hLast other) writable_planName h hOther))

/-- The plan of an output tells the entrypoints that are resolved and the builtin functions that are
meant, as the modules that are kept have them. -/
def TellsPlan (around : Surroundings) (config : Config) (output : Bytes) : Prop :=
  ∃ bundle entrypoints plan, (loadSource around config).outcome.value = .ok bundle ∧
    (resolveEntrypoints config (sourcesOf config bundle)).outcome.value = .ok entrypoints ∧
    let modules := kept config entrypoints (sourcesOf config bundle)
    HasPlan config { bundle with modules } output plan ∧
      List.Forall₂ (DescribesEntry modules) entrypoints plan.entrypoints ∧
      DescribesBuiltins config.capabilities.capabilities (sourcesOf config bundle) modules
        plan.builtins

section Outputs

variable {around : Surroundings} {config : Config} {output : Bytes}

/-- A plan is built of the modules that are kept. -/
theorem exists_plan_of_output (hTarget : Target.ofName? config.target = some .plan)
    (hOutput : (compile around config).outcome.value = .ok output) :
    ∃ bundle entrypoints, (loadSource around config).outcome.value = .ok bundle ∧
      (resolveEntrypoints config (sourcesOf config bundle)).outcome.value = .ok entrypoints ∧
      let modules := kept config entrypoints (sourcesOf config bundle)
      HasPlan config { bundle with modules } output
        (Plan.ofModules config.capabilities.capabilities modules entrypoints) := by
  obtain ⟨target, bundle, hFound, hLoad, hCompiled⟩ := compile_eq_ok_iff.mp hOutput
  obtain rfl := Option.some.inj (hTarget.symm.trans hFound)
  obtain ⟨-, entrypoints, hResolve, -, hArchive⟩ := compiled_eq_ok_iff.mp hCompiled
  rw [writeOutput_eq, writePlan, if_pos rfl] at hArchive
  exact ⟨bundle, entrypoints, hLoad, hResolve, hArchive⟩

theorem describesEntry_ofModules (capabilities : Capabilities) (modules : List Module)
    (entrypoints : List String) : List.Forall₂ (DescribesEntry modules) entrypoints
      (Plan.ofModules capabilities modules entrypoints).entrypoints :=
  List.forall₂_map_right_iff.mpr (List.forall₂_same.mpr fun e _ => describesEntry_entryOf _ e)

/-- It tells the builtin functions that are meant if it does so in the one plan that it has. -/
theorem tellsPlan_iff_of_hasPlan {bundle : Bundle} {entrypoints : List String}
    (hLoad : (loadSource around config).outcome.value = .ok bundle)
    (hResolve : (resolveEntrypoints config (sourcesOf config bundle)).outcome.value =
      .ok entrypoints)
    (hPlan : HasPlan config
      { bundle with modules := kept config entrypoints (sourcesOf config bundle) } output
      (Plan.ofModules config.capabilities.capabilities
        (kept config entrypoints (sourcesOf config bundle)) entrypoints)) :
    TellsPlan around config output ↔
      ∀ m ∈ kept config entrypoints (sourcesOf config bundle), ∀ call ∈ m.calls,
        config.capabilities.capabilities.hasBuiltin call.name = true →
          ∃ n ∈ kept config entrypoints (sourcesOf config bundle), ∃ other ∈ n.calls,
            other.name = call.name ∧ MeansBuiltin config.capabilities.capabilities
              (sourcesOf config bundle) n call.name := by
  rw [← describesBuiltins_iff entrypoints]
  constructor
  · rintro ⟨found, names, plan, hFoundLoad, hFoundResolve, hFoundPlan, -, hBuiltins⟩
    obtain rfl := Except.ok.inj (hLoad.symm.trans hFoundLoad)
    obtain rfl := Except.ok.inj (hResolve.symm.trans hFoundResolve)
    rwa [hPlan.unique hFoundPlan]
  · intro hBuiltins
    exact ⟨bundle, entrypoints, _, hLoad, hResolve, hPlan, describesEntry_ofModules _ _ _, hBuiltins⟩

/-- Every plan that is built tells the entrypoints as it should. It tells the builtin functions as it
should exactly if no builtin function is named by calls of kept modules all of which mean another
function. -/
theorem tellsPlan_iff (hTarget : Target.ofName? config.target = some .plan)
    (hOutput : (compile around config).outcome.value = .ok output) :
    ∃ bundle entrypoints plan, (loadSource around config).outcome.value = .ok bundle ∧
      (resolveEntrypoints config (sourcesOf config bundle)).outcome.value = .ok entrypoints ∧
      let modules := kept config entrypoints (sourcesOf config bundle)
      let capabilities := config.capabilities.capabilities
      HasPlan config { bundle with modules } output plan ∧
        List.Forall₂ (DescribesEntry modules) entrypoints plan.entrypoints ∧
        (TellsPlan around config output ↔ ∀ m ∈ modules, ∀ call ∈ m.calls,
          capabilities.hasBuiltin call.name = true → ∃ n ∈ modules, ∃ other ∈ n.calls,
            other.name = call.name ∧
              MeansBuiltin capabilities (sourcesOf config bundle) n call.name) := by
  obtain ⟨bundle, entrypoints, hLoad, hResolve, hPlan⟩ := exists_plan_of_output hTarget hOutput
  exact ⟨bundle, entrypoints, _, hLoad, hResolve, hPlan, describesEntry_ofModules _ _ _,
    tellsPlan_iff_of_hasPlan hLoad hResolve hPlan⟩

end Outputs

/-- A module with some rules that calls `count` on its last line. -/
def callingCount (rules : List Rule) (source : String) : Module where
  path := "p.rego"
  package := "p"
  imports := []
  rules := rules
  calls := [⟨"count", rules.length + 1⟩]
  dataRefs := []
  packageEntrypoint := false
  dialect := .v1
  source := source

/-- The call means the builtin function. -/
def countingBuiltin : Module :=
  callingCount [⟨"allow", false, false, 2⟩] "package p\nallow if count(input.x) > 0\n"

/-- The package has a function of that name, and the call means this one. -/
def countingOwn : Module :=
  callingCount [⟨"count", true, false, 2⟩, ⟨"allow", false, false, 3⟩]
    "package p\ncount(x) := 1\nallow if count(input.x) > 0\n"

/-- What a compiler is told that plans the package of a module, where `count` is a builtin function. -/
def planningCount (m : Module) : Config :=
  configOf { Parameters.default with target := "plan", entrypoints := ["p"] }
    (.bundle ⟨.empty, [m], Json.emptyObject⟩)
    (.own { Capabilities.empty with
      builtins := [⟨"count", []⟩], features := [Capabilities.featureV1] })
    ⟨false, []⟩

/-- The plan is built if the module passes the check and the package is found. -/
theorem exists_output_planningCount {m : Module} (hPath : m.path = "p.rego")
    (hCheck : check (planningCount m).capabilities.capabilities [m] = [])
    (hResolve : (resolveEntrypoints (planningCount m) [m]).outcome.value = .ok ["p"]) :
    ∃ output, (compile ⟨.empty, .default⟩ (planningCount m)).outcome.value = .ok output := by
  have hPaths : ∀ n ∈ [m], EntryPath.Writable n.path := by
    rw [List.forall_mem_singleton, hPath]
    exact writable_allowing
  obtain ⟨pack, hPack, -⟩ := compiled_of_writable (planningCount m) .plan
    ⟨.empty, [m], Json.emptyObject⟩ ["p"] hCheck hResolve rfl hPaths
  exact ⟨pack.finish, compile_eq_ok_iff.mpr ⟨.plan, _, rfl, rfl, hPack⟩⟩

/-- A call of `count` that means the builtin function is told by the plan. -/
theorem tellsPlan_countingBuiltin :
    Target.ofName? (planningCount countingBuiltin).target = some .plan ∧
      ∃ output, (compile ⟨.empty, .default⟩ (planningCount countingBuiltin)).outcome.value =
          .ok output ∧
        TellsPlan ⟨.empty, .default⟩ (planningCount countingBuiltin) output := by
  have hResolve : (resolveEntrypoints (planningCount countingBuiltin)
      [countingBuiltin]).outcome.value = .ok ["p"] := by decide +kernel
  have hCheck : check (planningCount countingBuiltin).capabilities.capabilities
      [countingBuiltin] = [] := by decide +kernel
  obtain ⟨output, hOutput⟩ := exists_output_planningCount rfl hCheck hResolve
  obtain ⟨bundle, entrypoints, plan, hLoad, hFound, -, -, hTells⟩ := tellsPlan_iff rfl hOutput
  have hBundle : (loadSource ⟨.empty, .default⟩ (planningCount countingBuiltin)).outcome.value =
      .ok ⟨.empty, [countingBuiltin], Json.emptyObject⟩ := rfl
  obtain rfl := Except.ok.inj (hBundle.symm.trans hLoad)
  obtain rfl := Except.ok.inj (hResolve.symm.trans hFound)
  refine ⟨rfl, output, hOutput, hTells.mpr ?_⟩
  show ∀ m ∈ [countingBuiltin], _
  decide +kernel

/-- A function `count` of the package is called, and the plan tells that a builtin function is. -/
theorem not_tellsPlan_countingOwn :
    Module.parse "p.rego" countingOwn.source .v1 = .ok countingOwn ∧
      Target.ofName? (planningCount countingOwn).target = some .plan ∧
      ∃ output, (compile ⟨.empty, .default⟩ (planningCount countingOwn)).outcome.value =
          .ok output ∧
        ¬TellsPlan ⟨.empty, .default⟩ (planningCount countingOwn) output := by
  have hResolve : (resolveEntrypoints (planningCount countingOwn)
      [countingOwn]).outcome.value = .ok ["p"] := by decide +kernel
  have hCheck : check (planningCount countingOwn).capabilities.capabilities
      [countingOwn] = [] := by decide +kernel
  obtain ⟨output, hOutput⟩ := exists_output_planningCount rfl hCheck hResolve
  obtain ⟨bundle, entrypoints, hLoad, hFound, hPlan⟩ := exists_plan_of_output rfl hOutput
  have hBundle : (loadSource ⟨.empty, .default⟩ (planningCount countingOwn)).outcome.value =
      .ok ⟨.empty, [countingOwn], Json.emptyObject⟩ := rfl
  obtain rfl := Except.ok.inj (hBundle.symm.trans hLoad)
  obtain rfl := Except.ok.inj (hResolve.symm.trans hFound)
  refine ⟨by decide +kernel, rfl, output, hOutput, fun hTells => ?_⟩
  have hMeant := (tellsPlan_iff_of_hasPlan hLoad hFound hPlan).mp hTells
  revert hMeant
  show ¬∀ m ∈ [countingOwn], _
  decide +kernel

end PolicyBundle.Build
