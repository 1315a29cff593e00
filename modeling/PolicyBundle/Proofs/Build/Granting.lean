import PolicyBundle.Proofs.Build.BuiltBundles

/-! What more capabilities do to a build. The check reports a use of a module by what the use is and by
whether the capabilities have what it takes. So it reports what it would report without capabilities,
less what is not lacked, and a bundle of sources is not made of them. -/

namespace PolicyBundle.Build

open Log Policy

/-- Whether some capabilities lack what a problem is about. -/
def Problem.isLacked (capabilities : Capabilities) : Problem → Bool
  | .parse _ => true
  | .dialectUnsupported => !capabilities.hasFeature Capabilities.featureV1
  | .importUnsupported => !capabilities.hasFeature Capabilities.featureV1Import
  | .keywordUnsupported keyword => !capabilities.hasFutureKeyword keyword
  | .undefinedFunction name => !capabilities.hasBuiltin name
  | .types _ => true

/-- Merged capabilities lack what both of them lack. -/
theorem Problem.isLacked_merge (a b : Capabilities) (problem : Problem) :
    problem.isLacked (a.merge b) = (problem.isLacked a && problem.isLacked b) := by
  cases problem with
  | parse fault => rfl
  | types text => rfl
  | dialectUnsupported => simp [isLacked]
  | importUnsupported => simp [isLacked]
  | keywordUnsupported keyword => simp [isLacked]
  | undefinedFunction name => simp [isLacked]

/-- A call is covered without the capabilities, or they have its function. -/
theorem isCovered_eq (capabilities : Capabilities) (modules : List Module) (m : Module)
    (call : Call) : isCovered capabilities modules m call =
      (isCovered .empty modules m call || capabilities.hasBuiltin call.name) := by
  have hNone : Capabilities.empty.hasBuiltin call.name = false := rfl
  rw [isCovered, isCovered, hNone, Bool.or_false]

/-- What is reported of a module is what is reported without capabilities, as far as they are
lacked. -/
theorem checkModule_eq_filter (capabilities : Capabilities) (modules : List Module) (m : Module) :
    checkModule capabilities modules m =
      (checkModule .empty modules m).filter (·.problem.isLacked capabilities) := by
  have hFeature (feature : String) : Capabilities.empty.hasFeature feature = false := rfl
  have hKeyword (keyword : String) : Capabilities.empty.hasFutureKeyword keyword = false := rfl
  simp only [checkModule, List.filter_append, hFeature, hKeyword,
    isCovered_eq capabilities modules m]
  -- The dialect, the imports of its syntax, the keywords and the calls are reported one by one.
  congr 3
  · by_cases hDialect : m.dialect.effective = .v1
    · cases hHas : capabilities.hasFeature Capabilities.featureV1 <;>
        simp [hDialect, Problem.isLacked, hHas]
    · simp [hDialect]
  · cases hHas : capabilities.hasFeature Capabilities.featureV1Import <;>
      simp [List.filter_map, Function.comp_def, Problem.isLacked, hHas]
  · simp [List.filter_map, Function.comp_def, Problem.isLacked]
  · simp [List.filter_map, Function.comp_def, Problem.isLacked, List.filter_filter, Bool.and_comm]

theorem check_eq_filter (capabilities : Capabilities) (modules : List Module) :
    check capabilities modules =
      (check .empty modules).filter (·.problem.isLacked capabilities) := by
  rw [check, check, List.filter_flatMap]
  exact congrArg (modules.flatMap ·) (funext (checkModule_eq_filter capabilities modules))

/-- Merged capabilities leave what both of them leave, in the same order. -/
theorem check_merge (a b : Capabilities) (modules : List Module) :
    check (a.merge b) modules = (check a modules).filter (· ∈ check b modules) := by
  rw [check_eq_filter (a.merge b), check_eq_filter a, check_eq_filter b, List.filter_filter]
  apply List.filter_congr
  intro d hd
  have hOther : decide (d ∈ (check .empty modules).filter (·.problem.isLacked b)) =
      d.problem.isLacked b := by
    simp [hd]
  rw [hOther, Problem.isLacked_merge, Bool.and_comm]

/-- The output of a bundle of sources does not depend on the capabilities, once the check lets them
pass. -/
theorem compiled_granted {config : Config} {bundle : Bundle} {output : Bytes}
    {capabilities : Capability.Resolved} (hCompiled : compiled config .rego bundle = .ok output)
    (hCheck : check capabilities.capabilities (sourcesOf config bundle) = []) :
    compiled { config with capabilities := capabilities } .rego bundle = .ok output := by
  obtain ⟨-, entrypoints, hResolve, hFault, hArchive⟩ := compiled_eq_ok_iff.mp hCompiled
  have hSame : (resolveEntrypoints { config with capabilities := capabilities }
      (sourcesOf config bundle)).outcome.value = .ok entrypoints := by
    rw [value_resolveEntrypoints] at hResolve ⊢
    exact hResolve
  have hWritten (bundle : Bundle) : writeOutput { config with capabilities := capabilities } .rego
      entrypoints bundle = writeOutput config .rego entrypoints bundle := by
    simp only [writeOutput, reduceCtorEq, if_false]
    rfl
  refine compiled_eq_ok_iff.mpr ⟨hCheck, entrypoints, hSame, hFault, ?_⟩
  rw [hWritten]
  exact hArchive

theorem compile_granted {around : Surroundings} {config : Config} {output : Bytes}
    {capabilities : Capability.Resolved} (hTarget : Target.ofName? config.target = some .rego)
    (hOutput : (compile around config).outcome.value = .ok output)
    (hCheck : ∀ modules, check config.capabilities.capabilities modules = [] →
      check capabilities.capabilities modules = []) :
    (compile around { config with capabilities := capabilities }).outcome.value = .ok output := by
  obtain ⟨target, bundle, hFound, hLoad, hCompiled⟩ := compile_eq_ok_iff.mp hOutput
  obtain rfl : .rego = target := Option.some.inj (hTarget.symm.trans hFound)
  have hPasses := hCheck _ (compiled_eq_ok_iff.mp hCompiled).1
  exact compile_eq_ok_iff.mpr ⟨.rego, bundle, hTarget, hLoad, compiled_granted hCompiled hPasses⟩

/-- More capabilities never break a build. Merged with others, in either order, they leave nothing to
report that they did not leave before, and a bundle of sources stays the same to the byte. -/
theorem compile_merge (a b : Capabilities) :
    (∀ modules, check (a.merge b) modules = (check a modules).filter (· ∈ check b modules)) ∧
      ∀ (around : Surroundings) (config : Config) (output : Bytes),
        config.capabilities.capabilities = a → Target.ofName? config.target = some .rego →
          (compile around config).outcome.value = .ok output →
            (compile around { config with capabilities := .own (a.merge b) }).outcome.value =
              .ok output ∧
            (compile around { config with capabilities := .own (b.merge a) }).outcome.value =
              .ok output := by
  refine ⟨check_merge a b, ?_⟩
  intro around config output hOwn hTarget hOutput
  constructor
  · apply compile_granted hTarget hOutput
    intro modules hCheck
    rw [hOwn] at hCheck
    rw [Capability.Resolved.capabilities, check_merge, hCheck, List.filter_nil]
  · apply compile_granted hTarget hOutput
    intro modules hCheck
    rw [hOwn] at hCheck
    simp [Capability.Resolved.capabilities, check_merge, hCheck]

/-- What a compiler is told that builds the module of one rule. -/
def allowingConfig : Config :=
  configOf askingAllow (.bundle ⟨.empty, [allowing], Json.emptyObject⟩) justV1 ⟨false, []⟩

theorem exists_compile_allowing (around : Surroundings) :
    ∃ output, (compile around allowingConfig).outcome.value = .ok output := by
  have hCheck : check allowingConfig.capabilities.capabilities [allowing] = [] := by decide +kernel
  have hResolve : (resolveEntrypoints allowingConfig [allowing]).outcome.value = .ok ["p.allow"] := by
    decide +kernel
  have hPaths : ∀ m ∈ [allowing], EntryPath.Writable m.path := by
    rw [List.forall_mem_singleton]
    exact writable_allowing
  obtain ⟨pack, hPack, -⟩ := compiled_of_writable allowingConfig .rego
    ⟨.empty, [allowing], Json.emptyObject⟩ ["p.allow"] hCheck hResolve rfl hPaths
  exact ⟨pack.finish, compile_eq_ok_iff.mpr ⟨.rego, _, rfl, rfl, hPack⟩⟩

/-- The module builds in the same way where a function may be called that it does not call. -/
theorem compile_merge_allowing :
    let around : Surroundings := ⟨.empty, .default⟩
    let a := justV1.capabilities
    let b : Capabilities := { Capabilities.empty with builtins := [⟨"count", []⟩] }
    Target.ofName? allowingConfig.target = some .rego ∧ allowingConfig.capabilities.capabilities = a ∧
      ∃ output, (compile around allowingConfig).outcome.value = .ok output ∧
        (compile around { allowingConfig with capabilities := .own (a.merge b) }).outcome.value =
          .ok output ∧
        (compile around { allowingConfig with capabilities := .own (b.merge a) }).outcome.value =
          .ok output := by
  intro around a b
  obtain ⟨output, hOutput⟩ := exists_compile_allowing around
  exact ⟨rfl, rfl, output, hOutput,
    (compile_merge a b).2 around allowingConfig output rfl rfl hOutput⟩

end PolicyBundle.Build
