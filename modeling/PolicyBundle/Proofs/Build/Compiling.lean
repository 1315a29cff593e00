import PolicyBundle.Build.Run
import PolicyBundle.Proofs.Log.Attempts

/-! What becomes of a compilation, whatever it tells on the way: the bundle that it loads decides it,
together with what the compiler is told besides the source. -/

namespace PolicyBundle.Build

open Log Policy

/-- The entrypoints that some modules declare, as far as declarations count. -/
def declaredPaths (config : Config) (modules : List Module) : List String :=
  if config.annotations then (modules.flatMap declaredEntrypoints).map (·.2) else []

theorem value_addDeclared (debug : Bool) (declared : List (Declaration × String))
    (paths : List String) :
    (declared.foldlM (addDeclared debug) paths : Traced _).value =
      (declared.map (·.2)).foldl addOnce paths := by
  induction declared generalizing paths with
  | nil => rfl
  | cons first declared ih =>
      have hFirst : (addDeclared debug paths first).value = addOnce paths first.2 := by
        rw [addDeclared]
        split <;> rfl
      rw [List.foldlM_cons, Traced.value_bind, hFirst, ih, List.map_cons, List.foldl_cons]

/-- The entrypoints of a build: those that are asked for, and behind them the declared ones. -/
theorem value_resolveEntrypoints (config : Config) (modules : List Module) :
    (resolveEntrypoints config modules).outcome.value =
      (requestedEntrypoints modules config.entrypoints).map fun requested =>
        (declaredPaths config modules).foldl addOnce requested := by
  simp only [resolveEntrypoints, Attempt.value_bind, Attempt.value_quiet, Attempt.value_lift,
    value_addDeclared]
  cases requestedEntrypoints modules config.entrypoints with
  | error e => rfl
  | ok requested =>
      simp only [Except.bind, Except.map, declaredPaths]
      split <;> rfl

/-- The modules that are written. -/
def kept (config : Config) (entrypoints : List String) (modules : List Module) : List Module :=
  if config.prune && !entrypoints.isEmpty then prune modules entrypoints else modules

theorem value_keptModules (config : Config) (entrypoints : List String) (modules : List Module) :
    (keptModules config entrypoints modules).value = kept config entrypoints modules := by
  rw [keptModules, kept]
  split <;> rfl

/-- The modules of a bundle as they are compiled. -/
def sourcesOf (config : Config) (bundle : Bundle) : List Module :=
  if config.keepPrints then bundle.modules else bundle.modules.map (·.withoutPrints)

/-- What is wrong with the lack of entrypoints, where there are none. -/
def fault? (config : Config) (target : Target) (entrypoints : List String) : Option ConfigFault :=
  if entrypoints.isEmpty then entrypointFault? config target else none

/-- The output for a bundle that is loaded. -/
def compiled (config : Config) (target : Target) (bundle : Bundle) : Except CompileError Bytes :=
  let modules := sourcesOf config bundle
  let diagnostics := check config.capabilities.capabilities modules
  if diagnostics.isEmpty then
    (resolveEntrypoints config modules).outcome.value.bind fun entrypoints =>
      match fault? config target entrypoints with
      | some fault => .error (.invalidConfig fault)
      | none =>
        (Bundle.archive (writeOutput config target entrypoints
          { bundle with modules := kept config entrypoints modules })).mapError .output
  else .error (.diagnostics diagnostics)

/-- A compilation finds its target, loads its bundle and compiles it. -/
theorem value_compile (around : Surroundings) (config : Config) :
    (compile around config).outcome.value =
      match Target.ofName? config.target with
      | none => .error (.unsupportedTarget config.target)
      | some target =>
        (loadSource around config).outcome.value.bind (compiled config target) := by
  simp only [compile]
  cases Target.ofName? config.target with
  | none => rfl
  | some target =>
      simp only [Attempt.value_bind, Attempt.value_pure, Attempt.value_lift, Except.bind]
      cases (loadSource around config).outcome.value with
      | error e => rfl
      | ok bundle =>
          have hSources : (if config.keepPrints = true then bundle.modules
              else bundle.modules.map (·.withoutPrints)) = sourcesOf config bundle := rfl
          simp only [compiled, hSources]
          by_cases hDiagnostics :
              (check config.capabilities.capabilities (sourcesOf config bundle)).isEmpty = true
          · simp only [hDiagnostics, Bool.not_true, Bool.false_eq_true, if_false, if_true,
              Attempt.value_bind]
            cases (resolveEntrypoints config (sourcesOf config bundle)).outcome.value with
            | error e => rfl
            | ok entrypoints =>
                cases hNone : entrypoints.isEmpty with
                | false =>
                    simp only [hNone, fault?, Bool.false_eq_true, if_false, Except.bind,
                      Attempt.value_bind, Attempt.value_lift, Attempt.value_quiet,
                      value_keptModules]
                    generalize Except.mapError CompileError.output _ = written
                    cases written <;> rfl
                | true =>
                    cases hFault : entrypointFault? config target with
                    | some fault =>
                        simp only [hNone, fault?, hFault, if_true, Except.bind,
                          Attempt.value_bind, Attempt.value_lift, Attempt.value_throw]
                    | none =>
                        simp only [hNone, fault?, hFault, if_true, Except.bind,
                          Attempt.value_bind, Attempt.value_lift, Attempt.value_quiet,
                          value_keptModules]
                        generalize Except.mapError CompileError.output _ = written
                        cases written <;> rfl
          · simp only [hDiagnostics, Bool.not_false, if_true]
            rfl

/-- What a compilation that succeeds has done. -/
theorem compiled_eq_ok_iff {config : Config} {target : Target} {bundle : Bundle} {output : Bytes} :
    compiled config target bundle = .ok output ↔
      check config.capabilities.capabilities (sourcesOf config bundle) = [] ∧
        ∃ entrypoints,
          (resolveEntrypoints config (sourcesOf config bundle)).outcome.value = .ok entrypoints ∧
            fault? config target entrypoints = none ∧
              Bundle.archive (writeOutput config target entrypoints { bundle with
                modules := kept config entrypoints (sourcesOf config bundle) }) = .ok output := by
  simp only [compiled]
  split
  · rename_i hDiagnostics
    rw [List.isEmpty_iff] at hDiagnostics
    simp only [hDiagnostics, true_and]
    cases (resolveEntrypoints config (sourcesOf config bundle)).outcome.value with
    | error e => simp [Except.bind]
    | ok entrypoints =>
        simp only [Except.bind, Except.ok.injEq, exists_eq_left']
        cases fault? config target entrypoints with
        | some fault => simp
        | none =>
            generalize Bundle.archive _ = written
            cases written <;> simp
  · rename_i hDiagnostics
    rw [List.isEmpty_iff] at hDiagnostics
    simp [hDiagnostics]

/-- A compilation succeeds with what it makes of the bundle that it loads. -/
theorem compile_eq_ok_iff {around : Surroundings} {config : Config} {output : Bytes} :
    (compile around config).outcome.value = .ok output ↔
      ∃ target bundle, Target.ofName? config.target = some target ∧
        (loadSource around config).outcome.value = .ok bundle ∧
          compiled config target bundle = .ok output := by
  rw [value_compile]
  cases Target.ofName? config.target with
  | none => simp
  | some target => simp [bind_eq_ok_iff]

end PolicyBundle.Build
