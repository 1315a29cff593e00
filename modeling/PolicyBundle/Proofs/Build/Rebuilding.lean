import PolicyBundle.Proofs.Build.DirectoryBuild
import PolicyBundle.Proofs.Build.Reordering
import PolicyBundle.Proofs.Bundle.PlainNames

/-! An output that is built again stays as it is. Its modules are those that were kept, so none is
dropped; they are in the order of their paths already; and the manifest declares the dialect and the
revision that it would be given. -/

namespace PolicyBundle.Build

open PolicyBundle.Bundle Log Policy

section Kept

variable {config : Config} {modules : List Module} {entrypoints : List String}

/-- Of the modules that are kept, all are kept. -/
theorem kept_kept :
    kept config entrypoints (kept config entrypoints modules) = kept config entrypoints modules := by
  unfold kept
  split
  · exact prune_prune
  · rfl

theorem length_kept_le : (kept config entrypoints modules).length ≤ modules.length := by
  unfold kept
  split
  · exact List.length_filter_le _ _
  · exact Nat.le_refl _

theorem check_kept {capabilities : Capabilities} (h : check capabilities modules = []) :
    check capabilities (kept config entrypoints modules) = [] := by
  unfold kept
  split
  · rw [check_prune, List.flatMap_eq_nil_iff]
    exact fun m hm => List.flatMap_eq_nil_iff.mp h m (mem_prune_iff.mp hm).1
  · exact h

theorem resolveEntrypoints_kept
    (h : (resolveEntrypoints config modules).outcome.value = .ok entrypoints) :
    (resolveEntrypoints config (kept config entrypoints modules)).outcome.value =
      .ok entrypoints := by
  unfold kept
  split
  · exact resolveEntrypoints_prune h
  · exact h

theorem isEmpty_congr {more : List String} (h : ∀ path, path ∈ more ↔ path ∈ entrypoints) :
    more.isEmpty = entrypoints.isEmpty := by
  rw [Bool.eq_iff_iff, List.isEmpty_iff, List.isEmpty_iff, List.eq_nil_iff_forall_not_mem,
    List.eq_nil_iff_forall_not_mem]
  exact forall_congr' fun path => not_congr (h path)

/-- Where all modules are kept, they are kept in another order and other files, by entrypoints in
another order. -/
theorem kept_of_occur {others : List Module} {more : List String} (h : Occur modules others)
    (hBack : Occur others modules) (hSame : ∀ path, path ∈ more ↔ path ∈ entrypoints)
    (hKept : kept config entrypoints modules = modules) : kept config more others = others := by
  unfold kept at hKept ⊢
  rw [isEmpty_congr hSame]
  split
  · rename_i hPrunes
    rw [if_pos hPrunes] at hKept
    exact prune_of_occur h hBack (fun path hPath => (hSame path).mpr hPath) hKept
  · rfl

end Kept

section Again

variable {config : Config} {bundle : Bundle} {dialect : Dialect}

theorem mem_byPath {modules : List Module} {m : Module} : m ∈ byPath modules ↔ m ∈ modules :=
  List.mem_mergeSort

theorem modules_reread : (reread (writtenBundle config bundle) dialect).modules =
    (byPath bundle.modules).map fun m => m.moved (EntryPath.normalize m.path) dialect := rfl

theorem moved_back (m : Module) (path : String) (dialect : Dialect) :
    (m.moved path dialect).moved m.path m.dialect = m := rfl

/-- The modules of an output are those that were written, when it is read. -/
theorem occur_reread (hDialects : ∀ m ∈ bundle.modules, m.dialect.effective = dialect.effective) :
    Occur bundle.modules (reread (writtenBundle config bundle) dialect).modules ∧
      Occur (reread (writtenBundle config bundle) dialect).modules bundle.modules := by
  rw [modules_reread]
  constructor
  · intro m hm
    exact ⟨m.moved (EntryPath.normalize m.path) dialect,
      List.mem_map.mpr ⟨m, mem_byPath.mpr hm, rfl⟩, _, _, (hDialects m hm).symm, rfl⟩
  · intro n hn
    obtain ⟨m, hm, rfl⟩ := List.mem_map.mp hn
    have hm := mem_byPath.mp hm
    exact ⟨m, hm, m.path, m.dialect, hDialects m hm, (moved_back m _ dialect).symm⟩

theorem pairwise_byPath (modules : List Module) :
    (byPath modules).Pairwise fun m n => m.path ≤ n.path := by
  have hSorted := @List.pairwise_mergeSort Module (fun m n => decide (m.path ≤ n.path))
    (fun a b c hab hbc => by
      rw [decide_eq_true_eq] at hab hbc ⊢
      exact String.le_trans hab hbc)
    (fun a b => by
      rw [Bool.or_eq_true, decide_eq_true_eq, decide_eq_true_eq]
      exact String.le_total a.path b.path)
    modules
  exact hSorted.imp fun hLe => of_decide_eq_true hLe

/-- Modules that were written in the order of their paths stay in it. -/
theorem byPath_reread (hPaths : ∀ m ∈ bundle.modules, EntryPath.normalize m.path = m.path) :
    byPath (reread (writtenBundle config bundle) dialect).modules =
      (reread (writtenBundle config bundle) dialect).modules := by
  rw [modules_reread]
  refine List.mergeSort_of_pairwise (List.pairwise_map.mpr ?_)
  refine (pairwise_byPath bundle.modules).imp_of_mem fun {m n} hm hn hLe => decide_eq_true ?_
  show EntryPath.normalize m.path ≤ EntryPath.normalize n.path
  rwa [hPaths m (mem_byPath.mp hm), hPaths n (mem_byPath.mp hn)]

/-- A manifest that was given a dialect and a revision is given the same ones. -/
theorem outputManifest_outputManifest (manifest : Manifest) :
    outputManifest config (outputManifest config manifest) = outputManifest config manifest := by
  have hRevision : config.revision.getD (outputManifest config manifest).revision =
      (outputManifest config manifest).revision := by
    simp only [outputManifest]
    cases config.revision <;> rfl
  rw [outputManifest, dialect?_outputManifest, hRevision, Option.getD_some,
    Dialect.manifestValue_recorded]
  rfl

theorem writeModule_moved (m : Module) (dialect : Dialect) :
    writeModule (m.moved m.path dialect) = writeModule m := rfl

theorem forM_congr_left {α β : Type} {items : List α} {rename : α → β} {write : β → Writing Unit}
    {other : α → Writing Unit} (h : ∀ item ∈ items, write (rename item) = other item) :
    (items.map rename).forM write = items.forM other := by
  induction items with
  | nil => rfl
  | cons item items ih =>
      obtain ⟨hFirst, hRest⟩ := List.forall_mem_cons.mp h
      show (write (rename item) >>= fun _ => (items.map rename).forM write) =
        other item >>= fun _ => items.forM other
      rw [hFirst, ih hRest]

/-- What is read of an output is written as it was. -/
theorem writeOutput_reread (hPaths : ∀ m ∈ bundle.modules, EntryPath.normalize m.path = m.path)
    (entrypoints more : List String) :
    writeOutput config .rego more (reread (writtenBundle config bundle) dialect) =
      writeOutput config .rego entrypoints bundle := by
  have hManifest : outputManifest config (reread (writtenBundle config bundle) dialect).manifest =
      outputManifest config bundle.manifest :=
    outputManifest_outputManifest bundle.manifest
  have hModules : (reread (writtenBundle config bundle) dialect).modules.forM writeModule =
      (byPath bundle.modules).forM writeModule := by
    rw [modules_reread]
    refine forM_congr_left fun m hm => ?_
    rw [hPaths m (mem_byPath.mp hm), writeModule_moved]
  have hData : (reread (writtenBundle config bundle) dialect).data = bundle.data := rfl
  rw [writeOutput, writeOutput, hManifest, byPath_reread hPaths, hModules, hData]
  simp only [reduceCtorEq, if_false]

/-- A compilation of what is read of an output gives the output, where it is one of a bundle of which
all modules are kept. -/
theorem compiled_reread {entrypoints : List String} {output : Bytes}
    (hKeep : config.keepPrints = true)
    (hDialects : ∀ m ∈ bundle.modules, m.dialect.effective = dialect.effective)
    (hPaths : ∀ m ∈ bundle.modules, EntryPath.normalize m.path = m.path)
    (hCheck : check config.capabilities.capabilities bundle.modules = [])
    (hResolve : (resolveEntrypoints config bundle.modules).outcome.value = .ok entrypoints)
    (hFault : fault? config .rego entrypoints = none)
    (hKept : kept config entrypoints bundle.modules = bundle.modules)
    (hOutput : archive (writeOutput config .rego entrypoints bundle) = .ok output) :
    compiled config .rego (reread (writtenBundle config bundle) dialect) = .ok output := by
  obtain ⟨h, hBack⟩ := @occur_reread config bundle dialect hDialects
  obtain ⟨more, hMore, hSame⟩ := resolveEntrypoints_of_occur h hBack hResolve
  have hSources : sourcesOf config (reread (writtenBundle config bundle) dialect) =
      (reread (writtenBundle config bundle) dialect).modules := by
    rw [sourcesOf, if_pos hKeep]
  refine compiled_eq_ok_iff.mpr ?_
  rw [hSources]
  refine ⟨check_of_occur h hBack hCheck, more, hMore, ?_, ?_⟩
  · rw [fault?, isEmpty_congr hSame]
    exact hFault
  · rw [kept_of_occur h hBack hSame hKept, writeOutput_reread hPaths entrypoints more]
    exact hOutput

end Again

/-- A compilation that has a bundle does not ask where it has it from. -/
theorem compiled_configOf (parameters : Parameters) (source other : SourceMode)
    (capabilities : Capability.Resolved) (filter : Source.PathFilter) (target : Target)
    (bundle : Bundle) : compiled (configOf parameters source capabilities filter) target bundle =
      compiled (configOf parameters other capabilities filter) target bundle := rfl

theorem dialect?_ne_v0CompatV1 (manifest : Manifest) {dialect : Dialect}
    (h : dialect ≠ .v0CompatV1) : manifest.dialect?.getD dialect ≠ .v0CompatV1 := by
  rw [Manifest.dialect?]
  cases manifest.dialectValue with
  | none => exact h
  | some n =>
      rw [Option.bind_some]
      rcases n with _ | _ | n
      · exact (by decide : Dialect.v0 ≠ .v0CompatV1)
      · exact (by decide : Dialect.v1 ≠ .v0CompatV1)
      · exact h

/-- What libraries and limits must keep of an output for it to be built again: numbers of double
precision read back, data is not nested too deeply to be parsed, and neither the bytes nor the entries
are too many. -/
structure Rebuildable (settings : Settings) (bundle : Bundle) (output : Bytes) : Prop where
  numbers : ∀ x ∈ bundle.manifest.floats ++ bundle.data.floats, x.ReadsBack
  nesting : bundle.data.depth ≤ Json.maxDepth
  bytes : (Archive.Gzip.decode output).data.length ≤ settings.maxBytes
  counted : settings.maxBytes ≤ maxSize
  entries : bundle.modules.length + 3 ≤ settings.maxEntries

/-- What is read of an output, which is what was written of the bundle. -/
theorem read_again {settings : Settings} {config : Config} {target : Target} {bytes output : Bytes}
    {bundle : Bundle} {entrypoints : List String} (hNames : PlainNames bytes)
    (hRead : (read ⟨true, config.dialect, settings.maxBytes, settings.maxEntries⟩
      bytes).outcome.value = .ok bundle)
    (hRebuildable : Rebuildable settings bundle output)
    (hOutput : archive (writeOutput config target entrypoints { bundle with
      modules := kept config entrypoints bundle.modules }) = .ok output) :
    (read ⟨true, config.dialect, settings.maxBytes, settings.maxEntries⟩ output).outcome.value =
      .ok (reread (writtenBundle config { bundle with
        modules := kept config entrypoints bundle.modules })
          (bundle.manifest.dialect?.getD config.dialect).recorded) := by
  have hPlain := normalize_path_of_read hNames hRead
  have hPortable : Portable (writtenBundle config { bundle with
      modules := kept config entrypoints bundle.modules }) :=
    ⟨hRebuildable.numbers, hRebuildable.nesting, fun m hm _ =>
      (hPlain m (mem_kept (mem_byPath.mp hm))).2⟩
  refine read_compiled (sound_writtenBundle (read_sound hRead) fun m hm => mem_kept hm) rfl hPortable
    hOutput rfl hRebuildable.bytes hRebuildable.counted ?_
  exact Nat.le_trans (Nat.add_le_add_right length_kept_le 3) hRebuildable.entries

/-- An output that is built again with the same parameters is the output once more, to the byte. -/
theorem run_output_eq {around : Surroundings} {parameters : Parameters} {bytes output : Bytes}
    {bundle : Bundle} (hNames : PlainNames bytes)
    (hTarget : parameters.target = "" ∨ parameters.target = "rego")
    (hKeep : parameters.erasePrints = false) (hDialect : parameters.dialect ≠ .v0CompatV1)
    (hBundle : bundleOf? around parameters (.bytes bytes) = some bundle)
    (hRebuildable : Rebuildable around.settings bundle output)
    (hRun : (run around (bundleCompiler around) parameters (.bytes bytes)).outcome.value =
      .ok output) :
    (run around (bundleCompiler around) parameters (.bytes output)).outcome.value = .ok output := by
  obtain ⟨same, hSame, capabilities, target, hCapabilities, hName, hCompiled⟩ :=
    run_eq_ok_iff.mp hRun
  obtain rfl := Option.some.inj (hBundle.symm.trans hSame)
  have hRego : Target.ofName? parameters.target = some .rego := by
    rcases hTarget with hTarget | hTarget <;> rw [hTarget] <;> decide
  obtain rfl := Option.some.inj (hRego.symm.trans hName)
  generalize hConfig : configOf parameters (.bundle bundle) capabilities
    (loaderOf around parameters).filter = config at hCompiled
  have hAsked : config.dialect = parameters.dialect := by
    rw [← hConfig]
    rfl
  have hKeepPrints : config.keepPrints = true := by
    rw [← hConfig, configOf, hKeep]
    rfl
  rw [bundleOf?, toOption_eq_some_iff, ← hAsked] at hBundle
  rw [← hAsked] at hDialect
  obtain ⟨hCheck, entrypoints, hResolve, hFault, hArchive⟩ := compiled_eq_ok_iff.mp hCompiled
  rw [sourcesOf, if_pos hKeepPrints] at hCheck hResolve hArchive
  have hReread := read_again hNames hBundle hRebuildable hArchive
  rw [hAsked] at hReread
  refine run_eq_ok_iff.mpr ⟨_, toOption_eq_some_iff.mpr hReread, capabilities, .rego, hCapabilities,
    hRego, ?_⟩
  rw [compiled_configOf _ _ (.bundle bundle), hConfig]
  refine compiled_reread hKeepPrints (fun m hm => ?_)
    (fun m hm => (normalize_path_of_read hNames hBundle m (mem_kept hm)).1) (check_kept hCheck)
    (resolveEntrypoints_kept hResolve) hFault kept_kept hArchive
  rw [((read_sound hBundle).modules m (mem_kept hm)).dialect_eq, ← hAsked]
  exact (Dialect.effective_recorded (dialect?_ne_v0CompatV1 bundle.manifest hDialect)).symm

/-- Parameters that ask for the rule of that module, and for no modules that it does not need. -/
def pruningAllow : Parameters :=
  { askingAllow with prune := true }

theorem prune_allowing : prune [allowing] ["p.allow"] = [allowing] := by
  have hRelated : SegmentRelated allowing.package "p.allow" := .inl (by decide)
  have hMem : allowing ∈ prune [allowing] ["p.allow"] :=
    mem_prune_of_related List.mem_cons_self List.mem_cons_self hRelated
  exact List.filter_eq_self.mpr (by simpa using (mem_prune_iff.mp hMem).2)

/-- There is an archive with plain names that is read as the module. -/
theorem exists_bytes_allowing : ∃ bytes, PlainNames bytes ∧
    bundleOf? ⟨.empty, .default⟩ pruningAllow (.bytes bytes) =
      some ⟨.empty, [allowing], Json.emptyObject⟩ := by
  have hNormal : EntryPath.normalize allowing.path = allowing.path := by decide +kernel
  have hName : isModuleName (Text.dirAndName allowing.path).2 = true := by decide +kernel
  have hModule : moduleOf true .undefined allowing.path allowing.source = .ok allowing := by
    decide +kernel
  have hRoom : Entry.room ⟨allowing.path, Text.utf8 allowing.source⟩ + 2 * Archive.blockSize <
      Nat.pow 2 64 := by decide +kernel
  obtain ⟨pack, hHolds, hSize⟩ := exists_holds_alone writable_allowing (Text.utf8 allowing.source)
  have hFits : pack.toArchive.length < Nat.pow 2 64 := by omega
  have hRead := read_holds_alone hHolds writable_allowing hNormal hName (by decide) hModule hFits
    ⟨true, .undefined, Settings.default.maxBytes, Settings.default.maxEntries⟩ rfl rfl
    (by decide +kernel) (by decide)
  refine ⟨pack.finish, hHolds.plainNames hFits ?_, toOption_eq_some_iff.mpr hRead⟩
  rw [List.forall_mem_singleton, hNormal]
  decide

/-- The module, asked for by its name, is built, and the output is small enough to be built again. -/
theorem run_allowing_pruned {request : Request}
    (hBundle : bundleOf? ⟨.empty, .default⟩ pruningAllow request =
      some ⟨.empty, [allowing], Json.emptyObject⟩) :
    ∃ output, (run ⟨.empty, .default⟩ (bundleCompiler ⟨.empty, .default⟩) pruningAllow
        request).outcome.value = .ok output ∧
      Rebuildable Settings.default ⟨.empty, [allowing], Json.emptyObject⟩ output := by
  generalize hConfig : configOf pruningAllow (.bundle ⟨.empty, [allowing], Json.emptyObject⟩) .shared
    (loaderOf ⟨.empty, .default⟩ pruningAllow).filter = config
  have hResolve : (resolveEntrypoints config [allowing]).outcome.value = .ok ["p.allow"] := by
    rw [← hConfig]
    decide +kernel
  have hKept : kept config ["p.allow"] [allowing] = [allowing] := by
    rw [← hConfig]
    exact prune_allowing
  have hRoom : roomFor config .rego ["p.allow"] ⟨.empty, [allowing], Json.emptyObject⟩ ≤ 12288 := by
    rw [← hConfig]
    decide +kernel
  have hMax : Settings.default.maxBytes = 536870912 := rfl
  obtain ⟨pack, hRun, -, hSize⟩ := run_of_writable hBundle rfl rfl rfl hConfig (by decide +kernel)
    hResolve rfl hKept (by simpa using writable_allowing)
  refine ⟨pack.finish, hRun, fun x hx => absurd (show x ∈ [] from hx) List.not_mem_nil, by decide, ?_,
    by decide, by decide⟩
  rw [Archive.Pack.finish, Archive.decode_encode, hMax]
  simp only [Archive.blockSize] at hSize ⊢
  omega

/-- A module of one rule, asked for by its name, is built again from its output. -/
theorem run_output_eq_allowing :
    ∃ bytes output, let around : Surroundings := ⟨.empty, .default⟩
      let bundle : Bundle := ⟨.empty, [allowing], Json.emptyObject⟩
      (PlainNames bytes ∧ (pruningAllow.target = "" ∨ pruningAllow.target = "rego") ∧
        pruningAllow.erasePrints = false ∧ pruningAllow.dialect ≠ .v0CompatV1 ∧
        bundleOf? around pruningAllow (.bytes bytes) = some bundle ∧
        Rebuildable around.settings bundle output ∧
        (run around (bundleCompiler around) pruningAllow (.bytes bytes)).outcome.value =
          .ok output) ∧
      (run around (bundleCompiler around) pruningAllow (.bytes output)).outcome.value =
        .ok output := by
  have hDialect : pruningAllow.dialect ≠ .v0CompatV1 := by decide
  obtain ⟨bytes, hNames, hBundle⟩ := exists_bytes_allowing
  obtain ⟨output, hRun, hRebuildable⟩ := run_allowing_pruned hBundle
  exact ⟨bytes, output, ⟨hNames, .inl rfl, rfl, hDialect, hBundle, hRebuildable, hRun⟩,
    run_output_eq hNames (.inl rfl) rfl hDialect hBundle hRebuildable hRun⟩

end PolicyBundle.Build
