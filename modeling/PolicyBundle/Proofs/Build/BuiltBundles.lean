import PolicyBundle.Proofs.Build.Outcomes
import PolicyBundle.Proofs.Bundle.ReadBack
import PolicyBundle.Proofs.Bundle.RoundTrip

/-! The output of a build is a bundle that reads back: the data of the bundle that was built, its
manifest with the revision and the dialect of the build, and the modules that were kept. -/

namespace PolicyBundle.Build

open PolicyBundle.Bundle Log Policy

/-- The plan among the files of an output. -/
def planFiles (config : Config) (target : Target) (entrypoints : List String)
    (modules : List Module) : List Entry :=
  if target = .plan then
    [⟨planName, Text.utf8
      (Plan.ofModules config.capabilities.capabilities modules entrypoints).toJson.pretty⟩]
  else []

/-- The bundle that is written for a bundle of the modules that are kept. -/
def writtenBundle (config : Config) (bundle : Bundle) : Bundle :=
  ⟨outputManifest config bundle.manifest, byPath bundle.modules, bundle.data⟩

theorem writes_output (config : Config) (target : Target) (entrypoints : List String)
    (bundle : Bundle) : Writes (writeOutput config target entrypoints bundle)
      (filesOf (writtenBundle config bundle) ++
        planFiles config target entrypoints bundle.modules) := by
  have hModules : Writes ((byPath bundle.modules).forM writeModule)
      ((byPath bundle.modules).map moduleFile) :=
    writes_forM _ fun m => writes_entry m.path (Text.utf8 m.source)
  have hPlan : Writes (if target = .plan then
        writeEntry planName (Text.utf8
          (Plan.ofModules config.capabilities.capabilities bundle.modules entrypoints).toJson.pretty)
      else pure ()) (planFiles config target entrypoints bundle.modules) := by
    rw [planFiles]
    split
    · exact writes_entry _ _
    · exact writes_pure
  have hAll := (writes_entry manifestName
    (Text.utf8 (outputManifest config bundle.manifest).text)).bind
    (hModules.bind ((writes_entry dataName (Text.utf8 bundle.data.compact)).bind hPlan))
  simp only [filesOf, writtenBundle, List.cons_append, List.append_assoc]
  exact hAll

/-- The room that an output needs at most. -/
def roomFor (config : Config) (target : Target) (entrypoints : List String) (bundle : Bundle) : Nat :=
  ((filesOf (writtenBundle config bundle) ++
    planFiles config target entrypoints bundle.modules).map Entry.room).sum

/-- An output is written if the paths of its modules can be. -/
theorem fits_output (config : Config) (target : Target) (entrypoints : List String)
    (bundle : Bundle) (hPaths : ∀ m ∈ bundle.modules, EntryPath.Writable m.path) :
    Fits (writeOutput config target entrypoints bundle)
      (roomFor config target entrypoints bundle) := by
  have hManifest : EntryPath.Writable manifestName :=
    ⟨by decide +kernel, by decide +kernel, by decide +kernel⟩
  have hData : EntryPath.Writable dataName :=
    ⟨by decide +kernel, by decide +kernel, by decide +kernel⟩
  have hPlanName : EntryPath.Writable planName :=
    ⟨by decide +kernel, by decide +kernel, by decide +kernel⟩
  have hModules : Fits ((byPath bundle.modules).forM writeModule)
      ((byPath bundle.modules).map fun m => (moduleFile m).room).sum :=
    fits_forM fun m hm => fits_entry (hPaths m (List.mem_mergeSort.mp hm)) (Text.utf8 m.source)
  have hPlan : Fits (if target = .plan then
        writeEntry planName (Text.utf8
          (Plan.ofModules config.capabilities.capabilities bundle.modules entrypoints).toJson.pretty)
      else pure ()) ((planFiles config target entrypoints bundle.modules).map Entry.room).sum := by
    rw [planFiles]
    split
    · rw [List.map_singleton, List.sum_singleton]
      exact fits_entry hPlanName _
    · exact fits_pure
  have hAll := (fits_entry hManifest (Text.utf8 (outputManifest config bundle.manifest).text)).bind
    (hModules.bind ((fits_entry hData (Text.utf8 bundle.data.compact)).bind hPlan))
  simp only [roomFor, filesOf, writtenBundle, List.cons_append, List.append_assoc, List.map_cons,
    List.map_append, List.map_map, List.map_nil, List.sum_cons, List.sum_append, List.sum_nil,
    Nat.zero_add]
  exact hAll

theorem kept_sublist (config : Config) (entrypoints : List String) (modules : List Module) :
    (kept config entrypoints modules).Sublist modules := by
  unfold kept
  split
  · exact List.filter_sublist
  · exact List.Sublist.refl modules

theorem mem_kept {config : Config} {entrypoints : List String} {modules : List Module} {m : Module}
    (h : m ∈ kept config entrypoints modules) : m ∈ modules :=
  (kept_sublist config entrypoints modules).subset h

/-- What is written of a bundle that a reader made could have been made by a reader. -/
theorem sound_writtenBundle {annotations : Bool} {dialect : Dialect} {config : Config}
    {bundle : Bundle} (hSound : Sound annotations dialect bundle) {modules : List Module}
    (hModules : ∀ m ∈ modules, m ∈ bundle.modules) :
    Sound annotations dialect (writtenBundle config { bundle with modules }) := by
  refine ⟨⟨hSound.manifest.metadata, hSound.manifest.extra, hSound.manifest.unknown⟩, hSound.data,
    fun m hm => ?_⟩
  have hAccepted := hSound.modules m (hModules m (List.mem_mergeSort.mp hm))
  refine ⟨hAccepted.named, hAccepted.read, ?_⟩
  rw [← hAccepted.owned]
  exact owns_congr rfl _

/-- The manifest of an output declares the dialect of the build. -/
theorem dialect?_outputManifest (config : Config) (manifest : Manifest) :
    (outputManifest config manifest).dialect? =
      some (manifest.dialect?.getD config.dialect).recorded := by
  simp [outputManifest, Manifest.dialect?, Dialect.ofManifest?_manifestValue]

theorem dialectOf_outputManifest (options : ReadOptions) (config : Config) (manifest : Manifest) :
    options.dialectOf (outputManifest config manifest) =
      (manifest.dialect?.getD config.dialect).recorded := by
  rw [ReadOptions.dialectOf, dialect?_outputManifest, Option.getD_some]

theorem manifestValue_lt (dialect : Dialect) : dialect.manifestValue < 256 := by
  cases dialect <;> decide

section Plan

variable {config : Config} {target : Target} {entrypoints : List String}

theorem length_planFiles_le (modules : List Module) :
    (planFiles config target entrypoints modules).length ≤ 1 := by
  rw [planFiles]
  split <;> simp

/-- A plan is neither a module nor data. -/
theorem planFiles_foreign {modules : List Module} {f : Entry}
    (hf : f ∈ (planFiles config target entrypoints modules).map Entry.named) :
    isModuleName (Text.dirAndName f.path).2 = false ∧ (Text.dirAndName f.path).2 ≠ dataName := by
  rw [planFiles] at hf
  split at hf
  · obtain rfl := List.mem_singleton.mp hf
    exact (by decide : isModuleName (Text.dirAndName (EntryPath.normalize planName)).2 = false ∧
      (Text.dirAndName (EntryPath.normalize planName)).2 ≠ dataName)
  · cases hf

/-- No name that is too long for its field leads out of an output that is portable. -/
theorem hasParent_of_portable {bundle : Bundle} (hPortable : Portable bundle)
    {modules : List Module} {f : Entry}
    (hf : f ∈ filesOf bundle ++ planFiles config target entrypoints modules)
    (hLong : Archive.Pack.pathWidth ≤ (Text.utf8 (EntryPath.normalize f.path)).length) :
    EntryPath.hasParent f.path = false := by
  simp only [filesOf, planFiles, List.mem_append, List.mem_cons, List.mem_map, List.not_mem_nil,
    or_false] at hf
  rcases hf with (rfl | ⟨m, hm, rfl⟩ | rfl) | hf
  · exact (by decide : EntryPath.hasParent manifestName = false)
  · exact hPortable.names m hm hLong
  · exact (by decide : EntryPath.hasParent dataName = false)
  · split at hf
    · obtain rfl := List.mem_singleton.mp hf
      exact (by decide : EntryPath.hasParent planName = false)
    · cases hf

theorem length_filesOf (bundle : Bundle) : (filesOf bundle).length = bundle.modules.length + 2 := by
  simp [filesOf]

end Plan

/-- What is read of an output. -/
theorem read_compiled {config : Config} {target : Target} {entrypoints : List String}
    {bundle : Bundle} {output : Bytes} {dialect : Dialect}
    (hSound : Sound true dialect (writtenBundle config bundle))
    (hDialect : (bundle.manifest.dialect?.getD config.dialect).requiresIf = dialect.requiresIf)
    (hPortable : Portable (writtenBundle config bundle))
    (hOutput : archive (writeOutput config target entrypoints bundle) = .ok output)
    {options : ReadOptions} (hAnnotations : options.annotations = true)
    (hBytes : (Archive.Gzip.decode output).data.length ≤ options.maxBytes)
    (hCounted : options.maxBytes ≤ maxSize)
    (hEntries : bundle.modules.length + 3 ≤ options.maxEntries) :
    (read options output).outcome.value = .ok (reread (writtenBundle config bundle)
      (bundle.manifest.dialect?.getD config.dialect).recorded) := by
  obtain ⟨pack, hRun, rfl⟩ := archive_eq_ok hOutput
  have hHolds := writes_output config target entrypoints bundle .empty pack [] hRun Holds.empty
  rw [List.nil_append] at hHolds
  rw [Archive.Pack.finish, Archive.decode_encode] at hBytes
  have hCount : (filesOf (writtenBundle config bundle) ++
      planFiles config target entrypoints bundle.modules).length ≤ options.maxEntries := by
    have hPlan : (planFiles config target entrypoints bundle.modules).length ≤ 1 :=
      length_planFiles_le bundle.modules
    have hSorted : (writtenBundle config bundle).modules.length = bundle.modules.length :=
      List.length_mergeSort _
    rw [List.length_append, length_filesOf, hSorted]
    omega
  have hFiles := hHolds.readEntries_finish (fun f hf => hasParent_of_portable hPortable hf) hBytes
    hCounted hCount
  rw [List.map_append] at hFiles
  have hRecorded : options.dialectOf (writtenBundle config bundle).manifest =
      (bundle.manifest.dialect?.getD config.dialect).recorded :=
    dialectOf_outputManifest options config bundle.manifest
  rw [← hRecorded]
  refine read_eq_reread (finish_nonempty pack) hFiles (fun f hf => planFiles_foreign hf)
    (hAnnotations ▸ hSound) ?_ ?_ hPortable
  · rw [hRecorded, Dialect.requiresIf_recorded, hDialect]
  · rintro n hn
    obtain rfl := Option.some.inj hn
    exact manifestValue_lt _

/-- A compilation succeeds if the checks do and the paths of the modules that are kept can be
written. -/
theorem compiled_of_writable (config : Config) (target : Target) (bundle : Bundle)
    (entrypoints : List String)
    (hCheck : check config.capabilities.capabilities (sourcesOf config bundle) = [])
    (hResolve : (resolveEntrypoints config (sourcesOf config bundle)).outcome.value =
      .ok entrypoints)
    (hFault : fault? config target entrypoints = none)
    (hPaths : ∀ m ∈ kept config entrypoints (sourcesOf config bundle),
      EntryPath.Writable m.path) :
    ∃ pack : Archive.Pack, compiled config target bundle = .ok pack.finish ∧
      pack.toArchive.length ≤ roomFor config target entrypoints { bundle with
        modules := kept config entrypoints (sourcesOf config bundle) } +
          2 * Archive.blockSize := by
  obtain ⟨pack, hArchive, -, hRoom⟩ := (fits_output config target entrypoints
    { bundle with modules := kept config entrypoints (sourcesOf config bundle) } hPaths).archive
  exact ⟨pack, compiled_eq_ok_iff.mpr ⟨hCheck, entrypoints, hResolve, hFault, hArchive⟩, hRoom⟩

/-- The output of a build from an archive reads back, with the data of the bundle that was built, its
manifest with the revision and the dialect of the build, and the modules that were kept, in the order
of their paths. -/
theorem read_output {around : Surroundings} {parameters : Parameters} {bytes output : Bytes}
    {source : SourceMode} {capabilities : Capability.Resolved} {filter : Source.PathFilter}
    (hKeep : parameters.erasePrints = false)
    (hSource : (acquireSource around.settings parameters (.bytes bytes)).outcome.value = .ok source)
    (hOutput : (compile around (configOf parameters source capabilities filter)).outcome.value =
      .ok output) :
    ∃ bundle entrypoints, source = .bundle bundle ∧
      (resolveEntrypoints (configOf parameters source capabilities filter)
        bundle.modules).outcome.value = .ok entrypoints ∧
      let modules :=
        if parameters.prune && !entrypoints.isEmpty then prune bundle.modules entrypoints
        else bundle.modules
      let dialect := bundle.manifest.dialect?.getD parameters.dialect
      let manifest : Manifest := { bundle.manifest with
        revision := parameters.revision.getD bundle.manifest.revision
        dialectValue := some dialect.manifestValue }
      Portable ⟨manifest, modules, bundle.data⟩ →
        ∀ options : ReadOptions, options.annotations = true →
          (Archive.Gzip.decode output).data.length ≤ options.maxBytes →
          options.maxBytes ≤ maxSize → modules.length + 3 ≤ options.maxEntries →
            (read options output).outcome.value = .ok ⟨manifest,
              (modules.mergeSort fun a b => a.path ≤ b.path).map fun m =>
                { m with path := EntryPath.normalize m.path, dialect := dialect.recorded },
              bundle.data⟩ := by
  rw [value_acquireSource_bytes] at hSource
  cases hRead : (read ⟨true, parameters.dialect, around.settings.maxBytes,
      around.settings.maxEntries⟩ bytes).outcome.value with
  | error e => rw [hRead] at hSource; cases hSource
  | ok bundle =>
      rw [hRead] at hSource
      obtain rfl : .bundle bundle = source := Except.ok.inj hSource
      have hSound := read_sound hRead
      rw [value_compile] at hOutput
      generalize Target.ofName? (configOf parameters (.bundle bundle) capabilities filter).target =
        found at hOutput
      cases found with
      | none => cases hOutput
      | some target =>
          obtain ⟨-, entrypoints, hResolve, -, hWritten⟩ := compiled_eq_ok_iff.mp hOutput
          have hSources : sourcesOf (configOf parameters (.bundle bundle) capabilities filter)
              bundle = bundle.modules := by
            simp [sourcesOf, configOf, hKeep]
          rw [hSources] at hResolve hWritten
          refine ⟨bundle, entrypoints, rfl, hResolve, ?_⟩
          intro modules dialect manifest hPortable options hAnnotations hBytes hCounted hEntries
          refine read_compiled (sound_writtenBundle hSound fun m hm => mem_kept hm) rfl ?_ hWritten
            hAnnotations hBytes hCounted hEntries
          exact ⟨hPortable.numbers, hPortable.nesting, fun m hm =>
            hPortable.names m (List.mem_mergeSort.mp hm)⟩

/-- There is an archive of a single file. -/
theorem exists_holds_alone {path : String} (hPath : EntryPath.Writable path) (contents : Bytes) :
    ∃ pack, Holds pack [⟨path, contents⟩] ∧
      pack.toArchive.length ≤ Entry.room ⟨path, contents⟩ + 2 * Archive.blockSize := by
  obtain ⟨pack, -, hRun, hSize⟩ := (fits_entry hPath contents).archive
  exact ⟨pack, writes_entry path contents .empty pack [] hRun Holds.empty, hSize⟩

/-- An archive of a single module is read as that module. -/
theorem read_holds_alone {pack : Archive.Pack} {path source : String} {dialect : Dialect} {m : Module}
    (hHolds : Holds pack [⟨path, Text.utf8 source⟩]) (hPath : EntryPath.Writable path)
    (hNormal : EntryPath.normalize path = path)
    (hName : isModuleName (Text.dirAndName path).2 = true) (hManifest : path ≠ manifestName)
    (hModule : moduleOf true dialect path source = .ok m)
    (hFits : pack.toArchive.length < Nat.pow 2 64)
    (options : ReadOptions) (hAnnotations : options.annotations = true)
    (hDialect : options.dialect = dialect)
    (hTotal : (Text.utf8 source).length ≤ options.maxBytes) (hEntries : 1 ≤ options.maxEntries) :
    (read options pack.finish).outcome.value = .ok ⟨.empty, [m], Json.emptyObject⟩ := by
  have hNone : manifestOf [⟨path, Text.utf8 source⟩] = .ok .empty := by
    simp [manifestOf, hManifest]
  rw [hHolds.value_read (by simpa using fun _ => hPath.hasParent_eq_false) hFits
    (by simpa using hTotal) (by simpa using hEntries)]
  simp only [List.map_singleton, named_of_normalize hNormal, hNone, Except.bind]
  have hSame : options.dialectOf Manifest.empty = dialect := by
    simp [ReadOptions.dialectOf, Manifest.dialect?, Manifest.empty, hDialect]
  rw [hAnnotations, hSame]
  exact foldlM_alone hName hModule

theorem read_alone {path source : String} {dialect : Dialect} {m : Module}
    (hPath : EntryPath.Writable path) (hNormal : EntryPath.normalize path = path)
    (hName : isModuleName (Text.dirAndName path).2 = true) (hManifest : path ≠ manifestName)
    (hModule : moduleOf true dialect path source = .ok m)
    (hRoom : Entry.room ⟨path, Text.utf8 source⟩ + 2 * Archive.blockSize < Nat.pow 2 64)
    (options : ReadOptions) (hAnnotations : options.annotations = true)
    (hDialect : options.dialect = dialect)
    (hTotal : (Text.utf8 source).length ≤ options.maxBytes) (hEntries : 1 ≤ options.maxEntries) :
    ∃ bytes, (read options bytes).outcome.value = .ok ⟨.empty, [m], Json.emptyObject⟩ := by
  obtain ⟨pack, hHolds, hSize⟩ := exists_holds_alone hPath (Text.utf8 source)
  exact ⟨pack.finish, read_holds_alone hHolds hPath hNormal hName hManifest hModule (by omega)
    options hAnnotations hDialect hTotal hEntries⟩

/-- A module of one rule. -/
def allowing : Module where
  path := "p.rego"
  package := "p"
  imports := []
  rules := [⟨"allow", false, false, 2⟩]
  calls := []
  dataRefs := []
  packageEntrypoint := false
  dialect := .undefined
  source := "package p\nallow if true\n"

theorem writable_allowing : EntryPath.Writable allowing.path :=
  ⟨by decide +kernel, by decide +kernel, by decide +kernel⟩

/-- Parameters that ask for the rule of that module. -/
def askingAllow : Parameters :=
  { Parameters.default with entrypoints := ["p/allow"], revision := some "r" }

/-- The capabilities that the module needs. -/
def justV1 : Capability.Resolved :=
  .own { Capabilities.empty with features := [Capabilities.featureV1] }

/-- A module of one rule, built with a revision, reads back. -/
theorem read_output_allowing :
    let source : SourceMode := .bundle ⟨.empty, [allowing], Json.emptyObject⟩
    ∃ bytes output, askingAllow.erasePrints = false ∧
      (acquireSource Settings.default askingAllow (.bytes bytes)).outcome.value = .ok source ∧
      (compile ⟨.empty, .default⟩ (configOf askingAllow source justV1 ⟨false, []⟩)).outcome.value =
        .ok output ∧
      (read ⟨true, .v0, 16384, 4⟩ output).outcome.value =
        .ok ⟨⟨"r", none, some 1, none, []⟩, [{ allowing with dialect := .v1 }],
          Json.emptyObject⟩ := by
  intro source
  have hPath : EntryPath.Writable allowing.path :=
    ⟨by decide +kernel, by decide +kernel, by decide +kernel⟩
  have hModule : moduleOf true .undefined allowing.path allowing.source = .ok allowing := by
    decide +kernel
  have hName : isModuleName (Text.dirAndName allowing.path).2 = true := by decide +kernel
  obtain ⟨bytes, hRead⟩ := read_alone hPath (by decide +kernel) hName (by decide) hModule
    (by decide +kernel)
    ⟨true, .undefined, Settings.default.maxBytes, Settings.default.maxEntries⟩ rfl rfl
    (by decide +kernel) (by decide)
  have hSource : (acquireSource Settings.default askingAllow (.bytes bytes)).outcome.value =
      .ok source := by
    have hDialect : askingAllow.dialect = .undefined := rfl
    rw [value_acquireSource_bytes, hDialect, hRead]
    rfl
  generalize hConfig : configOf askingAllow source justV1 ⟨false, []⟩ = config
  have hResolve : (resolveEntrypoints config [allowing]).outcome.value = .ok ["p.allow"] := by
    rw [← hConfig]
    decide +kernel
  have hSources : sourcesOf config ⟨.empty, [allowing], Json.emptyObject⟩ = [allowing] := by
    rw [← hConfig]
    rfl
  have hKept : kept config ["p.allow"] [allowing] = [allowing] := by
    rw [← hConfig]
    rfl
  have hCheck : check config.capabilities.capabilities [allowing] = [] := by
    rw [← hConfig]
    decide +kernel
  have hTarget : Target.ofName? config.target = some .rego := by
    rw [← hConfig]
    rfl
  have hLoad (around : Surroundings) :
      (loadSource around config).outcome.value = .ok ⟨.empty, [allowing], Json.emptyObject⟩ := by
    rw [← hConfig]
    rfl
  obtain ⟨pack, hCompiled, hSize⟩ := compiled_of_writable config .rego
    ⟨.empty, [allowing], Json.emptyObject⟩ ["p.allow"]
    (by rw [hSources]; exact hCheck) (by rw [hSources]; exact hResolve) rfl
    (by rw [hSources, hKept]; simpa using hPath)
  rw [hSources, hKept] at hSize
  have hRoom : roomFor config .rego ["p.allow"] ⟨.empty, [allowing], Json.emptyObject⟩ ≤ 12288 := by
    rw [← hConfig]
    decide +kernel
  have hOutput : (compile ⟨.empty, .default⟩ config).outcome.value = .ok pack.finish := by
    rw [value_compile, hTarget, hLoad]
    exact hCompiled
  refine ⟨bytes, pack.finish, rfl, hSource, hOutput, ?_⟩
  rw [← hConfig] at hOutput hResolve
  obtain ⟨bundle, entrypoints, hBundle, hResolved, hReread⟩ := @read_output ⟨.empty, .default⟩
    askingAllow bytes pack.finish source justV1 ⟨false, []⟩ rfl hSource hOutput
  obtain rfl : _ = bundle := SourceMode.bundle.inj hBundle
  obtain rfl : ["p.allow"] = entrypoints := Except.ok.inj (hResolve.symm.trans hResolved)
  have hPortable : Portable ⟨⟨"r", none, some 1, none, []⟩, [allowing], Json.emptyObject⟩ :=
    ⟨fun x hx => absurd (show x ∈ [] from hx) List.not_mem_nil, by decide,
      by simpa using fun _ => hPath.hasParent_eq_false⟩
  have hBytes : (Archive.Gzip.decode pack.finish).data.length ≤ 16384 := by
    rw [Archive.Pack.finish, Archive.decode_encode]
    simp only [Archive.blockSize] at hSize ⊢
    omega
  have hNormal : EntryPath.normalize allowing.path = allowing.path := by decide +kernel
  have hResult := hReread hPortable ⟨true, .v0, 16384, 4⟩ rfl hBytes (by decide) (by decide)
  have hPrune : askingAllow.prune = false := rfl
  rw [hResult]
  simp only [hPrune, Bool.false_and, Bool.false_eq_true, if_false, List.mergeSort_singleton,
    List.map_singleton, hNormal]
  rfl

end PolicyBundle.Build
