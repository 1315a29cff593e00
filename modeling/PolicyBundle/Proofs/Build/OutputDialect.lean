import PolicyBundle.Proofs.Build.DirectoryBuild
import PolicyBundle.Proofs.Source.Dialects

/-! The manifest of an output declares one dialect for all of its modules: the one that the manifest
of the root declares, or else the one that is asked for. A module that was scanned in it can be
scanned again. But an archive among the sources may declare a dialect of its own, and its modules are
written beside the others. -/

namespace PolicyBundle.Build

open PolicyBundle.Bundle Files Log Policy

/-- The source of a module can be scanned in a dialect. -/
def Parses (dialect : Dialect) (m : Module) : Prop :=
  ∃ found, Module.parse m.path m.source dialect = .ok found

/-- An output that the files of a bundle were written into, and perhaps a plan behind them. -/
def HasFiles (output : Bytes) (written : Bundle) : Prop :=
  ∃ pack more, Archive.Pack.finish pack = output ∧ Holds pack (filesOf written ++ more)

/-- A module of a build that is from an archive among the sources, whose own manifest declares a
dialect. -/
def OfNested (around : Surroundings) (parameters : Parameters) :
    Request → (outer declared : Dialect) → Module → Prop
  | .path path, outer, declared, m =>
    let loader := loaderOf around parameters
    Source.Nested loader outer (around.files.walk loader.followLinks loader.keeps path) declared m
  | .bytes _, _, _, _ => False

section Output

variable {around : Surroundings} {parameters : Parameters} {request : Request}

theorem parses_of_moduleOf {annotations : Bool} {dialect : Dialect} {m : Module}
    (h : moduleOf annotations dialect m.path m.source = .ok m) : Parses dialect m := by
  obtain ⟨found, hFound, -⟩ := bind_eq_ok h
  exact ⟨found, hFound⟩

/-- What can be scanned in a dialect can be scanned in the one that a manifest records for it. -/
theorem Parses.recorded {dialect : Dialect} {m : Module} (h : Parses dialect m) :
    Parses dialect.recorded m := by
  obtain ⟨found, hFound⟩ := h
  exact ⟨_, Module.parse_moved (Dialect.requiresIf_recorded dialect) hFound m.path⟩

/-- The modules that a build has, by the dialects that they can be scanned in. -/
theorem parses_of_bundleOf? {bundle : Bundle} (h : bundleOf? around parameters request = some bundle)
    {m : Module} (hm : m ∈ bundle.modules) :
    Parses (bundle.manifest.dialect?.getD parameters.dialect).recorded m ∨
      ∃ declared, OfNested around parameters request
        (bundle.manifest.dialect?.getD parameters.dialect) declared m ∧ Parses declared m := by
  cases request with
  | bytes bytes =>
      have hAccepted := (read_sound (toOption_eq_some_iff.mp h)).modules m hm
      exact .inl (parses_of_moduleOf hAccepted.read).recorded
  | path path =>
      rcases Source.load_scanned (toOption_eq_some_iff.mp h) m hm with hOuter | ⟨declared, hNested,
        hDeclared⟩
      · exact .inl (parses_of_moduleOf hOuter).recorded
      · exact .inr ⟨declared, hNested, parses_of_moduleOf hDeclared⟩

theorem hasFiles_of_archive {config : Config} {target : Target} {entrypoints : List String}
    {bundle : Bundle} {output : Bytes}
    (h : archive (writeOutput config target entrypoints bundle) = .ok output) :
    HasFiles output (writtenBundle config bundle) := by
  obtain ⟨pack, hRun, rfl⟩ := archive_eq_ok h
  have hHolds := writes_output config target entrypoints bundle .empty pack [] hRun Holds.empty
  rw [List.nil_append] at hHolds
  exact ⟨pack, _, rfl, hHolds⟩

end Output

section Nested

/-- A module that needs no `if`. -/
def bare : Module where
  path := "p.rego"
  package := "p"
  imports := []
  rules := [⟨"allow", false, false, 2⟩]
  calls := []
  dataRefs := []
  packageEntrypoint := false
  dialect := .v0
  source := "package p\nallow \x7b\n  true\n\x7d\n"

/-- The bundle of that module, which declares its dialect. -/
def bareBundle : Bundle :=
  ⟨⟨"", none, some 0, none, []⟩, [bare], Json.emptyObject⟩

theorem writable_bare : EntryPath.Writable bare.path :=
  ⟨by decide +kernel, by decide +kernel, by decide +kernel⟩

/-- There is an archive of the bundle, which is read alike in whatever dialect. -/
theorem exists_archive_bareBundle :
    ∃ bytes, ∀ dialect, (read ⟨true, dialect, Settings.default.maxBytes,
      Settings.default.maxEntries⟩ bytes).outcome.value = .ok bareBundle := by
  have hModule : moduleOf true .v0 bare.path bare.source = .ok bare := by decide +kernel
  have hNormal : EntryPath.normalize bare.path = bare.path := by decide +kernel
  generalize hConfig : configOf bundling (.bundle bareBundle) .shared ⟨true, []⟩ = config
  have hRoom : roomFor config .rego [] bareBundle ≤ 12288 := by
    rw [← hConfig]
    decide +kernel
  have hWritten : writtenBundle config bareBundle = bareBundle := by
    rw [← hConfig]
    simp only [writtenBundle, byPath, bareBundle, List.mergeSort_singleton]
    rfl
  obtain ⟨pack, hArchive, -, hSize⟩ := (fits_output config .rego [] bareBundle
    (by simpa [bareBundle] using writable_bare)).archive
  have hSound : Sound true .v0 (writtenBundle config bareBundle) := by
    rw [hWritten]
    have hEmpty := Manifest.Formed.empty
    refine ⟨⟨hEmpty.metadata, hEmpty.extra, hEmpty.unknown⟩, .object List.Pairwise.nil (by simp),
      fun m hm => ?_⟩
    obtain rfl := List.mem_singleton.mp hm
    exact ⟨by decide, hModule, rfl⟩
  have hPortable : Portable (writtenBundle config bareBundle) := by
    rw [hWritten]
    refine ⟨fun x hx => absurd (show x ∈ [] from hx) List.not_mem_nil, by decide, fun m hm _ => ?_⟩
    rw [List.mem_singleton.mp hm]
    exact writable_bare.hasParent_eq_false
  have hBytes : (Archive.Gzip.decode pack.finish).data.length ≤ Settings.default.maxBytes := by
    have hMax : Settings.default.maxBytes = 536870912 := rfl
    rw [Archive.Pack.finish, Archive.decode_encode, hMax]
    simp only [Archive.blockSize] at hSize ⊢
    exact Nat.le_trans hSize (Nat.le_trans (Nat.add_le_add_right hRoom _) (by decide))
  have hCounted : Settings.default.maxBytes ≤ maxSize := by decide
  have hEntries : bareBundle.modules.length + 3 ≤ Settings.default.maxEntries := by decide
  refine ⟨pack.finish, fun dialect => ?_⟩
  rw [read_compiled hSound rfl hPortable hArchive rfl hBytes hCounted hEntries, hWritten]
  simp only [reread, bareBundle, List.map_singleton, hNormal]
  rfl

/-- A tree of a directory with an archive in it. -/
def archiveTree (archive : Bytes) : Tree :=
  treeOf [("n.tar.gz", .file archive)]

theorem plain_archiveTree (archive : Bytes) : Plain (.dir [("n.tar.gz", .file archive)]) := by
  have hProper : Proper "n.tar.gz" :=
    ⟨by decide, by decide, by decide, by decide, by decide, by decide⟩
  exact .dir (by simp) (by simp [hProper]) (by simp [Plain.file])

theorem node_archiveTree (archive : Bytes) : (archiveTree archive).node false "b" =
    .ok (["b"], .dir [("n.tar.gz", .file archive)], maxLinks) :=
  node_treeOf _

theorem walk_archiveTree (archive : Bytes) (follow : Bool) :
    (archiveTree archive).walk follow keepAll "b" =
      [.ok ⟨"b/n.tar.gz", "n.tar.gz", archive⟩] := by
  have hName : within "b" "n.tar.gz" = "b/n.tar.gz" ∧ within "" "n.tar.gz" = "n.tar.gz" := by
    decide
  rw [Tree.walk_eq (node_archiveTree archive) (plain_archiveTree archive)]
  simp [stillFiles, inOrder, stillEntries, keepAll, Spot.enter, hName]

/-- What an archive among the files brings. -/
theorem value_addFile_archive {loader : Source.Loader} {dialect : Dialect} {bundle : Bundle}
    {found : Found} {relative : String} (hRelative : Source.Loader.relativePath found = relative)
    (hModule : isModuleName (Text.dirAndName relative).2 = false)
    (hArchive : isArchiveName (Text.dirAndName relative).2 = true) :
    (loader.addFile dialect bundle found).outcome.value =
      ((read (loader.readOptions dialect) found.contents).outcome.value.mapError
        (.bundle relative)).bind fun nested =>
          Source.Loader.mount { bundle with modules := bundle.modules ++ nested.modules } relative []
            nested.data := by
  simp only [Source.Loader.addFile, hRelative, hModule, hArchive, Bool.false_eq_true, if_false,
    if_true, Attempt.value_bind, Attempt.value_mapError, Attempt.value_lift, Attempt.value_quiet]
  rfl

/-- The bundle that a build has of a directory with that archive. -/
theorem bundleOf?_archiveTree {archive : Bytes} (dialect : Dialect)
    (hRead : ∀ dialect, (read ⟨true, dialect, Settings.default.maxBytes,
      Settings.default.maxEntries⟩ archive).outcome.value = .ok bareBundle) :
    bundleOf? ⟨archiveTree archive, .default⟩ { bundling with dialect } (.path "b") =
      some ⟨.empty, [bare], Json.emptyObject⟩ := by
  generalize hLoader : loaderOf ⟨archiveTree archive, .default⟩ { bundling with dialect } = loader
  have hFilter : loader.filter = ⟨true, []⟩ := by
    rw [← hLoader]
    rfl
  have hOptions (outer : Dialect) : loader.readOptions outer =
      ⟨true, outer, Settings.default.maxBytes, Settings.default.maxEntries⟩ := by
    rw [← hLoader]
    rfl
  have hManifest : loader.manifestAt (archiveTree archive) "b" = .ok .empty :=
    manifestAt_none (node_archiveTree archive) (plain_archiveTree archive) (by decide) (by
      simp [List.lookup_cons, manifestName])
  have hRelative : Source.Loader.relativePath ⟨"b/n.tar.gz", "n.tar.gz", archive⟩ = "n.tar.gz" := by
    have hReplace : Text.replace '\\' '/' "n.tar.gz" = "n.tar.gz" := by decide
    rw [Source.Loader.relativePath, hReplace]
    rfl
  rw [bundleOf?, toOption_eq_some_iff, hLoader, value_load (node_archiveTree archive) hFilter,
    hManifest, walk_archiveTree, Except.bind, value_addSteps]
  simp only [List.foldlM_cons, List.foldlM_nil, mapError_ok, Except.bind, bind,
    value_addFile_archive hRelative (by decide) (by decide), hOptions, hRead]
  rfl

/-- A build of that directory succeeds, whichever dialect is asked for. -/
theorem run_archiveTree {archive : Bytes} (dialect : Dialect)
    (hRead : ∀ dialect, (read ⟨true, dialect, Settings.default.maxBytes,
      Settings.default.maxEntries⟩ archive).outcome.value = .ok bareBundle) :
    ∃ output, (run ⟨archiveTree archive, .default⟩ (bundleCompiler ⟨archiveTree archive, .default⟩)
      { bundling with dialect } (.path "b")).outcome.value = .ok output ∧
        HasFiles output ⟨⟨"", none, some dialect.manifestValue, none, []⟩, [bare],
          Json.emptyObject⟩ := by
  generalize hConfig : configOf { bundling with dialect }
    (.bundle ⟨.empty, [bare], Json.emptyObject⟩) .shared
    (loaderOf ⟨archiveTree archive, .default⟩ { bundling with dialect }).filter = config
  have hResolve : (resolveEntrypoints config [bare]).outcome.value = .ok [] := by
    rw [← hConfig]
    rfl
  have hKept : kept config [] [bare] = [bare] := by
    rw [← hConfig]
    rfl
  have hWritten : writtenBundle config ⟨.empty, [bare], Json.emptyObject⟩ =
      ⟨⟨"", none, some dialect.manifestValue, none, []⟩, [bare], Json.emptyObject⟩ := by
    rw [← hConfig]
    simp only [writtenBundle, byPath, List.mergeSort_singleton]
    rfl
  obtain ⟨pack, hRun, hArchive, -⟩ := run_of_writable (bundleOf?_archiveTree dialect hRead) rfl rfl rfl
    hConfig (by decide +kernel) hResolve (by rw [← hConfig]; rfl) hKept
    (by simpa using writable_bare)
  exact ⟨pack.finish, hRun, hWritten ▸ hasFiles_of_archive hArchive⟩

end Nested

/-- The dialect that an output declares fits all of its modules exactly if it fits those of archives
that declare another one. There are none of these where the source is an archive itself. -/
theorem outputFits_iff {around : Surroundings} {parameters : Parameters} {request : Request}
    {output : Bytes} (hKeep : parameters.erasePrints = false)
    (hRun : (run around (bundleCompiler around) parameters request).outcome.value = .ok output) :
    ∃ bundle written, bundleOf? around parameters request = some bundle ∧ HasFiles output written ∧
      let outer := bundle.manifest.dialect?.getD parameters.dialect
      written.manifest.dialect? = some outer.recorded ∧
      ((∀ m ∈ written.modules, Parses outer.recorded m) ↔
        ∀ m ∈ written.modules, ∀ declared, OfNested around parameters request outer declared m →
          declared ≠ outer.recorded → Parses outer.recorded m) := by
  obtain ⟨bundle, hBundle, capabilities, target, -, -, hCompiled⟩ := run_eq_ok_iff.mp hRun
  obtain ⟨-, entrypoints, -, -, hArchive⟩ := compiled_eq_ok_iff.mp hCompiled
  have hSources (source : SourceMode) (filter : Source.PathFilter) :
      sourcesOf (configOf parameters source capabilities filter) bundle = bundle.modules := by
    simp [sourcesOf, configOf, hKeep]
  rw [hSources] at hArchive
  refine ⟨bundle, _, hBundle, hasFiles_of_archive hArchive, ?_, fun hAll m hm _ _ _ => hAll m hm,
    fun hNested m hm => ?_⟩
  · exact dialect?_outputManifest _ bundle.manifest
  · have hMem : m ∈ bundle.modules := mem_kept (List.mem_mergeSort.mp hm)
    rcases parses_of_bundleOf? hBundle hMem with hOuter | ⟨declared, hFrom, hDeclared⟩
    · exact hOuter
    · by_cases hSame : declared =
          (bundle.manifest.dialect?.getD parameters.dialect).recorded
      · rwa [← hSame]
      · exact hNested m hm declared hFrom hSame

/-- Where the dialect of the nested archive is asked for, it is declared and fits. -/
theorem outputFits_iff_sameDialect :
    ∃ archive output, let around : Surroundings := ⟨archiveTree archive, .default⟩
      { bundling with dialect := .v0 }.erasePrints = false ∧
      (run around (bundleCompiler around) { bundling with dialect := .v0 }
        (.path "b")).outcome.value = .ok output ∧
      ∃ written, HasFiles output written ∧ written.manifest.dialect? = some .v0 ∧
        ∀ m ∈ written.modules, Parses .v0 m := by
  obtain ⟨archive, hRead⟩ := exists_archive_bareBundle
  obtain ⟨output, hRun, -⟩ := run_archiveTree .v0 hRead
  obtain ⟨bundle, written, hBundle, hFiles, hDialect, hFits⟩ := outputFits_iff rfl hRun
  rw [bundleOf?_archiveTree .v0 hRead] at hBundle
  obtain rfl := Option.some.inj hBundle
  refine ⟨archive, output, rfl, hRun, written, hFiles, hDialect, hFits.mpr ?_⟩
  rintro m - declared ⟨found, nested, hFound, -, hNested, hDeclared, -⟩ hOther
  rw [keeps_eq_keepAll rfl, walk_archiveTree, List.mem_singleton] at hFound
  obtain rfl := Except.ok.inj hFound
  obtain rfl := Except.ok.inj (hNested.symm.trans (hRead _))
  exact absurd (Option.some.inj hDeclared).symm hOther

/-- The module of a nested archive is written under a manifest that declares another dialect. -/
theorem not_outputFits_otherDialect :
    ∃ archive output, let around : Surroundings := ⟨archiveTree archive, .default⟩
      (run around (bundleCompiler around) bundling (.path "b")).outcome.value = .ok output ∧
      ∃ written, HasFiles output written ∧ written.manifest.dialect? = some .v1 ∧
        ¬∀ m ∈ written.modules, Parses .v1 m := by
  obtain ⟨archive, hRead⟩ := exists_archive_bareBundle
  obtain ⟨output, hRun, hFiles⟩ := run_archiveTree .undefined hRead
  refine ⟨archive, output, hRun, _, hFiles, rfl, fun hFits => ?_⟩
  obtain ⟨found, hFound⟩ := hFits bare List.mem_cons_self
  have hFault : (Module.parse bare.path bare.source .v1).toOption = none := by decide +kernel
  rw [hFound] at hFault
  cases hFault

end PolicyBundle.Build
