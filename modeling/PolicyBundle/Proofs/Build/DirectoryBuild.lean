import PolicyBundle.Proofs.Build.BuiltBundles
import PolicyBundle.Proofs.Build.Outcomes
import PolicyBundle.Proofs.Source.Loading

/-! A bundle directory and the archive that is made of it build alike exactly if the manifest owns all
modules that the directory build takes: the roots of a manifest are asked for where an archive is read,
and nowhere else. -/

namespace PolicyBundle.Build

open PolicyBundle.Bundle Files Log

section Run

/-- How a build loads a directory. -/
def loaderOf (around : Surroundings) (parameters : Parameters) : Source.Loader where
  filter := (filterOf around parameters).value
  bundleMode := parameters.bundleMode
  dialect := parameters.dialect
  followLinks := parameters.followLinks
  annotations := true
  settings := around.settings

/-- The bundle that a build makes its output of, if it can be had. -/
def bundleOf? (around : Surroundings) (parameters : Parameters) : Request → Option Bundle
  | .path path => ((loaderOf around parameters).load around.files path).outcome.value.toOption
  | .bytes bytes =>
    (read ⟨true, parameters.dialect, around.settings.maxBytes, around.settings.maxEntries⟩
      bytes).outcome.value.toOption

variable {around : Surroundings} {parameters : Parameters} {request : Request} {output : Bytes}

/-- A build has its bundle from the source that it acquires. -/
theorem bundleOf?_eq_some_iff (capabilities : Capability.Resolved) {bundle : Bundle} :
    bundleOf? around parameters request = some bundle ↔
      ∃ source, (acquireSource around.settings parameters request).outcome.value = .ok source ∧
        (loadSource around (configOf parameters source capabilities
          (loaderOf around parameters).filter)).outcome.value = .ok bundle := by
  cases request with
  | path path =>
      have hSource : (acquireSource around.settings parameters (.path path)).outcome.value =
          .ok (.path path) := rfl
      have hLoad : (loadSource around (configOf parameters (.path path) capabilities
          (loaderOf around parameters).filter)).outcome.value =
            ((loaderOf around parameters).load around.files path).outcome.value.mapError
              .ofLoadError := rfl
      simp only [bundleOf?, toOption_eq_some_iff, hSource, Except.ok.injEq, exists_eq_left', hLoad,
        mapError_eq_ok_iff]
  | bytes bytes =>
      rw [bundleOf?, toOption_eq_some_iff, value_acquireSource_bytes]
      cases (read ⟨true, parameters.dialect, around.settings.maxBytes,
        around.settings.maxEntries⟩ bytes).outcome.value with
      | error e => simp [Except.map]
      | ok found => simp [Except.map, loadSource, configOf]

theorem run_eq_ok_iff_compile {compiler : Compiler} :
    (run around compiler parameters request).outcome.value = .ok output ↔
      ∃ config, (prepare around parameters request).outcome.value = .ok config ∧
        (compiler.compile config).outcome.value = .ok output := by
  rw [value_run]
  exact bind_eq_ok_iff.trans (exists_congr fun config => and_congr_right' mapError_eq_ok_iff)

theorem prepare_eq_ok_iff {config : Config} :
    (prepare around parameters request).outcome.value = .ok config ↔
      ∃ capabilities source, (Capability.resolve around.files around.settings.capabilitiesDir
          parameters.capabilitiesDocument parameters.capabilitiesVersion).outcome.value =
            .ok capabilities ∧
        (acquireSource around.settings parameters request).outcome.value = .ok source ∧
          configOf parameters source capabilities (loaderOf around parameters).filter = config := by
  rw [value_prepare]
  refine bind_eq_ok_iff.trans ?_
  simp only [mapError_eq_ok_iff, map_eq_ok_iff, exists_and_left]
  rfl

/-- The output of a build depends on the bundle that it has, and not on where it has it from. -/
theorem run_eq_ok_iff :
    (run around (bundleCompiler around) parameters request).outcome.value = .ok output ↔
      ∃ bundle, bundleOf? around parameters request = some bundle ∧
        ∃ capabilities target, (Capability.resolve around.files around.settings.capabilitiesDir
            parameters.capabilitiesDocument parameters.capabilitiesVersion).outcome.value =
              .ok capabilities ∧
          Target.ofName? parameters.target = some target ∧
            compiled (configOf parameters (.bundle bundle) capabilities
              (loaderOf around parameters).filter) target bundle = .ok output := by
  rw [run_eq_ok_iff_compile]
  constructor
  · rintro ⟨config, hConfig, hCompile⟩
    obtain ⟨capabilities, source, hCapabilities, hSource, rfl⟩ := prepare_eq_ok_iff.mp hConfig
    obtain ⟨target, bundle, hTarget, hLoad, hCompiled⟩ := compile_eq_ok_iff.mp hCompile
    exact ⟨bundle, (bundleOf?_eq_some_iff capabilities).mpr ⟨source, hSource, hLoad⟩, capabilities,
      target, hCapabilities, hTarget, hCompiled⟩
  · rintro ⟨bundle, hBundle, capabilities, target, hCapabilities, hTarget, hCompiled⟩
    obtain ⟨source, hSource, hLoad⟩ := (bundleOf?_eq_some_iff capabilities).mp hBundle
    exact ⟨_, prepare_eq_ok_iff.mpr ⟨capabilities, source, hCapabilities, hSource, rfl⟩,
      compile_eq_ok_iff.mpr ⟨target, bundle, hTarget, hLoad, hCompiled⟩⟩

/-- A build that keeps print statements succeeds, with the usual capabilities, if its checks do and the
modules that are kept have paths that can be written. -/
theorem run_of_writable {bundle : Bundle} {config : Config} {entrypoints : List String}
    {modules : List Policy.Module} (hBundle : bundleOf? around parameters request = some bundle)
    (hShared : (Capability.resolve around.files around.settings.capabilitiesDir
      parameters.capabilitiesDocument parameters.capabilitiesVersion).outcome.value = .ok .shared)
    (hTarget : Target.ofName? parameters.target = some .rego)
    (hKeep : parameters.erasePrints = false)
    (hConfig : configOf parameters (.bundle bundle) .shared (loaderOf around parameters).filter =
      config)
    (hCheck : check Capability.current bundle.modules = [])
    (hResolve : (resolveEntrypoints config bundle.modules).outcome.value = .ok entrypoints)
    (hFault : fault? config .rego entrypoints = none)
    (hKept : kept config entrypoints bundle.modules = modules)
    (hPaths : ∀ m ∈ modules, EntryPath.Writable m.path) :
    ∃ pack : Archive.Pack,
      (run around (bundleCompiler around) parameters request).outcome.value = .ok pack.finish ∧
        archive (writeOutput config .rego entrypoints { bundle with modules }) = .ok pack.finish ∧
        pack.toArchive.length ≤
          roomFor config .rego entrypoints { bundle with modules } + 2 * Archive.blockSize := by
  subst hConfig hKept
  have hSources : sourcesOf (configOf parameters (.bundle bundle) .shared
      (loaderOf around parameters).filter) bundle = bundle.modules := by
    simp [sourcesOf, configOf, hKeep]
  obtain ⟨pack, hArchive, -, hRoom⟩ := (fits_output _ .rego entrypoints
    { bundle with modules := _ } hPaths).archive
  refine ⟨pack, run_eq_ok_iff.mpr ⟨bundle, hBundle, .shared, .rego, hShared, hTarget, ?_⟩, hArchive,
    hRoom⟩
  rw [compiled_eq_ok_iff, hSources]
  exact ⟨hCheck, entrypoints, hResolve, hFault, hArchive⟩

end Run

section Directory

/-- What a build gives: the files of the output, if there is one. -/
def filesOf? (result : Except Error Bytes) : Option Archive.Listing :=
  result.toOption.map fun output => .ofStream (Archive.Gzip.decode output)

/-- A bundle directory and its archive build alike: both builds fail, or both succeed with the same
files in their outputs. -/
def BuildsAlike (around : Surroundings) (parameters : Parameters) (dir : String) : Prop :=
  ∃ archive, archiveOf around.files dir = .ok archive ∧
    filesOf? (run around (bundleCompiler around) parameters (.bytes archive)).outcome.value =
      filesOf? (run around (bundleCompiler around) parameters (.path dir)).outcome.value

/-- A directory of which the archive is within the limits of a reader. -/
structure WithinLimits (settings : Settings) (tree : Tree) (dir : String) : Prop where
  bytes : ((collected (tree.walk false keepAll dir)).map (·.contents.length)).sum ≤
    settings.maxBytes
  entries : (collected (tree.walk false keepAll dir)).length ≤ settings.maxEntries
  archive : ∀ archive, archiveOf tree dir = .ok archive →
    (Archive.Gzip.decode archive).data.length < Nat.pow 2 64

/-- A bundle directory that is built without ignore patterns. Its path is short enough for the path of
its manifest to be usable. -/
structure DirectoryBuild (around : Surroundings) (parameters : Parameters) (dir : String)
    (entries : List (String × Node)) : Prop where
  found : ∃ location links, around.files.node false dir = .ok (location, .dir entries, links)
  directory : IsDirectory entries
  bundleMode : parameters.bundleMode = true
  ignore : parameters.ignore = []
  limits : WithinLimits around.settings around.files dir
  short : (join dir manifestName).utf8ByteSize ≤ 4095

variable {around : Surroundings} {parameters : Parameters} {dir : String}
  {entries : List (String × Node)}

/-- A build of the archive of a directory succeeds if the build of the directory does and the manifest
owns the modules, and then with the same output. -/
theorem DirectoryBuild.run_archive_eq_ok_iff (h : DirectoryBuild around parameters dir entries) :
    ∃ archive, archiveOf around.files dir = .ok archive ∧ ∀ output,
      (run around (bundleCompiler around) parameters (.bytes archive)).outcome.value = .ok output ↔
        (run around (bundleCompiler around) parameters (.path dir)).outcome.value = .ok output ∧
          ∀ bundle, bundleOf? around parameters (.path dir) = some bundle → Owned bundle := by
  obtain ⟨location, links, hFound⟩ := h.found
  obtain ⟨pack, hArchive, hHolds, -⟩ := archiveOf_directory (allRegular_walk hFound h.directory false)
  have hLength := h.limits.archive _ hArchive
  rw [Archive.Pack.finish, Archive.decode_encode] at hLength
  have hFilter : (loaderOf around parameters).filter = ⟨true, []⟩ := by
    rw [loaderOf, value_filterOf h.ignore, h.bundleMode]
  have hBundle (bundle : Bundle) : bundleOf? around parameters (.bytes pack.finish) = some bundle ↔
      bundleOf? around parameters (.path dir) = some bundle ∧ Owned bundle := by
    rw [bundleOf?, bundleOf?, toOption_eq_some_iff, toOption_eq_some_iff]
    exact read_eq_ok_iff_load h.bundleMode hFilter hFound h.directory h.short hHolds rfl rfl hLength
      h.limits.bytes h.limits.entries
  refine ⟨pack.finish, hArchive, fun output => ?_⟩
  rw [run_eq_ok_iff, run_eq_ok_iff]
  constructor
  · rintro ⟨bundle, hHas, hOutput⟩
    obtain ⟨hLoad, hOwned⟩ := (hBundle bundle).mp hHas
    refine ⟨⟨bundle, hLoad, hOutput⟩, fun other hOther => ?_⟩
    rw [hLoad] at hOther
    rwa [← Option.some.inj hOther]
  · rintro ⟨⟨bundle, hLoad, hOutput⟩, hOwned⟩
    exact ⟨bundle, (hBundle bundle).mpr ⟨hLoad, hOwned bundle hLoad⟩, hOutput⟩

theorem BuildsAlike.owned (hAlike : BuildsAlike around parameters dir)
    (h : DirectoryBuild around parameters dir entries) {bundle : Bundle} {output : Bytes}
    (hBundle : bundleOf? around parameters (.path dir) = some bundle)
    (hPath : (run around (bundleCompiler around) parameters (.path dir)).outcome.value =
      .ok output) : Owned bundle := by
  obtain ⟨archive, hArchive, hOutput⟩ := h.run_archive_eq_ok_iff
  obtain ⟨other, hOther, hSame⟩ := hAlike
  obtain rfl := Except.ok.inj (hArchive.symm.trans hOther)
  rw [hPath] at hSame
  obtain ⟨same, hRead, -⟩ := Option.map_eq_some_iff.mp hSame
  exact ((hOutput same).mp (toOption_eq_some_iff.mp hRead)).2 bundle hBundle

end Directory

section Policy

/-- A tree that has one directory. -/
def treeOf (entries : List (String × Node)) : Tree :=
  ⟨.dir [("b", .dir entries)], []⟩

theorem node_treeOf (entries : List (String × Node)) :
    (treeOf entries).node false "b" = .ok (["b"], .dir entries, maxLinks) := by
  have hUsable : Tree.Usable "b" := ⟨by decide, by decide, by decide⟩
  have hSegments : segments "b" = ["b"] := by decide
  have hStart : (treeOf entries).start "b" = [] := rfl
  have hRoot : (treeOf entries).root.at? [] = some (.dir [("b", .dir entries)]) := rfl
  have hPlace : (treeOf entries).root.at? ["b"] = some (.dir entries) := rfl
  have hBlank : (decide ("b" = "") || decide ("b" = ".")) = false := by decide
  have hUp : "b" ≠ ".." := by decide
  have hShort : ¬"b".utf8ByteSize > 255 := by decide
  rw [Tree.node_eq_ok_iff, Tree.resolve_of_usable _ _ hUsable, hSegments, hStart, resolveFrom]
  simp only [hRoot, hBlank, hUp, hShort, Bool.false_eq_true, if_false]
  simp [resolveFrom, hPlace]

/-- A directory of a manifest and one module. -/
def policyDirectory (manifest source : Bytes) : List (String × Node) :=
  [(manifestName, .file manifest), ("p.rego", .file source)]

/-- The tree that has that directory alone. -/
def policyTree (manifest source : Bytes) : Tree :=
  ⟨.dir [("b", .dir (policyDirectory manifest source))], []⟩

variable {manifest source : Bytes}

theorem node_policyTree : (policyTree manifest source).node false "b" =
    .ok (["b"], .dir (policyDirectory manifest source), maxLinks) :=
  node_treeOf _

theorem isDirectory_policyDirectory : IsDirectory (policyDirectory manifest source) := by
  have hProper : Proper "p.rego" :=
    ⟨by decide, by decide, by decide, by decide, by decide, by decide⟩
  have hPlain : Plain (.dir (policyDirectory manifest source)) :=
    .dir (by simp [policyDirectory, manifestName])
      (by simp [policyDirectory, proper_manifestName, hProper])
      (by simp [policyDirectory, Plain.file])
  have hEntry {name : String} {child : Node}
      (h : (policyDirectory manifest source).lookup name = some child) :
      isArchiveName name = false ∧ ∃ contents, child = .file contents := by
    rw [lookup_eq_some_iff hPlain.names_nodup] at h
    simp only [policyDirectory, List.mem_cons, Prod.mk.injEq, List.not_mem_nil, or_false] at h
    rcases h with ⟨rfl, rfl⟩ | ⟨rfl, rfl⟩
    · exact ⟨by decide, _, rfl⟩
    · exact ⟨by decide, _, rfl⟩
  refine ⟨hPlain, fun front last contents hPlace => ?_, ?_⟩
  · cases front with
    | nil =>
        rw [List.nil_append, Node.at?_dir_cons] at hPlace
        obtain ⟨child, hChild, -⟩ := Option.bind_eq_some_iff.mp hPlace
        exact (hEntry hChild).1
    | cons name front =>
        rw [List.cons_append, Node.at?_dir_cons] at hPlace
        obtain ⟨child, hChild, hRest⟩ := Option.bind_eq_some_iff.mp hPlace
        obtain ⟨-, contents, rfl⟩ := hEntry hChild
        cases front <;> cases hRest
  · simp only [policyDirectory, List.forall_mem_cons]
    exact ⟨by decide, by decide, by simp⟩

theorem walk_policyTree (follow : Bool) : (policyTree manifest source).walk follow keepAll "b" =
    [.ok ⟨"b/.manifest", manifestName, manifest⟩, .ok ⟨"b/p.rego", "p.rego", source⟩] := by
  have hSorted (first second : Steps) :
      [(manifestName, first), ("p.rego", second)].mergeSort (fun a b => a.1 ≤ b.1) =
        [(manifestName, first), ("p.rego", second)] := by
    apply List.mergeSort_of_pairwise
    simp only [List.pairwise_cons, List.mem_singleton, forall_eq, decide_eq_true_eq]
    exact ⟨by decide, by simp⟩
  have hManifest : within "b" manifestName = "b/.manifest" ∧
      within "" manifestName = manifestName := by decide
  have hPolicy : within "b" "p.rego" = "b/p.rego" ∧ within "" "p.rego" = "p.rego" := by decide
  rw [Tree.walk_eq node_policyTree isDirectory_policyDirectory.plain]
  simp [stillFiles, inOrder, stillEntries, policyDirectory, keepAll, hSorted, Spot.enter, hManifest,
    hPolicy]

theorem collected_policyTree (follow : Bool) :
    collected ((policyTree manifest source).walk follow keepAll "b") =
      [⟨manifestName, manifest⟩, ⟨"p.rego", source⟩] := by
  have hManifest : isCollected (fileName "b/.manifest") = true := by decide
  have hPolicy : isCollected (fileName "b/p.rego") = true := by decide
  rw [walk_policyTree]
  simp [collected, collectedOf, hManifest, hPolicy]

/-- Parameters that ask for a bundle. -/
def bundling : Parameters :=
  { Parameters.default with bundleMode := true }

/-- A directory of a short manifest and a short module is built. -/
theorem directoryBuild_policyDirectory (hManifest : manifest.length ≤ 256)
    (hSource : source.length ≤ 256) :
    DirectoryBuild ⟨policyTree manifest source, .default⟩ bundling "b"
      (policyDirectory manifest source) := by
  have hDirectory : IsDirectory (policyDirectory manifest source) := isDirectory_policyDirectory
  have hBytes : Settings.default.maxBytes = 536870912 := rfl
  have hEntries : Settings.default.maxEntries = 10000 := rfl
  refine ⟨⟨_, _, node_policyTree⟩, hDirectory, rfl, rfl, ⟨?_, ?_, ?_⟩, by decide⟩
  · rw [collected_policyTree, hBytes]
    simp only [List.map_cons, List.map_nil, List.sum_cons, List.sum_nil]
    omega
  · rw [collected_policyTree, hEntries]
    simp
  · intro archive hArchive
    obtain ⟨pack, hPack, -, hSize⟩ :=
      archiveOf_directory (allRegular_walk node_policyTree hDirectory false)
    rw [hPack] at hArchive
    obtain rfl := Except.ok.inj hArchive
    rw [collected_policyTree] at hSize
    have hManifestName : (Text.utf8 (EntryPath.normalize manifestName)).length = 9 := by decide
    have hPolicyName : (Text.utf8 (EntryPath.normalize "p.rego")).length = 6 := by decide
    have hLarge : 12000 < Nat.pow 2 64 := by decide
    simp only [List.map_cons, List.map_nil, List.sum_cons, List.sum_nil, Entry.room,
      Archive.Pack.room, hManifestName, hPolicyName, Archive.wholeBlocks, Archive.blockSize] at hSize
    rw [Archive.Pack.finish, Archive.decode_encode]
    exact lt_of_le_of_lt hSize (by omega)

/-- The bundle that is loaded from the directory. -/
theorem value_load_policyDirectory {loader : Source.Loader} (hMode : loader.bundleMode = true)
    (hFilter : loader.filter = ⟨true, []⟩) {text : String} {read : Manifest} {m : Policy.Module}
    (hManifest : Manifest.ofJson manifest = .ok read)
    (hModule : moduleOf loader.annotations (read.dialect?.getD loader.dialect) "p.rego" text =
      .ok m) :
    (loader.load (policyTree manifest (Text.utf8 text)) "b").outcome.value =
      .ok ⟨read, [m], Json.emptyObject⟩ := by
  have hSteps : AllRegular ((policyTree manifest (Text.utf8 text)).walk false keepAll "b") :=
    allRegular_walk node_policyTree isDirectory_policyDirectory false
  rw [walk_policyTree] at hSteps
  obtain ⟨first, hFirst, hManifestFile⟩ := hSteps _ List.mem_cons_self
  obtain ⟨second, hSecond, hPolicyFile⟩ := hSteps _ (List.mem_cons_of_mem _ List.mem_cons_self)
  obtain rfl := Except.ok.inj hFirst
  obtain rfl := Except.ok.inj hSecond
  have hManifestName : isModuleName (fileName "b/.manifest") = false ∧
      fileName "b/.manifest" ≠ dataName := by decide
  have hPolicyName : isModuleName (fileName "b/p.rego") = true := by decide
  have hAt : loader.manifestAt (policyTree manifest (Text.utf8 text)) "b" = .ok read :=
    (manifestAt_eq_ok_iff hMode node_policyTree (by decide) rfl).mpr hManifest
  rw [value_load node_policyTree hFilter, hAt, walk_policyTree, Except.bind, value_addSteps]
  simp only [List.foldlM_cons, List.foldlM_nil, mapError_ok, Except.bind, bind,
    value_addFile_other hMode hManifestFile hManifestName.1 hManifestName.2,
    value_addFile_module hPolicyFile hPolicyName, textOf_eq_ok_iff.mpr (Text.ofUtf8?_utf8 text),
    hModule]
  rfl

/-- Where a module of one rule stands under a manifest. -/
def allowingUnder (text : String) : Surroundings :=
  ⟨policyTree (Text.utf8 text) (Text.utf8 allowing.source), .default⟩

/-- The bundle of that module under a manifest that says nothing but the roots. -/
theorem bundleOf?_allowing {text : String} {roots : List String}
    (hManifest : (Manifest.ofJson (Text.utf8 text)).toOption.map
      (fun read => (read.roots, read.dialectValue)) = some (some roots, none)) :
    ∃ read, read.roots = some roots ∧ bundleOf? (allowingUnder text) bundling (.path "b") =
      some ⟨read, [allowing], Json.emptyObject⟩ := by
  obtain ⟨read, hRead, hFields⟩ := Option.map_eq_some_iff.mp hManifest
  obtain ⟨hRoots, hNone⟩ := Prod.mk.inj hFields
  have hDialect : read.dialect?.getD (loaderOf (allowingUnder text) bundling).dialect =
      .undefined := by
    rw [Manifest.dialect?, hNone]
    rfl
  have hModule : moduleOf true .undefined "p.rego" allowing.source = .ok allowing := by
    decide +kernel
  refine ⟨read, hRoots, toOption_eq_some_iff.mpr ?_⟩
  exact value_load_policyDirectory rfl rfl (toOption_eq_some_iff.mp hRead) (hDialect ▸ hModule)

/-- A build of that module succeeds, whatever the manifest says. -/
theorem run_allowing {around : Surroundings} {request : Request} {read : Manifest}
    (hBundle : bundleOf? around bundling request = some ⟨read, [allowing], Json.emptyObject⟩) :
    ∃ output,
      (run around (bundleCompiler around) bundling request).outcome.value = .ok output := by
  have hCheck : check Capability.current [allowing] = [] := by decide +kernel
  generalize hConfig : configOf bundling (.bundle ⟨read, [allowing], Json.emptyObject⟩) .shared
    (loaderOf around bundling).filter = config
  have hResolve : (resolveEntrypoints config [allowing]).outcome.value = .ok [] := by
    rw [← hConfig]
    rfl
  have hKept : kept config [] [allowing] = [allowing] := by
    rw [← hConfig]
    rfl
  obtain ⟨pack, hRun, -⟩ := run_of_writable hBundle rfl rfl rfl hConfig hCheck hResolve
    (by rw [← hConfig]; rfl) hKept (by simpa using writable_allowing)
  exact ⟨pack.finish, hRun⟩

/-- Whether the manifest owns the module of one rule. -/
theorem owned_allowing_iff {read : Manifest} {roots : List String} (hRoots : read.roots = some roots)
    (data : Json) : Owned ⟨read, [allowing], data⟩ ↔ roots.any (Manifest.rootOwns · "p") = true := by
  have hPackage : Text.replace '.' '/' allowing.package = "p" := by decide
  simp only [Owned, List.forall_mem_singleton, hPackage, Manifest.owns, hRoots]

end Policy

/-- A directory and its archive build alike exactly if a build of the directory that succeeds has no
module of which the package lies outside of the roots of the manifest. -/
theorem buildsAlike_iff {around : Surroundings} {parameters : Parameters} {dir : String}
    {entries : List (String × Node)} (h : DirectoryBuild around parameters dir entries) :
    BuildsAlike around parameters dir ↔
      ∀ bundle output, bundleOf? around parameters (.path dir) = some bundle →
        (run around (bundleCompiler around) parameters (.path dir)).outcome.value = .ok output →
          Owned bundle := by
  constructor
  · exact fun hAlike bundle output hBundle hPath => hAlike.owned h hBundle hPath
  · intro hOwned
    obtain ⟨archive, hArchive, hOutput⟩ := h.run_archive_eq_ok_iff
    refine ⟨archive, hArchive, congrArg (Option.map _) (Option.ext fun output => ?_)⟩
    rw [toOption_eq_some_iff, toOption_eq_some_iff, hOutput]
    exact ⟨And.left, fun hPath =>
      ⟨hPath, fun bundle hBundle => hOwned bundle output hBundle hPath⟩⟩

/-- A module inside of the roots is built alike from its directory and from the archive. -/
theorem buildsAlike_iff_ownRoot :
    let around := allowingUnder "\x7b\"roots\":[\"p\"]\x7d"
    DirectoryBuild around bundling "b" (policyDirectory (Text.utf8 "\x7b\"roots\":[\"p\"]\x7d")
      (Text.utf8 allowing.source)) ∧ BuildsAlike around bundling "b" := by
  intro around
  have hBuild := directoryBuild_policyDirectory
    (by decide : (Text.utf8 "\x7b\"roots\":[\"p\"]\x7d").length ≤ 256)
    (by decide : (Text.utf8 allowing.source).length ≤ 256)
  obtain ⟨read, hRoots, hBundle⟩ := bundleOf?_allowing
    (by decide +kernel : (Manifest.ofJson (Text.utf8 "\x7b\"roots\":[\"p\"]\x7d")).toOption.map
      (fun read => (read.roots, read.dialectValue)) = some (some ["p"], none))
  refine ⟨hBuild, (buildsAlike_iff hBuild).mpr fun bundle output hOther _ => ?_⟩
  obtain rfl := Option.some.inj (hBundle.symm.trans hOther)
  exact (owned_allowing_iff hRoots _).mpr (by decide)

/-- A module outside of the roots is built from its directory, and not from the archive. -/
theorem not_buildsAlike_otherRoot :
    let around := allowingUnder "\x7b\"roots\":[\"q\"]\x7d"
    DirectoryBuild around bundling "b" (policyDirectory (Text.utf8 "\x7b\"roots\":[\"q\"]\x7d")
      (Text.utf8 allowing.source)) ∧ ¬BuildsAlike around bundling "b" := by
  intro around
  have hBuild := directoryBuild_policyDirectory
    (by decide : (Text.utf8 "\x7b\"roots\":[\"q\"]\x7d").length ≤ 256)
    (by decide : (Text.utf8 allowing.source).length ≤ 256)
  obtain ⟨read, hRoots, hBundle⟩ := bundleOf?_allowing
    (by decide +kernel : (Manifest.ofJson (Text.utf8 "\x7b\"roots\":[\"q\"]\x7d")).toOption.map
      (fun read => (read.roots, read.dialectValue)) = some (some ["q"], none))
  obtain ⟨output, hPath⟩ := run_allowing hBundle
  refine ⟨hBuild, fun hAlike => ?_⟩
  have hOwned := (owned_allowing_iff hRoots _).mp (hAlike.owned hBuild hBundle hPath)
  revert hOwned
  decide

end PolicyBundle.Build
