import PolicyBundle.Proofs.Boundary.Clients
import PolicyBundle.Proofs.Build.DirectoryBuild

/-! The text of a policy builds like a directory that holds it. The client wraps the text into an archive
and asks for a bundle, and a directory is walked for the file; both are read as the same module, and the
compiler is told nothing else that it makes use of. -/

namespace PolicyBundle.Boundary

open PolicyBundle.Bundle Files Log

section Module

/-- The bundle of a policy, where the text is a module. -/
def policyBundle? (dialect : Policy.Dialect) (text : String) : Option Bundle :=
  (moduleOf true dialect policyName text).toOption.map fun m => ⟨.empty, [m], Json.emptyObject⟩

theorem writable_policyName : EntryPath.Writable policyName :=
  ⟨by decide +kernel, by decide +kernel, by decide +kernel⟩

theorem dirAndName_policyName : (Text.dirAndName policyName).2 = policyName := by
  decide

theorem isModuleName_policyName : isModuleName policyName = true := by
  decide

theorem isArchiveName_policyName : isArchiveName policyName = false := by
  decide

theorem normalize_policyName : EntryPath.normalize policyName = policyName := by
  decide +kernel

theorem addEntry_policy (dialect : Policy.Dialect) (text : String) :
    (addEntry true dialect empty ⟨policyName, Text.utf8 text⟩).toOption =
      policyBundle? dialect text := by
  have hOwned (path : String) : empty.manifest.owns path = true := by
    simp [empty, Manifest.empty, Manifest.owns]
  simp only [addEntry, dirAndName_policyName, isModuleName_policyName, if_true, Text.ofUtf8?_utf8, policyBundle?, bind,
    Except.bind, hOwned]
  cases moduleOf true dialect policyName text <;> rfl

/-- The archive of a policy is read as its module. -/
theorem read_policy {pack : Archive.Pack} {text : String}
    (hHolds : Holds pack [⟨policyName, Text.utf8 text⟩]) {options : ReadOptions}
    (hAnnotations : options.annotations = true) (hFits : pack.toArchive.length < Nat.pow 2 64)
    (hTotal : (Text.utf8 text).length ≤ options.maxBytes) (hEntries : 1 ≤ options.maxEntries) :
    (read options pack.finish).outcome.value.toOption = policyBundle? options.dialect text := by
  have hManifest : policyName ≠ manifestName := by decide
  have hNone : manifestOf [⟨policyName, Text.utf8 text⟩] = .ok .empty := by
    simp [manifestOf, hManifest]
  rw [hHolds.value_read (by simpa using fun _ => writable_policyName.hasParent_eq_false) hFits
    (by simpa using hTotal) (by simpa using hEntries)]
  simp only [List.map_singleton, named_of_normalize normalize_policyName, hNone, Except.bind,
    hAnnotations, List.foldlM_cons, List.foldlM_nil, bind_pure]
  exact addEntry_policy options.dialect text

theorem proper_policyName : Proper policyName :=
  ⟨by decide, by decide, by decide, by decide, by decide, by decide⟩

variable {tree : Tree} {dir : String} {location : Location} {entries : List (String × Node)}
  {links : Nat} {loader : Source.Loader} {text : String}

/-- A directory with the file of a policy is loaded as its module. -/
theorem load_policy (h : tree.node false dir = .ok (location, .dir entries, links))
    (hAlone : Alone policyName (Text.utf8 text) entries) (hMode : loader.bundleMode = false)
    (hIgnore : loader.filter.ignore = []) (hAnnotations : loader.annotations = true) :
    (loader.load tree dir).outcome.value.toOption = policyBundle? loader.dialect text := by
  rw [toOption_load_alone h hAlone proper_policyName (by decide) isModuleName_policyName
    isArchiveName_policyName hMode hIgnore, hAnnotations, policyBundle?]

end Module

/-- A directory holds a policy: the policy is its only file. -/
def HoldsPolicy (tree : Tree) (dir text : String) : Prop :=
  ∃ location entries links, tree.node false dir = .ok (location, .dir entries, links) ∧
    Alone policyName (Text.utf8 text) entries

/-- A text is within the limits for bundles: those of a reader, and the length that can be declared of
the archive that the text becomes. -/
structure TextFits (settings : Settings) (text : String) : Prop where
  bytes : (Text.utf8 text).length ≤ settings.maxBytes
  entries : 1 ≤ settings.maxEntries
  declared : ∀ bundle, archive (writeEntry policyName (Text.utf8 text)) = .ok bundle →
    bundle.length ≤ maxLength

section Build

variable {around : Build.Surroundings} {text : String} {pack : Archive.Pack}

/-- The archive that a text becomes. -/
theorem exists_archive_policy (text : String) :
    ∃ pack, archive (writeEntry policyName (Text.utf8 text)) = .ok pack.finish ∧
      Holds pack [⟨policyName, Text.utf8 text⟩] ∧
        pack.toArchive.length ≤
          Entry.room ⟨policyName, Text.utf8 text⟩ + 2 * Archive.blockSize := by
  obtain ⟨pack, hArchive, hRun, hSize⟩ :=
    (fits_entry writable_policyName (Text.utf8 text)).archive
  exact ⟨pack, hArchive, writes_entry _ _ .empty pack [] hRun Holds.empty, hSize⟩

theorem bundleOf?_archive (hHolds : Holds pack [⟨policyName, Text.utf8 text⟩])
    (hArchive : archive (writeEntry policyName (Text.utf8 text)) = .ok pack.finish)
    (hFits : TextFits around.settings text) (parameters : Build.Parameters) :
    Build.bundleOf? around parameters (.bytes pack.finish) =
      policyBundle? parameters.dialect text := by
  have hLength := (Archive.length_encode pack.toArchive).1
  have hDeclared : pack.finish.length ≤ maxLength := hFits.declared _ hArchive
  have hMax : maxLength < Nat.pow 2 64 := by decide
  have hShort : pack.toArchive.length < Nat.pow 2 64 :=
    lt_of_le_of_lt (hLength.trans hDeclared) hMax
  exact read_policy hHolds rfl hShort hFits.bytes hFits.entries

/-- The same is built of the archive of a policy, taken for a bundle, as of a directory that holds the
policy. -/
theorem run_policy_eq_ok_iff {dir : String} (hHolds : Holds pack [⟨policyName, Text.utf8 text⟩])
    (hArchive : archive (writeEntry policyName (Text.utf8 text)) = .ok pack.finish)
    (hFits : TextFits around.settings text) (hDirectory : HoldsPolicy around.files dir text)
    {parameters : Build.Parameters} (hMode : parameters.bundleMode = false)
    (hIgnore : parameters.ignore = []) {output : Bytes} :
    (Build.run around (Build.bundleCompiler around) { parameters with bundleMode := true }
        (.bytes pack.finish)).outcome.value = .ok output ↔
      (Build.run around (Build.bundleCompiler around) parameters (.path dir)).outcome.value =
        .ok output := by
  obtain ⟨location, entries, links, hNode, hAlone⟩ := hDirectory
  have hNone : (Build.loaderOf around parameters).filter.ignore = [] := by
    rw [Build.loaderOf, Build.value_filterOf hIgnore]
  have hLoad : Build.bundleOf? around parameters (.path dir) = policyBundle? parameters.dialect text :=
    load_policy hNode hAlone hMode hNone rfl
  rw [Build.run_eq_ok_iff, Build.run_eq_ok_iff, bundleOf?_archive hHolds hArchive hFits, hLoad]
  rfl

end Build

/-- The text of a policy builds like the directory at a path, whatever a client asks for that is no bundle
and has no ignore patterns: both builds fail, or both succeed with the same output. -/
def BuildsLikeText (around : Build.Surroundings) (path text : String) : Prop :=
  ∀ p : ClientParameters, p.isBundle = false → p.ignore = [] →
    (compileSource around text p).toOption = (compilePath around path p).toOption

section Clients

variable {around : Build.Surroundings} {p : ClientParameters}

/-- A client gets the output of a build, where it can be handed over. -/
theorem received_eq_ok_iff {built : Except Build.Error Bytes} {output : Bytes} :
    received built = .ok output ↔ built = .ok output ∧ handOver output = .ok output := by
  cases built with
  | error e => simp [received]
  | ok made =>
      rw [received]
      cases hHanded : handOver made with
      | error fault =>
          constructor
          · intro hSame
            cases hSame
          · rintro ⟨hSame, hOutput⟩
            rw [Except.ok.inj hSame, hOutput] at hHanded
            cases hHanded
      | ok handed =>
          obtain rfl := (handOver_eq_ok_iff.mp hHanded).1
          constructor
          · intro hSame
            obtain rfl := Except.ok.inj hSame
            exact ⟨rfl, hHanded⟩
          · rintro ⟨hSame, -⟩
            exact congrArg Except.ok (Except.ok.inj hSame)

/-- What a client gets an output for. -/
theorem bind_record_eq_ok_iff {forceBundle : Bool} {request : Build.Request} {output : Bytes} :
    ((p.record around.files forceBundle).bind fun record =>
      received (Build.run around (Build.bundleCompiler around) record.parameters
        request).outcome.value) = .ok output ↔
      ∃ document, p.Crosses around.files document ∧ p.countFault? = none ∧
        received (Build.run around (Build.bundleCompiler around) (p.meant document forceBundle)
          request).outcome.value = .ok output := by
  rw [bind_eq_ok_iff]
  constructor
  · rintro ⟨record, hRecord, hReceived⟩
    obtain ⟨document, hCrosses, hCount, rfl⟩ := ClientParameters.record_eq_ok_iff.mp hRecord
    rw [hCrosses.parameters_recordOf] at hReceived
    exact ⟨document, hCrosses, hCount, hReceived⟩
  · rintro ⟨document, hCrosses, hCount, hReceived⟩
    refine ⟨p.recordOf document forceBundle,
      ClientParameters.record_eq_ok_iff.mpr ⟨document, hCrosses, hCount, rfl⟩, ?_⟩
    rwa [hCrosses.parameters_recordOf]

theorem compileSource_eq {pack : Archive.Pack} {text : String}
    (hArchive : archive (writeEntry policyName (Text.utf8 text)) = .ok pack.finish)
    (hFits : TextFits around.settings text) (hBundle : p.isBundle = false) :
    compileSource around text p = (p.record around.files true).bind fun record =>
      received (Build.run around (Build.bundleCompiler around) record.parameters
        (.bytes pack.finish)).outcome.value := by
  have hSame : { p with isBundle := false } = p := by
    rw [← hBundle]
  have hWrapped : bundleOf p (Text.utf8 text) = .ok pack.finish := by
    rw [bundleOf, hBundle, hArchive]
    rfl
  rw [compileSource, hSame]
  exact compileBytes_eq hWrapped (hFits.declared _ hArchive)

end Clients

/-- The text of a policy builds like a directory that holds it, wherever the path that is given leads to
the directory after it has been put in order. -/
theorem buildsLikeText_of_holds (around : Build.Surroundings) (path text : String)
    (hDirectory : HoldsPolicy around.files (normalizePath path) text)
    (hFits : TextFits around.settings text) : BuildsLikeText around path text := by
  intro p hBundle hIgnore
  obtain ⟨pack, hArchive, hHolds, -⟩ := exists_archive_policy text
  have hUsable : Tree.Usable (normalizePath path) := by
    obtain ⟨location, entries, links, hNode, -⟩ := hDirectory
    exact (Tree.resolve_eq_ok (Tree.node_eq_ok_iff.mp hNode)).1
  apply Option.ext
  intro output
  rw [toOption_eq_some_iff, toOption_eq_some_iff, compileSource_eq hArchive hFits hBundle,
    compilePath_eq hUsable.noZero hUsable.nonempty, bind_record_eq_ok_iff, bind_record_eq_ok_iff]
  refine exists_congr fun document => and_congr_right fun hCrosses => and_congr_right fun hCount => ?_
  have hMode : (p.meant document false).bundleMode = false := hBundle
  have hNone : (p.meant document false).ignore = [] := by
    rw [ClientParameters.meant, hIgnore]
    rfl
  rw [received_eq_ok_iff, received_eq_ok_iff,
    ← run_policy_eq_ok_iff hHolds hArchive hFits hDirectory hMode hNone]
  rfl

section Policy

/-- A policy of one rule. -/
def policy : Policy.Module := { Build.allowing with path := policyName }

/-- A process in a directory that holds the policy. -/
def inside : Build.Surroundings :=
  ⟨⟨.dir [("work", .dir [(policyName, .file (Text.utf8 policy.source))])], ["work"]⟩, .default⟩

theorem alone_policy :
    Alone policyName (Text.utf8 policy.source) [(policyName, .file (Text.utf8 policy.source))] :=
  alone_singleton proper_policyName _

theorem holdsPolicy_of_dots {path : String} (hUsable : Tree.Usable path)
    (hStart : inside.files.start path = ["work"])
    (hDots : ∀ segment ∈ segments path, segment = "" ∨ segment = ".") :
    HoldsPolicy inside.files path policy.source := by
  have hPlace : inside.files.root.at? (inside.files.start path) =
      some (.dir [(policyName, .file (Text.utf8 policy.source))]) := by
    rw [hStart]
    rfl
  exact ⟨_, _, _, Tree.node_of_dots hUsable hPlace hDots, alone_policy⟩

/-- Both ways to write the current directory lead to it. -/
theorem holdsPolicy_inside :
    HoldsPolicy inside.files "." policy.source ∧ HoldsPolicy inside.files "./" policy.source :=
  ⟨holdsPolicy_of_dots ⟨by decide, by decide, by decide⟩ rfl (by decide),
    holdsPolicy_of_dots ⟨by decide, by decide, by decide⟩ rfl (by decide)⟩

/-- An archive of a few blocks is within the length that can be told. -/
theorem length_finish_le {pack : Archive.Pack} (h : pack.toArchive.length ≤ 16384) :
    pack.finish.length ≤ maxLength := by
  have hMax : maxLength = 2147483647 := rfl
  have hStored : Archive.Gzip.maxStored = 65535 := rfl
  have hLength := (Archive.length_encode pack.toArchive).2
  rw [hStored] at hLength
  rw [Archive.Pack.finish]
  omega

/-- The policy is small. -/
theorem textFits_policy : TextFits inside.settings policy.source := by
  have hRoom : Entry.room ⟨policyName, Text.utf8 policy.source⟩ + 2 * Archive.blockSize ≤ 16384 := by
    decide +kernel
  refine ⟨by decide +kernel, by decide, fun bundle hBundle => ?_⟩
  obtain ⟨pack, hArchive, -, hSize⟩ := exists_archive_policy policy.source
  obtain rfl := Except.ok.inj (hArchive.symm.trans hBundle)
  exact length_finish_le (hSize.trans hRoom)

/-- The archive of the policy is built. -/
theorem exists_run_policy {source : Archive.Pack}
    (hArchive : archive (writeEntry policyName (Text.utf8 policy.source)) = .ok source.finish)
    (hHolds : Holds source [⟨policyName, Text.utf8 policy.source⟩]) :
    ∃ pack : Archive.Pack, (Build.run inside (Build.bundleCompiler inside)
        (ClientParameters.default.meant none true) (.bytes source.finish)).outcome.value =
          .ok pack.finish ∧
      pack.toArchive.length ≤ 16384 := by
  have hModule : moduleOf true .undefined policyName policy.source = .ok policy := by
    decide +kernel
  have hBundle : Build.bundleOf? inside (ClientParameters.default.meant none true)
      (.bytes source.finish) = some ⟨.empty, [policy], Json.emptyObject⟩ := by
    rw [bundleOf?_archive hHolds hArchive textFits_policy]
    exact congrArg (fun m => m.toOption.map fun m => (⟨.empty, [m], Json.emptyObject⟩ : Bundle)) hModule
  generalize hConfig : Build.configOf (ClientParameters.default.meant none true)
    (.bundle ⟨.empty, [policy], Json.emptyObject⟩) .shared
    (Build.loaderOf inside (ClientParameters.default.meant none true)).filter = config
  have hResolve : (Build.resolveEntrypoints config [policy]).outcome.value = .ok [] := by
    rw [← hConfig]
    rfl
  have hKept : Build.kept config [] [policy] = [policy] := by
    rw [← hConfig]
    rfl
  have hRoom : Build.roomFor config .rego [] ⟨.empty, [policy], Json.emptyObject⟩ ≤ 12288 := by
    rw [← hConfig]
    decide +kernel
  obtain ⟨pack, hRun, -, hSize⟩ := Build.run_of_writable hBundle rfl rfl rfl hConfig
    (by decide +kernel) hResolve (by rw [← hConfig]; rfl) hKept
    (List.forall_mem_singleton.mpr writable_policyName)
  exact ⟨pack, hRun, (hSize.trans (Nat.add_le_add_right hRoom _)).trans (by decide)⟩

/-- The policy is built from its text. -/
theorem exists_compileSource_policy :
    ∃ output, compileSource inside policy.source .default = .ok output := by
  obtain ⟨source, hArchive, hHolds, -⟩ := exists_archive_policy policy.source
  obtain ⟨pack, hRun, hSmall⟩ := exists_run_policy hArchive hHolds
  have hCrosses : ClientParameters.default.Crosses inside.files none :=
    ⟨rfl, by decide, by decide, by decide, nofun, nofun, nofun⟩
  have hHanded : handOver pack.finish = .ok pack.finish :=
    handOver_eq_ok_iff.mpr
      ⟨rfl, List.length_pos_iff.mpr (finish_nonempty pack), length_finish_le hSmall⟩
  refine ⟨pack.finish, ?_⟩
  rw [compileSource_eq hArchive textFits_policy rfl, bind_record_eq_ok_iff]
  exact ⟨none, hCrosses, by decide, received_eq_ok_iff.mpr ⟨hRun, hHanded⟩⟩

/-- The policy is built from the directory that holds it. -/
theorem exists_run_directory :
    ∃ output, (Build.run inside (Build.bundleCompiler inside)
      (ClientParameters.default.meant none false) (.path ".")).outcome.value = .ok output := by
  obtain ⟨source, hArchive, hHolds, -⟩ := exists_archive_policy policy.source
  obtain ⟨pack, hRun, -⟩ := exists_run_policy hArchive hHolds
  exact ⟨pack.finish, (run_policy_eq_ok_iff hHolds hArchive textFits_policy holdsPolicy_inside.1
    rfl rfl).mp hRun⟩

end Policy

/-- The policy builds like the current directory, which holds it, and it is built. -/
theorem buildsLikeText_of_holds_inside :
    (HoldsPolicy inside.files (normalizePath ".") policy.source ∧
      TextFits inside.settings policy.source) ∧
    BuildsLikeText inside "." policy.source ∧
    ∃ output, compilePath inside "." .default = .ok output := by
  have hDirectory : HoldsPolicy inside.files (normalizePath ".") policy.source :=
    holdsPolicy_inside.1
  have hAlike := buildsLikeText_of_holds inside "." policy.source hDirectory textFits_policy
  obtain ⟨output, hOutput⟩ := exists_compileSource_policy
  refine ⟨⟨hDirectory, textFits_policy⟩, hAlike, output, ?_⟩
  rw [← toOption_eq_some_iff, ← hAlike .default rfl rfl, hOutput]
  rfl

/-- Written with a slash behind it, the current directory is not built like the policy that it holds: of
its path nothing is left, and that is refused. -/
theorem not_buildsLikeText_currentDirectory :
    (HoldsPolicy inside.files "./" policy.source ∧ TextFits inside.settings policy.source) ∧
      ¬ BuildsLikeText inside "./" policy.source := by
  refine ⟨⟨holdsPolicy_inside.2, textFits_policy⟩, fun hAlike => ?_⟩
  obtain ⟨output, hOutput⟩ := exists_compileSource_policy
  have hSame := hAlike .default rfl rfl
  rw [hOutput, compilePath_of_nothing (by decide) (by decide)] at hSame
  cases hSame

end PolicyBundle.Boundary
