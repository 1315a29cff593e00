import PolicyBundle.Proofs.Source.Directories

/-! The loader takes each file of a bundle directory as the reader takes the entry for it, but for one
thing: it does not ask whether the manifest owns the package of a module. So the bundle that is read
from the archive of a directory is the one that is loaded from the directory, if the manifest owns all
of its modules, and there is none otherwise. -/

namespace PolicyBundle.Bundle

open Files Log Source

/-- The manifest owns the packages of all modules. -/
def Owned (bundle : Bundle) : Prop :=
  ∀ m ∈ bundle.modules, bundle.manifest.owns (Text.replace '.' '/' m.package) = true

theorem isCollected_iff (name : String) :
    isCollected name = true ↔ isModuleName name = true ∨ name = dataName ∨
      name = "data.yaml" ∨ name = "policy.wasm" ∨ name = manifestName := by
  simp [isCollected]

section File

variable {loader : Loader} {dialect : Policy.Dialect} {bundle next : Bundle} {found : Found}

theorem relativePath_regular (hRegular : Regular found) :
    Loader.relativePath found = found.relative := by
  have hSome : found.relative.isEmpty = false := by
    simpa using hRegular.nonempty
  rw [Loader.relativePath, hSome, hRegular.slashed]
  rfl

theorem textOf_eq_ok_iff {path : String} {contents : Bytes} {text : String} :
    Loader.textOf path contents = .ok text ↔ Text.ofUtf8? contents = some text := by
  rw [Loader.textOf, Tree.textOf]
  cases Text.ofUtf8? contents with
  | none => simp
  | some found => simp

/-- A document has a value exactly if its bytes have: they are text then. -/
theorem documentOf_eq_ok_iff {path relative : String} {contents : Bytes} {value : Json} :
    Loader.documentOf path relative contents = .ok value ↔ Json.parse contents = .ok value := by
  simp only [Loader.documentOf, bind, Except.bind]
  cases hText : Text.ofUtf8? contents with
  | none =>
      rw [Loader.textOf, Tree.textOf, hText]
      constructor
      · intro h
        cases h
      · intro h
        obtain ⟨text, hSome⟩ := Text.isText_iff.mp (Json.isText_of_parse h)
        rw [hText] at hSome
        cases hSome
  | some text =>
      obtain rfl := Text.ofUtf8?_eq_some_iff.mp hText
      rw [textOf_eq_ok_iff.mpr hText]
      simp only [Json.parseText]
      cases Json.parse (Text.utf8 text) <;> simp

theorem mount_eq_ok_iff {relative : String} {path : List String} {value : Json} :
    Loader.mount bundle relative path value = .ok next ↔
      ∃ data, DataTree.mount bundle.data path value = (data, none) ∧
        next = { bundle with data } := by
  rw [Loader.mount]
  rcases DataTree.mount bundle.data path value with ⟨data, conflict⟩
  cases conflict with
  | none => simp [eq_comm]
  | some place => simp

/-- A module that is loaded. -/
theorem value_addFile_module (hRegular : Regular found)
    (hName : isModuleName (fileName found.path) = true) :
    (loader.addFile dialect bundle found).outcome.value =
      (Loader.textOf found.path found.contents).bind fun source =>
        ((moduleOf loader.annotations dialect found.relative source).mapError .parse).bind fun m =>
          .ok { bundle with modules := bundle.modules ++ [m] } := by
  simp only [Loader.addFile, relativePath_regular hRegular, hRegular.name, hName, if_true,
    Attempt.value_bind, Attempt.value_quiet, Attempt.value_lift]
  rfl

/-- A data document that is loaded. -/
theorem value_addFile_data (hMode : loader.bundleMode = true) (hRegular : Regular found)
    (hName : fileName found.path = dataName) :
    (loader.addFile dialect bundle found).outcome.value =
      (Loader.documentOf found.path found.relative found.contents).bind fun value =>
        Loader.mount bundle found.relative
          (DataTree.pathOf (Text.dirAndName found.relative).1) value := by
  have hModule : isModuleName dataName = false := by decide
  have hArchive : isArchiveName dataName = false := by decide
  simp only [Loader.addFile, relativePath_regular hRegular, hRegular.name, hName, hModule, hArchive,
    hMode, decide_true, Bool.and_self, Bool.false_eq_true, if_false, if_true]
  rfl

/-- A file of another kind is passed over. -/
theorem value_addFile_other (hMode : loader.bundleMode = true) (hRegular : Regular found)
    (hModule : isModuleName (fileName found.path) = false)
    (hData : fileName found.path ≠ dataName) :
    (loader.addFile dialect bundle found).outcome.value = .ok bundle := by
  simp only [Loader.addFile, relativePath_regular hRegular, hRegular.name, hModule,
    hRegular.noArchive, hMode, hData, decide_false, Bool.and_false, Bool.not_true, Bool.false_and,
    Bool.false_eq_true, if_false]
  rfl

/-- All that a file of a directory can do to a bundle. -/
inductive Loads (annotations : Bool) (dialect : Policy.Dialect) (bundle : Bundle) (found : Found) :
    Bundle → Prop where
  | module {source : String} {m : Policy.Module}
      (hName : isModuleName (fileName found.path) = true)
      (hText : Text.ofUtf8? found.contents = some source)
      (hModule : moduleOf annotations dialect found.relative source = .ok m) :
      Loads annotations dialect bundle found { bundle with modules := bundle.modules ++ [m] }
  | data {value data : Json} (hName : isModuleName (fileName found.path) = false)
      (hData : fileName found.path = dataName) (hValue : Json.parse found.contents = .ok value)
      (hMount : DataTree.mount bundle.data (DataTree.pathOf (Text.dirAndName found.relative).1) value =
        (data, none)) :
      Loads annotations dialect bundle found { bundle with data := data }
  | other (hName : isModuleName (fileName found.path) = false)
      (hData : fileName found.path ≠ dataName) : Loads annotations dialect bundle found bundle

theorem addFile_eq_ok_iff (hMode : loader.bundleMode = true) (hRegular : Regular found) :
    (loader.addFile dialect bundle found).outcome.value = .ok next ↔
      Loads loader.annotations dialect bundle found next := by
  constructor
  · intro h
    by_cases hModule : isModuleName (fileName found.path) = true
    · rw [value_addFile_module hRegular hModule] at h
      obtain ⟨source, hText, h⟩ := bind_eq_ok h
      obtain ⟨m, hRead, h⟩ := bind_eq_ok h
      obtain rfl := Except.ok.inj h
      exact .module hModule (textOf_eq_ok_iff.mp hText) (mapError_eq_ok hRead)
    · rw [Bool.not_eq_true] at hModule
      by_cases hData : fileName found.path = dataName
      · rw [value_addFile_data hMode hRegular hData] at h
        obtain ⟨value, hDocument, h⟩ := bind_eq_ok h
        obtain ⟨data, hMount, rfl⟩ := mount_eq_ok_iff.mp h
        exact .data hModule hData (documentOf_eq_ok_iff.mp hDocument) hMount
      · rw [value_addFile_other hMode hRegular hModule hData] at h
        obtain rfl := Except.ok.inj h
        exact .other hModule hData
  · intro h
    cases h with
    | module hName hText hModule =>
        rw [value_addFile_module hRegular hName, textOf_eq_ok_iff.mpr hText, Except.bind, hModule]
        rfl
    | data hName hData hValue hMount =>
        rw [value_addFile_data hMode hRegular hData, documentOf_eq_ok_iff.mpr hValue, Except.bind]
        exact mount_eq_ok_iff.mpr ⟨_, hMount, rfl⟩
    | other hName hData => exact value_addFile_other hMode hRegular hName hData

variable {annotations : Bool}

/-- A file adds modules, and leaves the manifest as it is. -/
theorem Loads.grows (h : Loads annotations dialect bundle found next) :
    next.manifest = bundle.manifest ∧ bundle.modules ⊆ next.modules := by
  cases h with
  | module => exact ⟨rfl, List.subset_append_left _ _⟩
  | data => exact ⟨rfl, List.Subset.refl _⟩
  | other => exact ⟨rfl, List.Subset.refl _⟩

/-- A regular file is taken alike from an archive and from a directory, except that the archive is
held to the roots. -/
theorem takes_iff_loads (hRegular : Regular found) (hOwned : Owned bundle) :
    Takes annotations dialect bundle ⟨found.relative, found.contents⟩ next ↔
      Loads annotations dialect bundle found next ∧ Owned next := by
  constructor
  · intro hTakes
    cases hTakes with
    | module hName hText hModule hNew =>
        refine ⟨.module (hRegular.name ▸ hName) hText hModule, fun m hm => ?_⟩
        rcases List.mem_append.mp hm with hm | hm
        · exact hOwned m hm
        · rwa [List.mem_singleton.mp hm]
    | data hName hData hValue hMount =>
        exact ⟨.data (hRegular.name ▸ hName) (hRegular.name ▸ hData) hValue hMount, hOwned⟩
    | other hName hData =>
        exact ⟨.other (hRegular.name ▸ hName) (hRegular.name ▸ hData), hOwned⟩
  · rintro ⟨hLoads, hNext⟩
    cases hLoads with
    | module hName hText hModule =>
        exact .module (hRegular.name.symm ▸ hName) hText hModule
          (hNext _ (List.mem_append_right _ List.mem_cons_self))
    | data hName hData hValue hMount =>
        exact .data (hRegular.name.symm ▸ hName) (hRegular.name.trans hData) hValue hMount
    | other hName hData =>
        exact .other (hRegular.name.symm ▸ hName) (hRegular.name.symm ▸ hData)

theorem foldlM_collectedOf_eq_ok_iff (hMode : loader.bundleMode = true) (hRegular : Regular found)
    (hOwned : Owned bundle) :
    (collectedOf (.ok found)).foldlM (addEntry loader.annotations dialect) bundle = .ok next ↔
      (loader.addFile dialect bundle found).outcome.value = .ok next ∧ Owned next := by
  rw [addFile_eq_ok_iff hMode hRegular, ← takes_iff_loads hRegular hOwned, ← addEntry_eq_ok_iff,
    collectedOf]
  split
  · rw [List.foldlM_cons]
    cases addEntry loader.annotations dialect bundle ⟨found.relative, found.contents⟩ <;> rfl
  · rename_i hForeign
    simp only [isCollected_iff, not_or, Bool.not_eq_true] at hForeign
    obtain ⟨hModule, hData, -⟩ := hForeign
    rw [addEntry_eq_ok_iff.mpr (.other (by rwa [hRegular.name]) (by rwa [hRegular.name]))]
    rfl

end File

section Steps

variable {loader : Loader} {dialect : Policy.Dialect} {bundle last : Bundle}

theorem value_addSteps (loader : Loader) (dialect : Policy.Dialect) (bundle : Bundle)
    (steps : Steps) : (loader.addSteps dialect bundle steps).outcome.value =
      steps.foldlM (fun bundle step => (step.mapError Source.Error.walk).bind fun found =>
        (loader.addFile dialect bundle found).outcome.value) bundle := by
  apply Attempt.value_foldlM
  intro bundle step
  simp only [Attempt.value_bind, Attempt.value_quiet]

theorem addSteps_grows (hMode : loader.bundleMode = true) {steps : Steps} (hSteps : AllRegular steps)
    (h : (loader.addSteps dialect bundle steps).outcome.value = .ok last) :
    last.manifest = bundle.manifest ∧ bundle.modules ⊆ last.modules := by
  rw [value_addSteps] at h
  refine foldlM_invariant (motive := fun b => b.manifest = bundle.manifest ∧
    bundle.modules ⊆ b.modules) ⟨rfl, List.Subset.refl _⟩ ?_ h
  rintro step hStep s t ⟨hManifest, hModules⟩ hAdded
  obtain ⟨found, rfl, hRegular⟩ := hSteps step hStep
  obtain ⟨hSame, hMore⟩ := ((addFile_eq_ok_iff hMode hRegular).mp hAdded).grows
  exact ⟨hSame.trans hManifest, fun m hm => hMore (hModules hm)⟩

/-- The files of a walk are taken alike from the directory and from its archive, except that the
archive is held to the roots. -/
theorem foldlM_collected_eq_ok_iff (hMode : loader.bundleMode = true) {steps : Steps}
    (hSteps : AllRegular steps) (hOwned : Owned bundle) :
    (collected steps).foldlM (addEntry loader.annotations dialect) bundle = .ok last ↔
      (loader.addSteps dialect bundle steps).outcome.value = .ok last ∧ Owned last := by
  induction steps generalizing bundle with
  | nil =>
      constructor
      · intro h
        obtain rfl := Except.ok.inj h
        exact ⟨rfl, hOwned⟩
      · rintro ⟨h, -⟩
        obtain rfl := Except.ok.inj h
        rfl
  | cons step steps ih =>
      obtain ⟨found, rfl, hRegular⟩ := hSteps step List.mem_cons_self
      have hRest : AllRegular steps :=
        fun other hOther => hSteps other (List.mem_cons_of_mem _ hOther)
      have hCons : collected (.ok found :: steps) = collectedOf (.ok found) ++ collected steps := rfl
      have hSteps : (loader.addSteps dialect bundle (.ok found :: steps)).outcome.value =
          (loader.addFile dialect bundle found).outcome.value.bind fun middle =>
            (loader.addSteps dialect middle steps).outcome.value := by
        simp only [value_addSteps, List.foldlM_cons]
        rfl
      rw [hCons, List.foldlM_append, hSteps]
      constructor
      · intro h
        obtain ⟨middle, hFirst, h⟩ := bind_eq_ok h
        obtain ⟨hAdded, hMiddle⟩ := (foldlM_collectedOf_eq_ok_iff hMode hRegular hOwned).mp hFirst
        obtain ⟨hLast, hOwnedLast⟩ := (ih hRest hMiddle).mp h
        refine ⟨?_, hOwnedLast⟩
        rw [hAdded]
        exact hLast
      · rintro ⟨h, hOwnedLast⟩
        obtain ⟨middle, hAdded, h⟩ := bind_eq_ok h
        obtain ⟨hManifest, hModules⟩ := addSteps_grows hMode hRest h
        have hMiddle : Owned middle :=
          fun m hm => hManifest ▸ hOwnedLast m (hModules hm)
        rw [(foldlM_collectedOf_eq_ok_iff hMode hRegular hOwned).mpr ⟨hAdded, hMiddle⟩]
        exact (ih hRest hMiddle).mpr ⟨h, hOwnedLast⟩

end Steps

section Directory

variable {tree : Tree} {dir : String} {location : Location} {entries : List (String × Node)}
  {links : Nat}

theorem proper_manifestName : Proper manifestName :=
  ⟨by decide, by decide, by decide, by decide, by decide, by decide⟩

theorem allRegular_walk (h : tree.node false dir = .ok (location, .dir entries, links))
    (hDirectory : IsDirectory entries) (follow : Bool) :
    AllRegular (tree.walk follow keepAll dir) := by
  intro step hStep
  obtain ⟨found, rfl⟩ : ∃ found, step = .ok found := by
    rw [Tree.walk_eq h hDirectory.plain] at hStep
    exact exists_found hDirectory.plain hStep
  obtain ⟨front, last, hStands⟩ := (mem_walk_iff_stands h hDirectory.plain follow).mp hStep
  exact ⟨found, rfl, hStands.regular hDirectory⟩

/-- The manifest among the files of a walk is the one directly inside of the directory. -/
theorem mem_collected_manifest (h : tree.node false dir = .ok (location, .dir entries, links))
    (hDirectory : IsDirectory entries) {follow : Bool} {f : Entry} (hName : f.path = manifestName) :
    f ∈ collected (tree.walk follow keepAll dir) ↔
      entries.lookup manifestName = some (.file f.contents) := by
  rw [mem_collected_iff]
  constructor
  · rintro ⟨found, hFound, -, rfl⟩
    obtain ⟨front, last, hStands⟩ := (mem_walk_iff_stands h hDirectory.plain follow).mp hFound
    have hNames : front ++ [last] = [manifestName] := by
      rw [← split_join (by simp) (proper_of_at? hDirectory.plain hStands.place), ← hStands.relative]
      exact (congrArg (Text.split '/') hName).trans (by decide)
    have hPlace := hStands.place
    rw [hNames, Node.at?_dir_cons] at hPlace
    obtain ⟨child, hChild, hFile⟩ := Option.bind_eq_some_iff.mp hPlace
    rw [Node.at?_nil] at hFile
    rwa [Option.some.inj hFile] at hChild
  · intro hFile
    have hStands : Stands dir entries [] manifestName ⟨within dir manifestName, manifestName,
        f.contents⟩ := by
      refine ⟨?_, rfl, rfl⟩
      rw [List.nil_append, Node.at?_dir_cons, hFile]
      exact Node.at?_nil _
    refine ⟨_, (mem_walk_iff_stands h hDirectory.plain follow).mpr ⟨_, _, hStands⟩, ?_, ?_⟩
    · rw [hStands.fileName_eq hDirectory.plain]
      decide
    · rw [← hName]

/-- The manifest that is read from the archive of a directory. -/
theorem manifestOf_collected (h : tree.node false dir = .ok (location, .dir entries, links))
    (hDirectory : IsDirectory entries) (follow : Bool) {contents : Bytes}
    (hFile : entries.lookup manifestName = some (.file contents)) :
    manifestOf (collected (tree.walk follow keepAll dir)) =
      (Manifest.ofJson contents).mapError .manifest := by
  have hMem : ⟨manifestName, contents⟩ ∈ collected (tree.walk follow keepAll dir) :=
    (mem_collected_manifest h hDirectory rfl).mpr hFile
  rw [manifestOf]
  split
  · rename_i hNone
    exact absurd (List.find?_eq_none.mp hNone _ hMem) (by simp)
  · rename_i f hFound
    have hName : f.path = manifestName := by simpa using List.find?_some hFound
    have hOther :=
      (mem_collected_manifest h hDirectory hName).mp (List.mem_of_find?_eq_some hFound)
    rw [hFile] at hOther
    rw [Node.file.inj (Option.some.inj hOther)]

theorem manifestOf_collected_none (h : tree.node false dir = .ok (location, .dir entries, links))
    (hDirectory : IsDirectory entries) (follow : Bool)
    (hNone : ∀ contents, entries.lookup manifestName ≠ some (.file contents)) :
    manifestOf (collected (tree.walk follow keepAll dir)) = .ok .empty := by
  rw [manifestOf, List.find?_eq_none.mpr]
  intro f hf hName
  exact hNone _ ((mem_collected_manifest h hDirectory (by simpa using hName)).mp hf)

variable {loader : Loader}

/-- The manifest that is loaded from a directory. -/
theorem manifestAt_eq_ok_iff (hMode : loader.bundleMode = true)
    (h : tree.node false dir = .ok (location, .dir entries, links))
    (hShort : (join dir manifestName).utf8ByteSize ≤ 4095) {contents : Bytes}
    (hFile : entries.lookup manifestName = some (.file contents)) {manifest : Manifest} :
    loader.manifestAt tree dir = .ok manifest ↔ Manifest.ofJson contents = .ok manifest := by
  have hNode : tree.node true (join dir manifestName) =
      .ok (location ++ [manifestName], .file contents, links) := by
    rw [Tree.node_eq_ok_iff, Tree.resolve_join h proper_manifestName hShort]
    exact resolveFrom_name (Tree.at?_of_node h) proper_manifestName (by decide) hFile
      (fun target hTarget => by cases hTarget)
  have hIsFile : tree.isFile (join dir manifestName) = true := by
    rw [Tree.isFile, hNode]
  have hText : tree.readText (join dir manifestName) = Tree.textOf contents := by
    rw [Tree.readText, Tree.read, hNode]
    rfl
  rw [Loader.manifestAt, hMode, hIsFile, hText, Bool.and_self, if_pos rfl]
  constructor
  · intro hLoad
    obtain ⟨text, hSome, hRead⟩ := bind_eq_ok hLoad
    obtain rfl := Text.ofUtf8?_eq_some_iff.mp (textOf_eq_ok_iff.mp hSome)
    exact mapError_eq_ok hRead
  · intro hRead
    obtain ⟨text, hSome⟩ := Text.isText_iff.mp (Manifest.isText_of_ofJson hRead)
    obtain rfl := Text.ofUtf8?_eq_some_iff.mp hSome
    have hText : (Tree.textOf (Text.utf8 text)).mapError
        (Source.Error.unreadable (join dir manifestName)) = .ok text := textOf_eq_ok_iff.mpr hSome
    rw [hText]
    exact congrArg (Except.mapError _) hRead

theorem manifestAt_none (h : tree.node false dir = .ok (location, .dir entries, links))
    (hPlain : Plain (.dir entries)) (hShort : (join dir manifestName).utf8ByteSize ≤ 4095)
    (hNone : ∀ contents, entries.lookup manifestName ≠ some (.file contents)) :
    loader.manifestAt tree dir = .ok .empty := by
  have hIsFile : tree.isFile (join dir manifestName) = false := by
    rw [Tree.isFile, Files.Tree.node, Tree.resolve_join h proper_manifestName hShort]
    have hPlace := Tree.at?_of_node h
    cases hChild : entries.lookup manifestName with
    | none =>
        rw [resolveFrom_free hPlace proper_manifestName (by decide) hChild]
        rfl
    | some child =>
        have hNoLink := hPlain.not_link ((lookup_eq_some_iff hPlain.names_nodup _ _).mp hChild)
        rw [resolveFrom_name hPlace proper_manifestName (by decide) hChild hNoLink]
        cases child with
        | file contents => exact absurd hChild (hNone contents)
        | dir inner => rfl
        | link target => exact absurd rfl (hNoLink target)
  rw [Loader.manifestAt, hIsFile, Bool.and_false]
  rfl

/-- What a walk begins at is kept. -/
theorem keeps_beginning (loader : Loader) (name : String) : loader.keeps name true 0 = true := by
  simp [Loader.keeps, PathFilter.excludes]

/-- Where nothing is to be ignored, all that is no archive is kept. -/
theorem keeps_of_noPatterns (hIgnore : loader.filter.ignore = []) {name : String}
    (hName : isArchiveName name = false) (isDir : Bool) (depth : Nat) :
    loader.keeps name isDir depth = true := by
  simp [Loader.keeps, PathFilter.excludes, hIgnore, hName, Glob.anyMatches]

theorem keeps_eq_keepAll (hFilter : loader.filter = ⟨true, []⟩) : loader.keeps = keepAll := by
  have hNone (name : String) : Glob.anyMatches [] name = false := rfl
  funext name isDir depth
  simp [Loader.keeps, keepAll, hFilter, PathFilter.excludes, hNone]

/-- A path that leads somewhere is loaded by its manifest and its walk. -/
theorem value_load_of_exists (h : tree.pathExists dir = true) :
    (loader.load tree dir).outcome.value =
      (loader.manifestAt tree dir).bind fun manifest =>
        (loader.addSteps (manifest.dialect?.getD loader.dialect) { empty with manifest }
          (tree.walk loader.followLinks loader.keeps dir)).outcome.value := by
  simp only [Loader.load, h]
  cases loader.manifestAt tree dir with
  | error e => rfl
  | ok manifest =>
      simp only [Bool.not_true, Bool.false_eq_true, if_false, Attempt.value_bind,
        Attempt.value_quiet, Attempt.value_pure, Attempt.value_lift, Except.bind]
      cases (loader.addSteps (manifest.dialect?.getD loader.dialect) { empty with manifest }
        (tree.walk loader.followLinks loader.keeps dir)).outcome.value <;> rfl

theorem pathExists_of_node (h : tree.node false dir = .ok (location, .dir entries, links)) :
    tree.pathExists dir = true := by
  rw [Tree.pathExists, Tree.node_followed (by simp) h]
  rfl

/-- A directory with a single file, which is a module, is loaded as that module. -/
theorem toOption_load_alone (h : tree.node false dir = .ok (location, .dir entries, links))
    {name text : String} (hAlone : Alone name (Text.utf8 text) entries) (hProper : Proper name)
    (hDrive : EntryPath.dropDrive name.toList = name.toList) (hName : isModuleName name = true)
    (hArchive : isArchiveName name = false) (hMode : loader.bundleMode = false)
    (hIgnore : loader.filter.ignore = []) :
    (loader.load tree dir).outcome.value.toOption =
      (moduleOf loader.annotations loader.dialect name text).toOption.map fun m =>
        ⟨.empty, [m], Json.emptyObject⟩ := by
  have hManifest : loader.manifestAt tree dir = .ok .empty := by
    rw [Loader.manifestAt, hMode]
    rfl
  have hDir : loader.keeps (fileName dir) true 0 = true := keeps_beginning loader _
  have hFile : loader.keeps name false 1 = true := keeps_of_noPatterns hIgnore hArchive false 1
  have hJoin : Text.join "/" [name] = name := by simp [Text.join]
  have hWithin : within "" name = name :=
    (relative_eq_join (List.forall_mem_singleton.mpr hProper.entryName)).trans hJoin
  have hOnly : ∀ other ∈ [] ++ [name], Proper other := List.forall_mem_singleton.mpr hProper
  have hRegular : Regular ⟨within dir name, Text.join "/" [name], Text.utf8 text⟩ :=
    regular_of_proper hOnly (by simpa using hDrive) hArchive dir (Text.utf8 text)
  rw [hJoin] at hRegular
  have hFileName : isModuleName (fileName (within dir name)) = true := by
    rwa [fileName_within dir hProper]
  have hDialect : Manifest.empty.dialect?.getD loader.dialect = loader.dialect := rfl
  rw [value_load_of_exists (pathExists_of_node h), hManifest,
    Tree.walk_alone h hAlone loader.followLinks hDir hFile, hWithin, Except.bind, value_addSteps]
  simp only [List.foldlM_cons, List.foldlM_nil, bind_pure, mapError_ok, Except.bind, hDialect,
    value_addFile_module hRegular hFileName, textOf_eq_ok_iff.mpr (Text.ofUtf8?_utf8 text)]
  cases moduleOf loader.annotations loader.dialect name text <;> rfl

theorem value_load (h : tree.node false dir = .ok (location, .dir entries, links))
    (hFilter : loader.filter = ⟨true, []⟩) :
    (loader.load tree dir).outcome.value =
      (loader.manifestAt tree dir).bind fun manifest =>
        (loader.addSteps (manifest.dialect?.getD loader.dialect) { empty with manifest }
          (tree.walk loader.followLinks keepAll dir)).outcome.value := by
  rw [value_load_of_exists (pathExists_of_node h), keeps_eq_keepAll hFilter]

/-- The same manifest is read from the archive of a directory and loaded from the directory. -/
theorem manifestOf_collected_eq_ok_iff (hMode : loader.bundleMode = true)
    (h : tree.node false dir = .ok (location, .dir entries, links))
    (hDirectory : IsDirectory entries) (hShort : (join dir manifestName).utf8ByteSize ≤ 4095)
    (follow : Bool) {manifest : Manifest} :
    manifestOf (collected (tree.walk follow keepAll dir)) = .ok manifest ↔
      loader.manifestAt tree dir = .ok manifest := by
  by_cases hFile : ∃ contents, entries.lookup manifestName = some (.file contents)
  · obtain ⟨contents, hFile⟩ := hFile
    rw [manifestOf_collected h hDirectory follow hFile, manifestAt_eq_ok_iff hMode h hShort hFile]
    cases Manifest.ofJson contents <;> simp
  · rw [not_exists] at hFile
    rw [manifestOf_collected_none h hDirectory follow hFile,
      manifestAt_none h hDirectory.plain hShort hFile, Except.ok.injEq, Except.ok.injEq]

/-- The bundle that is read from the archive of a directory is the one that is loaded from the
directory, if its manifest owns its modules. -/
theorem read_eq_ok_iff_load (hMode : loader.bundleMode = true) (hFilter : loader.filter = ⟨true, []⟩)
    (h : tree.node false dir = .ok (location, .dir entries, links))
    (hDirectory : IsDirectory entries) (hShort : (join dir manifestName).utf8ByteSize ≤ 4095)
    {follow : Bool} {pack : Archive.Pack}
    (hHolds : Holds pack (collected (tree.walk follow keepAll dir))) {options : ReadOptions}
    (hAnnotations : options.annotations = loader.annotations)
    (hDialect : options.dialect = loader.dialect) (hFits : pack.toArchive.length < Nat.pow 2 64)
    (hTotal : ((collected (tree.walk follow keepAll dir)).map (·.contents.length)).sum ≤
      options.maxBytes)
    (hEntries : (collected (tree.walk follow keepAll dir)).length ≤ options.maxEntries)
    {bundle : Bundle} : (read options pack.finish).outcome.value = .ok bundle ↔
      (loader.load tree dir).outcome.value = .ok bundle ∧ Owned bundle := by
  have hWalk : tree.walk loader.followLinks keepAll dir = tree.walk follow keepAll dir := by
    rw [Tree.walk_eq h hDirectory.plain, Tree.walk_eq h hDirectory.plain]
  have hSteps := allRegular_walk h hDirectory follow
  have hInside : ∀ f ∈ collected (tree.walk follow keepAll dir),
      Archive.Pack.pathWidth ≤ (Text.utf8 (EntryPath.normalize f.path)).length →
        EntryPath.hasParent f.path = false := by
    intro f hf _
    obtain ⟨found, hFound, -, rfl⟩ := mem_collected_iff.mp hf
    obtain ⟨other, hOther, hRegular⟩ := hSteps _ hFound
    obtain rfl := Except.ok.inj hOther
    exact hRegular.writable.hasParent_eq_false
  have hOwned (manifest : Manifest) : Owned { empty with manifest } := by
    simp [Owned, empty]
  rw [hHolds.value_read hInside hFits hTotal hEntries, named_collected hSteps,
    value_load h hFilter, hWalk]
  constructor
  · intro hRead
    obtain ⟨manifest, hManifest, hFold⟩ := bind_eq_ok hRead
    rw [hAnnotations, foldlM_collected_eq_ok_iff hMode hSteps (hOwned manifest),
      ReadOptions.dialectOf, hDialect] at hFold
    rw [(manifestOf_collected_eq_ok_iff hMode h hDirectory hShort follow).mp hManifest]
    exact hFold
  · rintro ⟨hLoad, hLast⟩
    obtain ⟨manifest, hManifest, hFold⟩ := bind_eq_ok hLoad
    rw [(manifestOf_collected_eq_ok_iff hMode h hDirectory hShort follow).mpr hManifest,
      Except.bind, hAnnotations, foldlM_collected_eq_ok_iff hMode hSteps (hOwned manifest),
      ReadOptions.dialectOf, hDialect]
    exact ⟨hFold, hLast⟩

end Directory

end PolicyBundle.Bundle
