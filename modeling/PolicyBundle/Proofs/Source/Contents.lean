import PolicyBundle.Proofs.Files.Listings
import PolicyBundle.Proofs.Source.Dialects
import PolicyBundle.Proofs.Source.Filters

/-! What is loaded from sources without links: exactly the files that no pattern and no mode leaves
out, where patterns that cannot be built into a set leave out nothing. Each file gives its modules and
its data documents by its name alone, and the bundle has them in the order of the files. -/

namespace PolicyBundle.Source

open PolicyBundle.Bundle Files Log Policy

section Paths

variable {root : String} {names : List String}

/-- The segments of the path of a file below the root. A loader knows paths with slashes alone, so a
backslash in a name parts it. The root itself has the path of its name. -/
def segmentsOf (root : String) : List String → List String
  | [] => [fileName root]
  | names => names.flatMap (Text.split '\\')

theorem segmentsOf_cons (name : String) (rest : List String) :
    segmentsOf root (name :: rest) = (name :: rest).flatMap (Text.split '\\') := rfl

theorem noSlash_fileName (path : String) : '/' ∉ (fileName path).toList := by
  rw [fileName]
  split
  · exact List.not_mem_nil
  · rename_i name hLast
    split
    · exact List.not_mem_nil
    · have hMem := List.mem_of_mem_filter (List.mem_of_getLast? hLast)
      obtain ⟨chars, hChars, rfl⟩ := List.mem_map.mp hMem
      rw [String.toList_ofList]
      exact Text.notMem_of_mem_splitOn hChars

theorem noSlash_segmentsOf (hNames : ∀ name ∈ names, EntryName name) :
    ∀ segment ∈ segmentsOf root names, '/' ∉ segment.toList := by
  cases names with
  | nil => simpa [segmentsOf] using noSlash_fileName root
  | cons name rest =>
      intro segment hSegment
      rw [segmentsOf_cons, List.mem_flatMap] at hSegment
      obtain ⟨name, hName, hPiece⟩ := hSegment
      obtain ⟨chars, hChars, rfl⟩ := List.mem_map.mp hPiece
      rw [String.toList_ofList]
      exact fun hSlash => (hNames name hName).noSlash (Text.mem_of_mem_splitOn hChars hSlash)

/-- The last of the segments is the name of the file. -/
theorem exists_segmentsOf (root : String) (names : List String) :
    ∃ dir name, segmentsOf root names = dir ++ [name] := by
  have hSome : segmentsOf root names ≠ [] := by
    cases names with
    | nil => exact List.cons_ne_nil _ _
    | cons name rest =>
        rw [segmentsOf_cons, List.flatMap_cons]
        apply List.append_ne_nil_of_left_ne_nil
        simp [Text.split, List.splitOn_ne_nil]
  exact ⟨_, _, (List.dropLast_append_getLast hSome).symm⟩

/-- The path of a file is the join of its segments. -/
theorem relativePath_listed (hNames : ∀ name ∈ names, EntryName name) (contents : Bytes) :
    Loader.relativePath ⟨names.foldl within root, Text.join "/" names, contents⟩ =
      Text.join "/" (segmentsOf root names) := by
  cases names with
  | nil => simp [Loader.relativePath, segmentsOf, Text.join]
  | cons name rest =>
      have hSome : (Text.join "/" (name :: rest)).isEmpty = false := by
        rw [Bool.eq_false_iff, ne_eq, String.isEmpty_iff, ← String.toList_eq_nil_iff, toList_join,
          List.append_eq_nil_iff, String.toList_eq_nil_iff]
        exact fun h => (hNames name List.mem_cons_self).nonempty h.1
      rw [Loader.relativePath, hSome, segmentsOf_cons, ← replace_join_eq_split]
      rfl

end Paths

section Filtering

variable [Glob.Builder] {loader : Loader} {bundleMode : Bool} {texts : List String} {root : String}
  {names : List String}

/-- Whether a file is left in: no name below the root is ignored, and the file is no archive outside of
bundle mode. The root is exempt from the patterns alone. -/
structure Kept (bundleMode : Bool) (texts : List String) (root : String) (names : List String) :
    Prop where
  unmatched : ∀ name ∈ names, Glob.Spares texts name
  archive : bundleMode = false → isArchiveName (names.getLastD (fileName root)) = false

theorem keeps_iff (hFilter : loader.filter = (PathFilter.ofTexts bundleMode texts).value)
    {name : String} {isDir : Bool} {depth : Nat} :
    loader.keeps name isDir depth = true ↔
      (1 ≤ depth → Glob.Spares texts name) ∧
        (isDir = false → bundleMode = false → isArchiveName name = false) := by
  rw [Loader.keeps, hFilter, Bool.not_eq_true', PathFilter.excludes_ofTexts_eq_false_iff]

theorem keepsAll_below (hFilter : loader.filter = (PathFilter.ofTexts bundleMode texts).value)
    {depth : Nat} (name : String) :
    keepsAll loader.keeps (depth + 1) name names = true ↔
      (∀ other ∈ name :: names, Glob.Spares texts other) ∧
        (bundleMode = false → isArchiveName (names.getLastD name) = false) := by
  induction names generalizing depth name with
  | nil => simp [keepsAll, keeps_iff hFilter]
  | cons next rest ih =>
      rw [keepsAll, Bool.and_eq_true, ih, keeps_iff hFilter, List.getLastD_cons,
        List.forall_mem_cons]
      simp [and_assoc]

/-- The walk of a loader keeps a file with the directories around it exactly if it is left in. -/
theorem keepsAll_iff_kept (hFilter : loader.filter = (PathFilter.ofTexts bundleMode texts).value) :
    keepsAll loader.keeps 0 (fileName root) names = true ↔ Kept bundleMode texts root names := by
  have hFields : Kept bundleMode texts root names ↔
      (∀ name ∈ names, Glob.Spares texts name) ∧
        (bundleMode = false → isArchiveName (names.getLastD (fileName root)) = false) :=
    ⟨fun h => ⟨h.unmatched, h.archive⟩, fun h => ⟨h.1, h.2⟩⟩
  rw [hFields]
  cases names with
  | nil => simp [keepsAll, keeps_iff hFilter]
  | cons name rest =>
      rw [keepsAll, keeps_beginning, Bool.true_and, keepsAll_below hFilter, List.getLastD_cons]

/-- The files of a tree that are left in, each once. They stand depth first, with the entries of a
directory in the order of the bytes of their names. -/
structure Taken (bundleMode : Bool) (texts : List String) (root : String) (node : Node)
    (files : List (List String × Bytes)) : Prop where
  mem : ∀ names contents, (names, contents) ∈ files ↔
    node.at? names = some (.file contents) ∧ Kept bundleMode texts root names
  once : (files.map (·.1)).Nodup
  ordered : files.Pairwise fun f g => Precedes f.1 g.1

/-- There is one list of these files. -/
theorem Taken.unique {node : Node} {left right : List (List String × Bytes)}
    (hLeft : Taken bundleMode texts root node left) (hRight : Taken bundleMode texts root node right) :
    left = right :=
  eq_of_precedes hLeft.ordered hRight.ordered fun f =>
    (hLeft.mem f.1 f.2).trans (hRight.mem f.1 f.2).symm

theorem taken_of_lists (hFilter : loader.filter = (PathFilter.ofTexts bundleMode texts).value)
    {node : Node} {files : List (List String × Bytes)}
    (h : Lists loader.keeps 0 (fileName root) node files) :
    Taken bundleMode texts root node files where
  mem names contents := by rw [h.mem, keepsAll_iff_kept hFilter]
  once := h.once
  ordered := h.ordered

end Filtering

/-- What a file gives to a bundle: modules, and documents with the paths that they are mounted at. -/
structure Part where
  modules : List Module
  documents : List (List String × Json)

/-- What a file gives by its name. A data document of a bundle directory is mounted at the directory
that it is in, all other documents are mounted at the root. -/
inductive Gives (loader : Loader) (dialect : Dialect) (dir : List String) (name : String)
    (contents : Bytes) : Part → Prop where
  | module {source : String} {m : Module} (hName : isModuleName name = true)
      (hText : Text.ofUtf8? contents = some source)
      (hModule : moduleOf loader.annotations dialect (Text.join "/" (dir ++ [name])) source = .ok m) :
      Gives loader dialect dir name contents ⟨[m], []⟩
  | archive {nested : Bundle} (hName : isArchiveName name = true)
      (hRead : (Bundle.read (loader.readOptions dialect) contents).outcome.value = .ok nested) :
      Gives loader dialect dir name contents ⟨nested.modules, [([], nested.data)]⟩
  | data {value : Json} (hMode : loader.bundleMode = true) (hName : name = dataName)
      (hValue : Json.parse contents = .ok value) :
      Gives loader dialect dir name contents ⟨[], [(dir.filter EntryPath.isProper, value)]⟩
  | json {value : Json} (hMode : loader.bundleMode = false) (hName : Text.endsWith name ".json" = true)
      (hValue : Json.parse contents = .ok value) :
      Gives loader dialect dir name contents ⟨[], [([], value)]⟩
  | other (hModule : isModuleName name = false) (hArchive : isArchiveName name = false)
      (hData : loader.bundleMode = true → name ≠ dataName)
      (hJson : loader.bundleMode = false → Text.endsWith name ".json" = false) :
      Gives loader dialect dir name contents ⟨[], []⟩

/-- A tree with a document mounted in it; none where they conflict. -/
def mounted? (tree : Json) (document : List String × Json) : Option Json :=
  match DataTree.mount tree document.1 document.2 with
  | (data, none) => some data
  | (_, some _) => none

/-- A tree with documents mounted in it one after the other. -/
def mountAll? (tree : Json) (documents : List (List String × Json)) : Option Json :=
  documents.foldlM mounted? tree

theorem mountAll?_append (tree : Json) (left right : List (List String × Json)) :
    mountAll? tree (left ++ right) = (mountAll? tree left).bind (mountAll? · right) :=
  List.foldlM_append

theorem mountAll?_singleton (tree : Json) (document : List String × Json) :
    mountAll? tree [document] = mounted? tree document := by
  rw [mountAll?, List.foldlM_cons]
  cases mounted? tree document <;> rfl

theorem mounted?_eq_some_iff {tree data value : Json} {path : List String} :
    mounted? tree (path, value) = some data ↔ DataTree.mount tree path value = (data, none) := by
  rw [mounted?]
  split <;> simp_all

/-- Mounting in a bundle is mounting in its data. -/
theorem mount_eq_ok_iff_mounted? {bundle next : Bundle} {relative : String} {path : List String}
    {value : Json} : Loader.mount bundle relative path value = .ok next ↔
      ∃ data, mounted? bundle.data (path, value) = some data ∧ next = { bundle with data } := by
  simp only [mount_eq_ok_iff, mounted?_eq_some_iff]

section File

variable {loader : Loader} {dialect : Dialect} {bundle next : Bundle} {found : Found}
  {dir : List String} {name : String}

/-- The directory of a path, as a place in data. -/
theorem pathOf_join (hSlash : ∀ segment ∈ dir, '/' ∉ segment.toList) :
    DataTree.pathOf (Text.join "/" dir) = dir.filter EntryPath.isProper := by
  cases dir with
  | nil => rfl
  | cons first rest =>
      rw [DataTree.pathOf, Text.split_join (List.cons_ne_nil _ _) hSlash]
      rfl

theorem not_isModuleName_of_isArchiveName (h : isArchiveName name = true) :
    isModuleName name = false :=
  Text.endsWith_eq_false h (by decide) (by decide)

theorem isDocument_of_endsWith (h : Text.endsWith name ".json" = true) :
    isModuleName name = false ∧ isArchiveName name = false :=
  ⟨Text.endsWith_eq_false h (by decide) (by decide),
    Text.endsWith_eq_false h (by decide) (by decide)⟩

/-- A document that is mounted adds to the data alone. -/
theorem mountDocument_eq_ok_iff {path relative : String} {contents : Bytes} {place : List String} :
    (do
      let value ← Loader.documentOf path relative contents
      Loader.mount bundle relative place value) = .ok next ↔
        ∃ value data, Json.parse contents = .ok value ∧
          mountAll? bundle.data [(place, value)] = some data ∧
          next = ⟨bundle.manifest, bundle.modules ++ [], data⟩ := by
  have hBind (value : Json) : Loader.mount bundle relative place value = .ok next ↔
      ∃ data, mountAll? bundle.data [(place, value)] = some data ∧
        next = ⟨bundle.manifest, bundle.modules ++ [], data⟩ := by
    rw [mount_eq_ok_iff_mounted?, mountAll?_singleton, List.append_nil]
  refine bind_eq_ok_iff.trans ?_
  simp only [documentOf_eq_ok_iff, hBind, ← exists_and_left]

/-- What is added for one more file is what it gives. -/
theorem gives_of_addFile (hPath : Loader.relativePath found = Text.join "/" (dir ++ [name]))
    (hSlash : ∀ segment ∈ dir ++ [name], '/' ∉ segment.toList)
    (h : (loader.addFile dialect bundle found).outcome.value = .ok next) :
    ∃ part data, Gives loader dialect dir name found.contents part ∧
      mountAll? bundle.data part.documents = some data ∧
      next = ⟨bundle.manifest, bundle.modules ++ part.modules, data⟩ := by
  obtain ⟨hDir, hName⟩ := List.forall_mem_append.mp hSlash
  simp only [Loader.addFile, hPath, Text.dirAndName_join dir (hName name List.mem_cons_self),
    pathOf_join hDir] at h
  split at h
  · rename_i hModule
    simp only [Attempt.value_bind, Attempt.value_quiet, Attempt.value_lift, Attempt.value_pure,
      bind_eq_ok_iff, mapError_eq_ok_iff, textOf_eq_ok_iff] at h
    obtain ⟨source, hText, m, hRead, -, -, hNext⟩ := h
    obtain rfl := Except.ok.inj hNext
    exact ⟨_, _, .module hModule hText hRead, rfl, rfl⟩
  · rename_i hModule
    split at h
    · rename_i hArchive
      simp only [Attempt.value_bind, Attempt.value_quiet, Attempt.value_lift,
        Attempt.value_mapError, bind_eq_ok_iff, mapError_eq_ok_iff, mount_eq_ok_iff_mounted?] at h
      obtain ⟨nested, hRead, -, -, data, hMount, rfl⟩ := h
      exact ⟨_, data, .archive hArchive hRead, (mountAll?_singleton _ _).trans hMount, rfl⟩
    · rename_i hArchive
      split at h
      · rename_i hData
        rw [Bool.and_eq_true, decide_eq_true_eq] at hData
        obtain ⟨value, data, hValue, hMount, rfl⟩ := mountDocument_eq_ok_iff.mp h
        exact ⟨_, data, .data hData.1 hData.2 hValue, hMount, rfl⟩
      · rename_i hData
        split at h
        · rename_i hJson
          rw [Bool.and_eq_true, Bool.not_eq_true'] at hJson
          obtain ⟨value, data, hValue, hMount, rfl⟩ := mountDocument_eq_ok_iff.mp h
          exact ⟨_, data, .json hJson.1 hJson.2 hValue, hMount, rfl⟩
        · rename_i hJson
          obtain rfl := Except.ok.inj h
          refine ⟨_, bundle.data, .other (by simpa using hModule) (by simpa using hArchive)
            (by simpa using hData) (by simpa using hJson), rfl, ?_⟩
          rw [List.append_nil]

/-- What one more file gives is added, if its documents can be mounted. -/
theorem addFile_of_gives (hPath : Loader.relativePath found = Text.join "/" (dir ++ [name]))
    (hSlash : ∀ segment ∈ dir ++ [name], '/' ∉ segment.toList) {part : Part} {data : Json}
    (hGives : Gives loader dialect dir name found.contents part)
    (hMount : mountAll? bundle.data part.documents = some data) :
    (loader.addFile dialect bundle found).outcome.value =
      .ok ⟨bundle.manifest, bundle.modules ++ part.modules, data⟩ := by
  obtain ⟨hDir, hName⟩ := List.forall_mem_append.mp hSlash
  simp only [Loader.addFile, hPath, Text.dirAndName_join dir (hName name List.mem_cons_self),
    pathOf_join hDir]
  cases hGives with
  | @module source m hModule hText hRead =>
      obtain rfl := Option.some.inj hMount
      simp only [if_pos hModule, Attempt.value_bind, Attempt.value_quiet, Attempt.value_lift,
        Attempt.value_pure, bind_eq_ok_iff, mapError_eq_ok_iff, textOf_eq_ok_iff]
      exact ⟨source, hText, m, hRead, (), trivial, rfl⟩
  | @archive nested hArchive hRead =>
      have hModule := not_isModuleName_of_isArchiveName hArchive
      simp only [if_pos hArchive, hModule, Bool.false_eq_true, if_false, Attempt.value_bind,
        Attempt.value_quiet, Attempt.value_lift, Attempt.value_mapError, bind_eq_ok_iff,
        mapError_eq_ok_iff, mount_eq_ok_iff_mounted?]
      exact ⟨nested, hRead, (), trivial, data, (mountAll?_singleton _ _).symm.trans hMount, rfl⟩
  | @data value hMode hData hValue =>
      subst hData
      obtain ⟨hModule, hArchive⟩ :=
        isDocument_of_endsWith (by decide : Text.endsWith dataName ".json" = true)
      simp only [hModule, hArchive, hMode, Bool.false_eq_true, if_false, Bool.true_and,
        decide_true, if_true, Attempt.value_quiet]
      exact mountDocument_eq_ok_iff.mpr ⟨value, data, hValue, hMount, rfl⟩
  | @json value hMode hJson hValue =>
      obtain ⟨hModule, hArchive⟩ := isDocument_of_endsWith hJson
      simp only [hModule, hArchive, hMode, hJson, Bool.false_eq_true, if_false, Bool.false_and,
        Bool.not_false, Bool.true_and, if_true, Attempt.value_quiet]
      exact mountDocument_eq_ok_iff.mpr ⟨value, data, hValue, hMount, rfl⟩
  | other hModule hArchive hData hJson =>
      obtain rfl := Option.some.inj hMount
      rw [List.append_nil]
      cases hMode : loader.bundleMode with
      | true => simp [hModule, hArchive, hData hMode]
      | false => simp [hModule, hArchive, hJson hMode]

end File

section Run

variable {loader : Loader} {dialect : Dialect} {root : String}

/-- What a file below the root gives. -/
def FileGives (loader : Loader) (dialect : Dialect) (root : String) (file : List String × Bytes)
    (part : Part) : Prop :=
  ∃ dir name, segmentsOf root file.1 = dir ++ [name] ∧ Gives loader dialect dir name file.2 part

/-- The file of a walk. -/
def foundAt (root : String) (file : List String × Bytes) : Found :=
  ⟨file.1.foldl within root, Text.join "/" file.1, file.2⟩

theorem addFile_eq_ok_iff_gives {bundle next : Bundle} {file : List String × Bytes}
    (hNames : ∀ name ∈ file.1, EntryName name) :
    (loader.addFile dialect bundle (foundAt root file)).outcome.value = .ok next ↔
      ∃ part data, FileGives loader dialect root file part ∧
        mountAll? bundle.data part.documents = some data ∧
        next = ⟨bundle.manifest, bundle.modules ++ part.modules, data⟩ := by
  obtain ⟨dir, name, hSegments⟩ := exists_segmentsOf root file.1
  have hPath : Loader.relativePath (foundAt root file) = Text.join "/" (dir ++ [name]) := by
    rw [← hSegments]
    exact relativePath_listed hNames file.2
  have hSlash : ∀ segment ∈ dir ++ [name], '/' ∉ segment.toList := by
    rw [← hSegments]
    exact noSlash_segmentsOf hNames
  constructor
  · intro h
    obtain ⟨part, data, hGives, hMount, hNext⟩ := gives_of_addFile hPath hSlash h
    exact ⟨part, data, ⟨dir, name, hSegments, hGives⟩, hMount, hNext⟩
  · rintro ⟨part, data, ⟨dir', name', hSame, hGives⟩, hMount, rfl⟩
    obtain ⟨rfl, hLast⟩ := List.append_inj' (hSame.symm.trans hSegments) rfl
    obtain rfl := List.head_eq_of_cons_eq hLast
    exact addFile_of_gives hPath hSlash hGives hMount

/-- A run over files has what they give, in their order. -/
theorem addSteps_eq_ok_iff_gives {bundle last : Bundle} {files : List (List String × Bytes)}
    (hNames : ∀ file ∈ files, ∀ name ∈ file.1, EntryName name) :
    (loader.addSteps dialect bundle (files.map fun file => .ok (foundAt root file))).outcome.value =
        .ok last ↔
      ∃ parts data, List.Forall₂ (FileGives loader dialect root) files parts ∧
        mountAll? bundle.data (parts.flatMap (·.documents)) = some data ∧
        last = ⟨bundle.manifest, bundle.modules ++ parts.flatMap (·.modules), data⟩ := by
  rw [value_addSteps]
  induction files generalizing bundle with
  | nil =>
      constructor
      · intro h
        obtain rfl := Except.ok.inj h
        exact ⟨[], bundle.data, .nil, rfl, by simp⟩
      · rintro ⟨parts, data, hParts, hMount, rfl⟩
        cases hParts
        obtain rfl := Option.some.inj hMount
        simp [pure, Except.pure]
  | cons file files ih =>
      obtain ⟨hFirst, hRest⟩ := List.forall_mem_cons.mp hNames
      rw [List.map_cons, List.foldlM_cons]
      refine bind_eq_ok_iff.trans ?_
      constructor
      · rintro ⟨middle, hAdded, hRun⟩
        obtain ⟨part, data, hGives, hMount, rfl⟩ := (addFile_eq_ok_iff_gives hFirst).mp hAdded
        obtain ⟨parts, last, hParts, hMore, rfl⟩ := (ih hRest).mp hRun
        refine ⟨part :: parts, last, .cons hGives hParts, ?_, ?_⟩
        · rw [List.flatMap_cons, mountAll?_append, hMount]
          exact hMore
        · rw [List.flatMap_cons, List.append_assoc]
      · rintro ⟨parts, last, hParts, hMount, rfl⟩
        cases hParts with
        | @cons _ part _ parts hGives hParts =>
            rw [List.flatMap_cons, mountAll?_append] at hMount
            obtain ⟨data, hMount, hMore⟩ := Option.bind_eq_some_iff.mp hMount
            refine ⟨_, (addFile_eq_ok_iff_gives hFirst).mpr ⟨part, data, hGives, hMount, rfl⟩, ?_⟩
            refine (ih hRest).mpr ⟨parts, last, hParts, hMore, ?_⟩
            rw [List.flatMap_cons, List.append_assoc]

end Run

/-- A tree without links is loaded exactly if its manifest is, each file that is left in gives what it
has to by its name, and the documents can be mounted in the order of the files. The bundle has the
modules of these files and no others, in that order, and the data that the documents come to. -/
theorem load_exact [Glob.Builder] (loader : Loader) {bundleMode : Bool} {texts : List String}
    (hFilter : loader.filter = (PathFilter.ofTexts bundleMode texts).value) {tree : Tree}
    {root : String} {location : Location} {node : Node} {links : Nat}
    (h : tree.node false root = .ok (location, node, links)) (hStill : Still node) :
    ∃ files, Taken bundleMode texts root node files ∧
      ∀ bundle, (loader.load tree root).outcome.value = .ok bundle ↔
        loader.manifestAt tree root = .ok bundle.manifest ∧
        ∃ parts, List.Forall₂
            (FileGives loader (bundle.manifest.dialect?.getD loader.dialect) root) files parts ∧
          bundle.modules = parts.flatMap (·.modules) ∧
          mountAll? Json.emptyObject (parts.flatMap (·.documents)) = some bundle.data := by
  obtain ⟨files, hLists, hWalk⟩ := Tree.walk_lists h hStill loader.followLinks loader.keeps
  have hNames : ∀ file ∈ files, ∀ name ∈ file.1, EntryName name :=
    fun file hFile => entryName_of_at? hStill ((hLists.mem file.1 file.2).mp hFile).1
  have hExists : tree.pathExists root = true := by
    have hNoLink : ∀ target, node ≠ .link target := by
      rintro target rfl
      cases hStill
    rw [Tree.pathExists, Tree.node_followed hNoLink h]
    rfl
  refine ⟨files, taken_of_lists hFilter hLists, fun bundle => ?_⟩
  rw [load_eq_ok_iff, hWalk]
  constructor
  · rintro ⟨-, manifest, hManifest, hRun⟩
    obtain ⟨parts, data, hParts, hMount, rfl⟩ := (addSteps_eq_ok_iff_gives hNames).mp hRun
    exact ⟨hManifest, parts, hParts, rfl, hMount⟩
  · rintro ⟨hManifest, parts, hParts, hModules, hMount⟩
    refine ⟨hExists, bundle.manifest, hManifest, (addSteps_eq_ok_iff_gives hNames).mpr ?_⟩
    refine ⟨parts, bundle.data, hParts, hMount, ?_⟩
    rw [empty, List.nil_append, ← hModules]

/-- The current directory. -/
theorem node_dot (entries : List (String × Node)) :
    (⟨.dir entries, []⟩ : Files.Tree).node false "." = .ok ([], .dir entries, maxLinks) :=
  Tree.node_of_dots ⟨by decide, by decide, by decide⟩ rfl (by decide)

/-- A directory with a test beside a module, and with data below it. -/
def testedDirectory : List (String × Node) :=
  [("q", .dir [("data.json", .file (Text.utf8 "\x7b\"x\":1\x7d"))]), ("p_test.rego", .file []),
    ("p.rego", .file (Text.utf8 "package p\n"))]

/-- How a bundle directory is loaded without its tests. -/
def withoutTests : Loader :=
  ⟨(PathFilter.ofTexts true ["[", "*_test.rego"]).value, true, .v1, false, true, .default⟩

theorem filter_withoutTests :
    withoutTests.filter = (PathFilter.ofTexts true ["[", "*_test.rego"]).value := by
  rw [withoutTests]

/-- The tests are not taken, and what is below the directory is. -/
theorem load_exact_withoutTests :
    let texts := ["[", "*_test.rego"]
    let tree : Tree := ⟨.dir testedDirectory, []⟩
    withoutTests.filter = (PathFilter.ofTexts true texts).value ∧
    tree.node false "." = .ok ([], .dir testedDirectory, maxLinks) ∧ Still (.dir testedDirectory) ∧
    ∃ files, Taken true texts "." (.dir testedDirectory) files ∧
      (∀ contents, (["p_test.rego"], contents) ∉ files) ∧
      (["q", "data.json"], Text.utf8 "\x7b\"x\":1\x7d") ∈ files ∧
      ∀ bundle, (withoutTests.load tree ".").outcome.value = .ok bundle ↔
        withoutTests.manifestAt tree "." = .ok bundle.manifest ∧
        ∃ parts, List.Forall₂
            (FileGives withoutTests (bundle.manifest.dialect?.getD .v1) ".") files parts ∧
          bundle.modules = parts.flatMap (·.modules) ∧
          mountAll? Json.emptyObject (parts.flatMap (·.documents)) = some bundle.data := by
  intro texts tree
  have hNode : tree.node false "." = .ok ([], .dir testedDirectory, maxLinks) := node_dot _
  have hNamed : ∀ name ∈ ["q", "p_test.rego", "p.rego", "data.json"], EntryName name := by
    simp only [List.forall_mem_cons, List.not_mem_nil]
    exact ⟨⟨by decide, by decide⟩, ⟨by decide, by decide⟩, ⟨by decide, by decide⟩,
      ⟨by decide, by decide⟩, by simp⟩
  have hBelow : Still (.dir [("data.json", .file (Text.utf8 "\x7b\"x\":1\x7d"))]) :=
    .dir (by decide) (by simp [hNamed]) (by simp [Still.file])
  have hStill : Still (.dir testedDirectory) :=
    .dir (by decide) (by simp [testedDirectory, hNamed])
      (by simp [testedDirectory, Still.file, hBelow])
  obtain ⟨files, hTaken, hLoad⟩ := load_exact withoutTests filter_withoutTests hNode hStill
  refine ⟨filter_withoutTests, hNode, hStill, files, hTaken, fun contents hMem => ?_, ?_, hLoad⟩
  · have hKept := ((hTaken.mem _ _).mp hMem).2
    exact absurd (hKept.unmatched _ List.mem_cons_self) (by decide +kernel)
  · have hPlace : (Node.dir testedDirectory).at? ["q", "data.json"] =
        some (.file (Text.utf8 "\x7b\"x\":1\x7d")) := rfl
    exact (hTaken.mem _ _).mpr ⟨hPlace, by decide +kernel, by decide⟩

/-- Patterns of which the first is nested too deep, and the second is the name of a module. -/
def deepTexts : List String := [String.ofList (Glob.nested 300), "q.rego"]

/-- How sources are loaded where these are to be ignored. -/
def ignoringDeep : Loader :=
  ⟨(PathFilter.ofTexts false deepTexts).value, false, .v1, false, true, .default⟩

/-- A pattern that cannot be built into a set takes the others with it, which is told: a module is loaded
whose name is one of the patterns. -/
theorem load_matched_deepTexts :
    let tree : Tree := ⟨.dir [("q.rego", .file (Text.utf8 "package q\n"))], []⟩
    tree.node false "." = .ok ([], tree.root, maxLinks) ∧ Still tree.root ∧
      (∃ text ∈ deepTexts, Glob.Matches text "q.rego") ∧
      (PathFilter.ofTexts false deepTexts).events ≠ [] ∧
      ∃ bundle, (ignoringDeep.load tree ".").outcome.value = .ok bundle ∧
        bundle.modules.map (·.path) = ["q.rego"] := by
  intro tree
  have hProper : Proper "q.rego" :=
    ⟨by decide, by decide, by decide, by decide, by decide, by decide⟩
  have hStill : Still tree.root :=
    .dir (by decide) (by simp [hProper.entryName]) (by simp [Still.file])
  have hDeep : ¬ Glob.Buildable deepTexts := Glob.not_buildable_nested (by decide) ["q.rego"]
  have hFilter : ignoringDeep.filter = ⟨false, []⟩ := by
    rw [ignoringDeep, PathFilter.value_ofTexts_of_not_buildable false hDeep]
  have hPath : (moduleOf true .v1 "q.rego" "package q\n").toOption.map (·.path) = some "q.rego" := by
    decide +kernel
  obtain ⟨m, hModule, hPath⟩ := Option.map_eq_some_iff.mp hPath
  have hLoad := toOption_load_alone (node_dot _) (alone_singleton hProper (Text.utf8 "package q\n"))
    hProper (by decide) (by decide) (by decide) (rfl : ignoringDeep.bundleMode = false)
    (congrArg PathFilter.ignore hFilter)
  refine ⟨node_dot _, hStill,
    ⟨"q.rego", List.mem_cons_of_mem _ List.mem_cons_self, by decide +kernel⟩,
    fun hSilent => hDeep (PathFilter.events_ofTexts_eq_nil_iff.mp hSilent).2,
    ⟨.empty, [m], Json.emptyObject⟩, toOption_eq_some_iff.mp (hLoad.trans ?_), ?_⟩
  · exact congrArg (Option.map _) hModule
  · rw [List.map_singleton, hPath]

end PolicyBundle.Source
