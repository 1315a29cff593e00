import PolicyBundle.Proofs.Bundle.EntryOrder
import PolicyBundle.Proofs.Bundle.PlainNames

/-! A bundle that was read, written into an archive and read from there. A manifest that says nothing
and data without fields are not written, and a reader puts the same in their place. A value that is no
object is not written either, but what a reader puts in its place is an object. And a path with
backslashes may lead to a parent directory only under the name that it is written with, which a reader
then refuses. All other bundles come back. -/

namespace PolicyBundle

theorem Manifest.eq_empty_of_isEmpty {m : Manifest} (h : m.isEmpty = true) : m = .empty := by
  obtain ⟨revision, roots, dialectValue, metadata, extra⟩ := m
  simp only [isEmpty, Bool.and_eq_true, Option.isNone_iff_eq_none, List.isEmpty_iff,
    String.isEmpty_iff] at h
  obtain ⟨⟨⟨⟨rfl, rfl⟩, rfl⟩, rfl⟩, rfl⟩ := h
  rfl

namespace Bundle

open Archive Log Policy

/-- What a reader finds where data was written: an object without fields if it was no object. -/
def restored (data : Json) : Json :=
  if data.isObject then data else Json.emptyObject

theorem restored_eq_iff {data : Json} : restored data = data ↔ data.isObject = true := by
  cases data <;> simp [restored, Json.isObject, Json.emptyObject]

theorem restored_of_isEmpty {data : Json} (h : DataTree.isEmpty data = true) :
    restored data = Json.emptyObject := by
  cases data with
  | object fields =>
      obtain rfl : fields = [] := List.isEmpty_iff.mp h
      rfl
  | _ => rfl

theorem restored_of_not_isEmpty {data : Json} (h : DataTree.isEmpty data = false) :
    restored data = data := by
  cases data with
  | object fields => rfl
  | _ => cases h

/-- The file of a manifest, if that says anything. -/
def manifestFiles (manifest : Manifest) : List Entry :=
  if manifest.isEmpty then [] else [⟨manifestName, Text.utf8 manifest.text⟩]

/-- The file of data, if there is any. -/
def dataFiles (data : Json) : List Entry :=
  if DataTree.isEmpty data then [] else [⟨dataName, Text.utf8 data.compact⟩]

theorem manifestFiles_of_isEmpty {manifest : Manifest} (h : manifest.isEmpty = true) :
    manifestFiles manifest = [] :=
  if_pos h

theorem manifestFiles_of_not_isEmpty {manifest : Manifest} (h : manifest.isEmpty = false) :
    manifestFiles manifest = [⟨manifestName, Text.utf8 manifest.text⟩] :=
  if_neg (by simp [h])

theorem dataFiles_of_isEmpty {data : Json} (h : DataTree.isEmpty data = true) :
    dataFiles data = [] :=
  if_pos h

theorem dataFiles_of_not_isEmpty {data : Json} (h : DataTree.isEmpty data = false) :
    dataFiles data = [⟨dataName, Text.utf8 data.compact⟩] :=
  if_neg (by simp [h])

/-- The files that a bundle is written into. -/
def writtenFiles (bundle : Bundle) : List Entry :=
  manifestFiles bundle.manifest ++ (bundle.modules.map moduleFile ++ dataFiles bundle.data)

theorem writes_write (bundle : Bundle) : Writes (write bundle) (writtenFiles bundle) := by
  have hModules : Writes (bundle.modules.forM writeModule) (bundle.modules.map moduleFile) :=
    writes_forM _ fun m => writes_entry m.path (Text.utf8 m.source)
  have hData : Writes (if !DataTree.isEmpty bundle.data then writeData bundle.data else pure ())
      (dataFiles bundle.data) := by
    cases hEmpty : DataTree.isEmpty bundle.data with
    | true =>
        rw [dataFiles_of_isEmpty hEmpty]
        exact writes_pure
    | false =>
        rw [dataFiles_of_not_isEmpty hEmpty]
        exact writes_entry dataName _
  cases hEmpty : bundle.manifest.isEmpty with
  | true =>
      rw [writtenFiles, manifestFiles_of_isEmpty hEmpty, write, hEmpty]
      exact hModules.bind hData
  | false =>
      rw [writtenFiles, manifestFiles_of_not_isEmpty hEmpty, write, hEmpty]
      exact (writes_entry manifestName _).bind (hModules.bind hData)

theorem length_writtenFiles_le (bundle : Bundle) :
    (writtenFiles bundle).length ≤ bundle.modules.length + 2 := by
  have hManifest : (manifestFiles bundle.manifest).length ≤ 1 := by
    rw [manifestFiles]
    split <;> simp
  have hData : (dataFiles bundle.data).length ≤ 1 := by
    rw [dataFiles]
    split <;> simp
  simp only [writtenFiles, List.length_append, List.length_map]
  omega

/-- Of the files of a bundle, only that of a module may have a name that leads out of it. -/
theorem hasParent_writtenFiles {bundle : Bundle}
    (hModules : ∀ m ∈ bundle.modules, EntryPath.hasParent m.path = false) :
    ∀ f ∈ writtenFiles bundle, EntryPath.hasParent f.path = false := by
  intro f hf
  simp only [writtenFiles, manifestFiles, dataFiles, List.mem_append, List.mem_map] at hf
  rcases hf with hf | ⟨m, hm, rfl⟩ | hf
  · split at hf
    · cases hf
    · obtain rfl := List.mem_singleton.mp hf
      exact (by decide : EntryPath.hasParent manifestName = false)
  · exact hModules m hm
  · split at hf
    · cases hf
    · obtain rfl := List.mem_singleton.mp hf
      exact (by decide : EntryPath.hasParent dataName = false)

/-- The manifest of a bundle is found among its files, also where it is not written. -/
theorem manifestOf_writtenFiles {annotations : Bool} {dialect : Dialect} {bundle : Bundle}
    (hSound : Sound annotations dialect bundle)
    (hManifest : Manifest.ofJson (Text.utf8 bundle.manifest.text) = .ok bundle.manifest) :
    manifestOf ((writtenFiles bundle).map Entry.named) = .ok bundle.manifest := by
  have hName : EntryPath.normalize manifestName = manifestName := by decide
  cases hEmpty : bundle.manifest.isEmpty with
  | false =>
      rw [writtenFiles, manifestFiles_of_not_isEmpty hEmpty, List.map_append, List.map_singleton,
        named_of_normalize hName, List.singleton_append, manifestOf,
        List.find?_cons_of_pos (by simp)]
      simp only [hManifest, mapError_ok]
  | true =>
      have hNone : ((writtenFiles bundle).map Entry.named).find? (·.path = manifestName) = none := by
        rw [List.find?_eq_none]
        intro f hf
        simp only [writtenFiles, manifestFiles, dataFiles, hEmpty, if_true, List.nil_append,
          List.map_append, List.map_map, List.mem_append, List.mem_map] at hf
        rcases hf with ⟨m, hm, rfl⟩ | ⟨f, hf, rfl⟩
        · have hModule := (EntryPath.isModuleName_normalize (hSound.modules m hm).named).2
          intro hEq
          have hSame : (moduleFile m).named.path = manifestName := by simpa using hEq
          simp only [named_moduleFile] at hSame
          rw [hSame] at hModule
          revert hModule
          decide
        · split at hf
          · cases hf
          · obtain rfl := List.mem_singleton.mp hf
            exact (by decide : ¬decide (EntryPath.normalize dataName = manifestName) = true)
      rw [manifestOf, hNone, Manifest.eq_empty_of_isEmpty hEmpty]

/-- A manifest that is written is neither a module nor data. -/
theorem manifestFiles_foreign {manifest : Manifest} {f : Entry}
    (hf : f ∈ (manifestFiles manifest).map Entry.named) :
    isModuleName (Text.dirAndName f.path).2 = false ∧ (Text.dirAndName f.path).2 ≠ dataName := by
  rw [manifestFiles] at hf
  split at hf
  · cases hf
  · obtain rfl := List.mem_singleton.mp hf
    exact (by decide : isModuleName (Text.dirAndName (EntryPath.normalize manifestName)).2 = false ∧
      (Text.dirAndName (EntryPath.normalize manifestName)).2 ≠ dataName)

/-- The data of a bundle comes back, if it is an object. -/
theorem foldlM_dataFiles {annotations : Bool} {dialect : Dialect} {bundle : Bundle} {data : Json}
    (hFormed : Json.Formed data) (hParse : Json.parse (Text.utf8 data.compact) = .ok data)
    (hEmpty : bundle.data = Json.emptyObject) :
    ((dataFiles data).map Entry.named).foldlM (addEntry annotations dialect) bundle =
      .ok { bundle with data := restored data } := by
  cases hWritten : DataTree.isEmpty data with
  | true =>
      rw [restored_of_isEmpty hWritten, ← hEmpty, dataFiles_of_isEmpty hWritten]
      rfl
  | false =>
      have hName : EntryPath.normalize dataName = dataName := by decide
      rw [restored_of_not_isEmpty hWritten, dataFiles_of_not_isEmpty hWritten, List.map_singleton,
        named_of_normalize hName, List.foldlM_cons, addEntry_data hFormed hParse hEmpty]
      rfl

theorem dialectValue_lt_of_read {options : ReadOptions} {bytes : Bytes} {bundle : Bundle}
    (h : (read options bytes).outcome.value = .ok bundle) :
    ∀ n, bundle.manifest.dialectValue = some n → n < 256 := by
  obtain ⟨-, entries, manifest, -, hManifest, hFold⟩ := read_eq_ok_iff.mp h
  have hSame : bundle.manifest = manifest :=
    foldlM_invariant (motive := fun b => b.manifest = manifest) rfl
      (fun _ _ _ _ hBefore hAdded => (addEntry_eq_ok_iff.mp hAdded).manifest_eq.trans hBefore) hFold
  rw [hSame]
  rw [manifestOf] at hManifest
  split at hManifest
  · cases hManifest
    simp [Manifest.empty]
  · exact Manifest.dialectValue_lt (mapError_eq_ok hManifest)

/-- The modules of a bundle, each under the name that it has in an archive. -/
def renamed (bundle : Bundle) : Bundle :=
  { bundle with modules := bundle.modules.map fun m => { m with path := EntryPath.normalize m.path } }

/-- The files of a bundle come to that bundle, each module under the name that it has in an archive. -/
theorem foldlM_writtenFiles {options : ReadOptions} {bundle : Bundle}
    (hSound : Sound options.annotations (options.dialectOf bundle.manifest) bundle)
    (hParse : Json.parse (Text.utf8 bundle.data.compact) = .ok bundle.data) :
    ((writtenFiles bundle).map Entry.named).foldlM
        (addEntry options.annotations (options.dialectOf bundle.manifest))
          { empty with manifest := bundle.manifest } =
      .ok { renamed bundle with data := restored bundle.data } := by
  have hModules (m : Module) (hm : m ∈ bundle.modules) :
      m.moved (EntryPath.normalize m.path) (options.dialectOf bundle.manifest) =
        { m with path := EntryPath.normalize m.path } := by
    rw [← (hSound.modules m hm).dialect_eq]
    rfl
  rw [writtenFiles, List.map_append, List.map_append, List.foldlM_append,
    foldlM_others fun f hf => manifestFiles_foreign hf]
  simp only [bind, Except.bind, List.foldlM_append]
  have hRoots : { empty with manifest := bundle.manifest }.manifest.roots =
      bundle.manifest.roots := rfl
  rw [foldlM_modules hSound.modules rfl hRoots]
  simp only []
  rw [foldlM_dataFiles hSound.data hParse rfl, List.map_congr_left hModules]
  simp only [renamed, empty, List.nil_append]

/-- The limits of a reader let through the archive that a bundle was written into. -/
structure Allows (again : ReadOptions) (bundle : Bundle) (output : Bytes) : Prop where
  size : (Gzip.decode output).data.length ≤ again.maxBytes
  counted : again.maxBytes ≤ maxSize
  entries : bundle.modules.length + 2 ≤ again.maxEntries

section Reread

variable {options again : ReadOptions} {bytes output : Bytes} {bundle : Bundle}

/-- A bundle comes back from the archive that it was written into, except for data that is no
object, if none of its names leads out of it. -/
theorem value_read_written (hSound : Sound again.annotations (again.dialectOf bundle.manifest) bundle)
    (hValue : ∀ n, bundle.manifest.dialectValue = some n → n < 256) (hPortable : Portable bundle)
    (hNames : ∀ m ∈ bundle.modules, EntryPath.hasParent m.path = false)
    (hWrite : archive (write bundle) = .ok output) (hAllows : Allows again bundle output) :
    (read again output).outcome.value =
      .ok { renamed bundle with data := restored bundle.data } := by
  obtain ⟨pack, hRun, rfl⟩ := archive_eq_ok hWrite
  have hHolds := writes_write bundle .empty pack [] hRun Holds.empty
  rw [List.nil_append] at hHolds
  have hSize := hAllows.size
  rw [Pack.finish, decode_encode] at hSize
  have hEntries := hHolds.readEntries_finish
    (fun f hf _ => hasParent_writtenFiles hNames f hf) hSize hAllows.counted
    (Nat.le_trans (length_writtenFiles_le bundle) hAllows.entries)
  have hManifest := manifestOf_writtenFiles hSound
    (ofJson_manifest hSound.manifest hValue hPortable)
  exact read_eq_ok_iff.mpr ⟨finish_nonempty pack, _, _, hEntries, hManifest,
    foldlM_writtenFiles hSound (parse_data hSound.data hPortable)⟩

/-- A bundle with a name that leads out of it is refused where it was written. -/
theorem value_read_written_ne_ok (hWrite : archive (write bundle) = .ok output)
    (hSize : (Gzip.decode output).data.length ≤ maxSize) {m : Module} (hm : m ∈ bundle.modules)
    (hParent : EntryPath.hasParent m.path = true) (found : Bundle) :
    (read again output).outcome.value ≠ .ok found := by
  intro hFound
  obtain ⟨pack, hRun, rfl⟩ := archive_eq_ok hWrite
  have hHolds := writes_write bundle .empty pack [] hRun Holds.empty
  rw [List.nil_append] at hHolds
  rw [Pack.finish, decode_encode] at hSize
  have hMax : maxSize < Nat.pow 2 64 := by decide
  obtain ⟨-, files, manifest, hFiles, -, -⟩ := read_eq_ok_iff.mp hFound
  obtain ⟨-, -, -, hUnpacks⟩ := readEntries_eq_ok_iff.mp hFiles
  rw [hHolds.membersOf_finish (by simpa using Nat.lt_of_le_of_lt hSize hMax), unpacks_iff] at hUnpacks
  have hFile : moduleFile m ∈ writtenFiles bundle := by
    simp only [writtenFiles, List.mem_append, List.mem_map]
    exact .inr (.inl ⟨m, hm, rfl⟩)
  cases hUnpacks.1 _ (List.mem_map_of_mem hFile) with
  | passOver hKind => cases hKind
  | take hKind hPath hLength hContents =>
      simp only [Pack.fileMember, moduleFile, EntryPath.entryPath_of_hasParent hParent] at hPath
      cases hPath

/-- A bundle that was read comes back from the archive that it was written into, each module under
the name that it has there, exactly if its data is an object and none of the names leads out of it. -/
theorem read_write_iff (hRead : (read options bytes).outcome.value = .ok bundle)
    (hWrite : archive (write bundle) = .ok output)
    (hAnnotations : again.annotations = options.annotations)
    (hDialect : again.dialect = options.dialect) (hAllows : Allows again bundle output)
    (hNumbers : ∀ x ∈ bundle.manifest.floats ++ bundle.data.floats, x.ReadsBack)
    (hNesting : bundle.data.depth ≤ Json.maxDepth) :
    (read again output).outcome.value = .ok (renamed bundle) ↔
      bundle.data.isObject = true ∧ ∀ m ∈ bundle.modules, EntryPath.hasParent m.path = false := by
  have hSound := read_sound hRead
  rw [ReadOptions.dialectOf, ← hDialect, ← hAnnotations] at hSound
  have hWritten (hNames : ∀ m ∈ bundle.modules, EntryPath.hasParent m.path = false) :=
    value_read_written hSound (dialectValue_lt_of_read hRead)
      ⟨hNumbers, hNesting, fun m hm _ => hNames m hm⟩ hNames hWrite hAllows
  constructor
  · intro h
    have hNames : ∀ m ∈ bundle.modules, EntryPath.hasParent m.path = false := by
      intro m hm
      rw [Bool.eq_false_iff]
      exact fun hParent => value_read_written_ne_ok hWrite
        (Nat.le_trans hAllows.size hAllows.counted) hm hParent _ h
    have hSame := congrArg Bundle.data (Except.ok.inj ((hWritten hNames).symm.trans h))
    exact ⟨restored_eq_iff.mp hSame, hNames⟩
  · rintro ⟨hObject, hNames⟩
    rw [hWritten hNames, restored_eq_iff.mpr hObject]
    rfl

end Reread

/-- A bundle is written if the paths of its modules can be. -/
theorem fits_write (bundle : Bundle) (hPaths : ∀ m ∈ bundle.modules, EntryPath.Writable m.path) :
    Fits (write bundle) ((writtenFiles bundle).map Entry.room).sum := by
  have hModules : Fits (bundle.modules.forM writeModule)
      ((bundle.modules.map moduleFile).map Entry.room).sum := by
    rw [List.map_map]
    exact fits_forM fun m hm => fits_entry (hPaths m hm) (Text.utf8 m.source)
  have hData : Fits (if !DataTree.isEmpty bundle.data then writeData bundle.data else pure ())
      ((dataFiles bundle.data).map Entry.room).sum := by
    have hName : EntryPath.Writable dataName :=
      ⟨by decide +kernel, by decide +kernel, by decide +kernel⟩
    cases hEmpty : DataTree.isEmpty bundle.data with
    | true =>
        rw [dataFiles_of_isEmpty hEmpty]
        exact fits_pure
    | false =>
        rw [dataFiles_of_not_isEmpty hEmpty, List.map_singleton, List.sum_singleton]
        exact fits_entry hName _
  simp only [writtenFiles, List.map_append, List.sum_append]
  cases hEmpty : bundle.manifest.isEmpty with
  | true =>
      rw [manifestFiles_of_isEmpty hEmpty, write, hEmpty, List.map_nil, List.sum_nil, Nat.zero_add]
      exact hModules.bind hData
  | false =>
      have hName : EntryPath.Writable manifestName :=
        ⟨by decide +kernel, by decide +kernel, by decide +kernel⟩
      rw [manifestFiles_of_not_isEmpty hEmpty, List.map_singleton, List.sum_singleton, write, hEmpty]
      exact (fits_entry hName _).bind (hModules.bind hData)

/-- A bundle of a manifest, a module and data. -/
def revised : Bundle where
  manifest := ⟨"r", some [""], none, none, [("tags", .array [.null])]⟩
  modules := [{
    path := "lib/p.rego"
    package := "lib.p"
    imports := []
    rules := [⟨"ok", false, false, 2⟩]
    calls := []
    dataRefs := []
    packageEntrypoint := false
    dialect := .v1
    source := "package lib.p\nok := 1\n" }]
  data := .object [("a", .number (.integer 1))]

/-- A manifest, a module and data come back. -/
theorem read_write_revised : ∃ bytes output,
    (read ⟨true, .v1, 16384, 3⟩ bytes).outcome.value = .ok revised ∧
      archive (write revised) = .ok output ∧ Allows ⟨true, .v1, 16384, 3⟩ revised output ∧
        (read ⟨true, .v1, 16384, 3⟩ output).outcome.value = .ok (renamed revised) := by
  have hPath : EntryPath.Writable "lib/p.rego" :=
    ⟨by decide +kernel, by decide +kernel, by decide +kernel⟩
  have hPaths : ∀ m ∈ revised.modules, EntryPath.Writable m.path := by
    simpa [revised] using hPath
  have hSame : renamed revised = revised := by
    have hNormal : EntryPath.normalize "lib/p.rego" = "lib/p.rego" := by decide +kernel
    simp [renamed, revised, hNormal]
  have hPortable : Portable revised :=
    ⟨by simp [revised, Manifest.floats, Json.floats, Json.floatsOfFields, Json.floatsOfItems],
      by decide, fun m hm _ => (hPaths m hm).hasParent_eq_false⟩
  have hTags : Json.Formed (.array [.null]) := .array (by simpa using Json.Formed.null)
  have hOne : Json.Formed (.number (.integer 1)) := .integer ⟨by decide, by decide⟩
  have hSound : Sound true .v1 revised := by
    refine ⟨⟨by simp [revised], ⟨?_, ?_⟩, by decide⟩, .object ?_ ?_, ?_⟩
    · simp [Json.Sorted, revised]
    · simpa [revised] using ⟨hTags, by decide⟩
    · simp [Json.Sorted]
    · simpa using hOne
    · simp only [revised, List.forall_mem_singleton]
      exact ⟨by decide +kernel, by decide +kernel, by decide +kernel⟩
  obtain ⟨pack, hWrite, -, hRoom⟩ := (fits_write revised hPaths).archive
  have hAllows : Allows ⟨true, .v1, 16384, 3⟩ revised pack.finish := by
    have hSize : ((writtenFiles revised).map Entry.room).sum + 2 * blockSize ≤ 16384 := by
      decide +kernel
    refine ⟨?_, by decide, by decide⟩
    rw [Pack.finish, decode_encode]
    exact Nat.le_trans hRoom hSize
  have hRead : (read ⟨true, .v1, 16384, 3⟩ pack.finish).outcome.value = .ok revised := by
    rw [value_read_written hSound (by simp [revised]) hPortable
      (fun m hm => (hPaths m hm).hasParent_eq_false) hWrite hAllows, hSame]
    rfl
  refine ⟨pack.finish, pack.finish, hRead, hWrite, hAllows, ?_⟩
  exact (read_write_iff hRead hWrite rfl rfl hAllows hPortable.numbers hPortable.nesting).mpr
    ⟨rfl, fun m hm => (hPaths m hm).hasParent_eq_false⟩

/-- A bundle of which the data is a number. -/
def numbered : Bundle :=
  { empty with data := .number (.integer 1) }

/-- A number as the root of the data does not come back. -/
theorem not_read_write_numbered :
    ¬∀ (options again : ReadOptions) (bytes output : Bytes) (bundle : Bundle),
      (read options bytes).outcome.value = .ok bundle → archive (write bundle) = .ok output →
        again.annotations = options.annotations → again.dialect = options.dialect →
          Allows again bundle output →
            (∀ x ∈ bundle.manifest.floats ++ bundle.data.floats, x.ReadsBack) →
              bundle.data.depth ≤ Json.maxDepth →
                (read again output).outcome.value = .ok (renamed bundle) := by
  intro h
  have hFormed : Json.Formed numbered.data := .integer ⟨by decide, by decide⟩
  have hPortable : Portable numbered :=
    ⟨by simp [numbered, empty, Manifest.empty, Manifest.floats, Json.floats, Json.floatsOfFields],
      by decide, by simp [numbered, empty]⟩
  have hParse := parse_data hFormed hPortable
  have hPaths : ∀ f ∈ [(⟨dataName, Text.utf8 numbered.data.compact⟩ : Entry)],
      EntryPath.Writable f.path ∧ EntryPath.normalize f.path = f.path := by
    rw [List.forall_mem_singleton]
    exact ⟨⟨by decide +kernel, by decide +kernel, by decide +kernel⟩, by decide +kernel⟩
  have hRead : (read ⟨true, .v1, 1024, 2⟩
      (packed [⟨dataName, Text.utf8 numbered.data.compact⟩])).outcome.value = .ok numbered := by
    rw [value_read_packed hPaths (by decide +kernel) (by decide +kernel) (by decide)]
    have hNone : manifestOf [⟨dataName, Text.utf8 numbered.data.compact⟩] = .ok .empty := by
      simp [manifestOf, dataName, manifestName]
    simp only [hNone, Except.bind, List.foldlM_cons, bind]
    rw [addEntry_data hFormed hParse rfl]
    rfl
  have hWrite : archive (write numbered) = .ok Pack.empty.finish := rfl
  have hAllows : Allows ⟨true, .v1, 1024, 2⟩ numbered Pack.empty.finish := by
    refine ⟨?_, by decide, by decide⟩
    rw [Pack.finish, decode_encode, length_toArchive]
    decide
  have hBack := h _ ⟨true, .v1, 1024, 2⟩ _ _ _ hRead hWrite rfl rfl hAllows hPortable.numbers
    hPortable.nesting
  rw [value_read_written (read_sound hRead) (dialectValue_lt_of_read hRead) hPortable
    (by simp [numbered, empty]) hWrite hAllows] at hBack
  have hSame : restored numbered.data = numbered.data :=
    congrArg Bundle.data (Except.ok.inj hBack)
  cases restored_eq_iff.mp hSame

end Bundle

end PolicyBundle
