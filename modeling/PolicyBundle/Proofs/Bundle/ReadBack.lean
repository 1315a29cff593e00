import PolicyBundle.Proofs.Bundle.Reading
import PolicyBundle.Proofs.Bundle.Writing

/-! A bundle reads back from the archive that it was written into: manifest and data as they are, and
each module from its source under the name of its entry. -/

namespace PolicyBundle.Bundle

open Archive Log Policy

/-- What libraries must keep of a bundle for it to read back: a number of double precision reads back
from its text, data is not nested too deeply to be parsed, and no name that is too long for the field
of a header leads to a parent directory. -/
structure Portable (bundle : Bundle) : Prop where
  numbers : ∀ x ∈ bundle.manifest.floats ++ bundle.data.floats, x.ReadsBack
  nesting : bundle.data.depth ≤ Json.maxDepth
  names : ∀ m ∈ bundle.modules,
    Pack.pathWidth ≤ (Text.utf8 (EntryPath.normalize m.path)).length →
      EntryPath.hasParent m.path = false

/-- The file of a module. -/
def moduleFile (m : Module) : Entry :=
  ⟨m.path, Text.utf8 m.source⟩

/-- The files of a bundle that always has a manifest and data. -/
def filesOf (bundle : Bundle) : List Entry :=
  ⟨manifestName, Text.utf8 bundle.manifest.text⟩ ::
    (bundle.modules.map moduleFile ++ [⟨dataName, Text.utf8 bundle.data.compact⟩])

/-- The bundle that reads back: each module has the name of its entry, and the dialect that it is
read in this time. -/
def reread (bundle : Bundle) (dialect : Dialect) : Bundle :=
  { bundle with modules := bundle.modules.map fun m => m.moved (EntryPath.normalize m.path) dialect }

theorem named_moduleFile (m : Module) :
    (moduleFile m).named = ⟨EntryPath.normalize m.path, Text.utf8 m.source⟩ := rfl

theorem named_of_normalize {name : String} (h : EntryPath.normalize name = name)
    (contents : Bytes) : Entry.named ⟨name, contents⟩ = ⟨name, contents⟩ := by
  rw [Entry.named, h]

section Folding

variable {annotations : Bool} {dialect other : Dialect} {bundle : Bundle}

theorem owns_congr {left right : Manifest} (h : left.roots = right.roots) (path : String) :
    left.owns path = right.owns path := by
  rw [Manifest.owns, Manifest.owns, h]

/-- The file of a module that a reader took is taken again, whichever of the dialects with the same
rules for `if` it is read in. -/
theorem addEntry_module {manifest : Manifest} {m : Module}
    (hModule : Accepted annotations dialect manifest m)
    (hDialect : other.requiresIf = dialect.requiresIf)
    (hRoots : bundle.manifest.roots = manifest.roots) :
    addEntry annotations other bundle (moduleFile m).named =
      .ok { bundle with
        modules := bundle.modules ++ [m.moved (EntryPath.normalize m.path) other] } := by
  have hName := (EntryPath.isModuleName_normalize hModule.named).2
  have hMoved := moduleOf_moved hDialect hModule.read (EntryPath.normalize m.path)
  have hOwned := hModule.owned
  rw [← owns_congr hRoots, ← Module.package_moved m (EntryPath.normalize m.path) other] at hOwned
  rw [named_moduleFile, addEntry_eq_ok_iff]
  exact .module hName (Text.ofUtf8?_utf8 m.source) hMoved hOwned

theorem foldlM_modules {manifest : Manifest} {modules : List Module}
    (hModules : ∀ m ∈ modules, Accepted annotations dialect manifest m)
    (hDialect : other.requiresIf = dialect.requiresIf)
    (hRoots : bundle.manifest.roots = manifest.roots) :
    ((modules.map moduleFile).map Entry.named).foldlM (addEntry annotations other) bundle =
      .ok { bundle with modules := bundle.modules ++
        (modules.map fun m => m.moved (EntryPath.normalize m.path) other) } := by
  induction modules generalizing bundle with
  | nil => simp [pure, Except.pure]
  | cons m modules ih =>
      have hFirst := addEntry_module (hModules m List.mem_cons_self) hDialect hRoots
      have hRest := @ih
        { bundle with modules := bundle.modules ++ [m.moved (EntryPath.normalize m.path) other] }
        (fun n hn => hModules n (List.mem_cons_of_mem _ hn)) hRoots
      rw [List.append_assoc] at hRest
      rw [List.map_cons, List.map_cons, List.foldlM_cons, hFirst]
      exact hRest

theorem foldlM_others {files : List Entry}
    (h : ∀ f ∈ files, isModuleName (Text.dirAndName f.path).2 = false ∧
      (Text.dirAndName f.path).2 ≠ dataName) :
    files.foldlM (addEntry annotations dialect) bundle = .ok bundle := by
  induction files with
  | nil => rfl
  | cons f files ih =>
      obtain ⟨hName, hData⟩ := h f List.mem_cons_self
      rw [List.foldlM_cons, addEntry_eq_ok_iff.mpr (.other hName hData)]
      exact ih fun g hg => h g (List.mem_cons_of_mem _ hg)

end Folding

theorem ofJson_manifest {bundle : Bundle} (hFormed : bundle.manifest.Formed)
    (hDialect : ∀ n, bundle.manifest.dialectValue = some n → n < 256) (hPortable : Portable bundle) :
    Manifest.ofJson (Text.utf8 bundle.manifest.text) = .ok bundle.manifest :=
  Manifest.ofJson_text hFormed hDialect fun x hx =>
    hPortable.numbers x (List.mem_append_left _ hx)

theorem parse_data {bundle : Bundle} (hFormed : Json.Formed bundle.data)
    (hPortable : Portable bundle) : Json.parse (Text.utf8 bundle.data.compact) = .ok bundle.data :=
  (hFormed.readable hPortable.nesting fun x hx =>
    hPortable.numbers x (List.mem_append_right _ hx)).parse_compact

/-- Data is taken as it is where there is none yet. -/
theorem addEntry_data {annotations : Bool} {dialect : Dialect} {bundle : Bundle} {data : Json}
    (hFormed : Json.Formed data) (hParse : Json.parse (Text.utf8 data.compact) = .ok data)
    (hEmpty : bundle.data = Json.emptyObject) :
    addEntry annotations dialect bundle ⟨dataName, Text.utf8 data.compact⟩ =
      .ok { bundle with data := data } := by
  have hRoot : DataTree.pathOf (Text.dirAndName dataName).1 = [] := by decide
  refine addEntry_eq_ok_iff.mpr (.data ?_ ?_ hParse ?_)
  · exact (by decide : isModuleName (Text.dirAndName dataName).2 = false)
  · exact (by decide : (Text.dirAndName dataName).2 = dataName)
  · rw [hEmpty, hRoot, DataTree.mount_emptyObject hFormed]

theorem finish_nonempty (pack : Archive.Pack) : pack.finish ≠ [] := by
  simp [Archive.Pack.finish, Archive.Gzip.encode, Archive.Gzip.header]

/-- What is read of an archive is what its files come to. -/
theorem Holds.value_read {pack : Pack} {files : List Entry} (hHolds : Holds pack files)
    (hInside : ∀ f ∈ files, Pack.pathWidth ≤ (Text.utf8 (EntryPath.normalize f.path)).length →
      EntryPath.hasParent f.path = false)
    {options : ReadOptions} (hFits : pack.toArchive.length < Nat.pow 2 64)
    (hTotal : (files.map (·.contents.length)).sum ≤ options.maxBytes)
    (hEntries : files.length ≤ options.maxEntries) :
    (read options pack.finish).outcome.value =
      (manifestOf (files.map Entry.named)).bind fun manifest =>
        (files.map Entry.named).foldlM
          (addEntry options.annotations (options.dialectOf manifest))
            { Bundle.empty with manifest } := by
  have hNonempty : ¬pack.finish.isEmpty = true := by
    simpa using finish_nonempty pack
  rw [Bundle.value_read, if_neg hNonempty,
    hHolds.readEntries_files hInside hFits hTotal hEntries]
  rfl

/-- The bundle of a module that is alone. -/
theorem foldlM_alone {annotations : Bool} {dialect : Dialect} {path source : String} {m : Module}
    (hName : isModuleName (Text.dirAndName path).2 = true)
    (hModule : moduleOf annotations dialect path source = .ok m) :
    ([⟨path, Text.utf8 source⟩] : List Entry).foldlM (addEntry annotations dialect) empty =
      .ok { empty with modules := [m] } := by
  have hOwned : empty.manifest.owns (Text.replace '.' '/' m.package) = true := by
    simp [empty, Manifest.empty, Manifest.owns]
  have hTakes : addEntry annotations dialect empty ⟨path, Text.utf8 source⟩ =
      .ok { empty with modules := empty.modules ++ [m] } :=
    addEntry_eq_ok_iff.mpr (.module hName (Text.ofUtf8?_utf8 source) hModule hOwned)
  rw [List.foldlM_cons, hTakes]
  simp only [List.foldlM_nil, bind, Except.bind, pure, Except.pure, empty, List.nil_append]

/-- A bundle reads back from its files, whatever files of other kinds stand behind them. -/
theorem read_eq_reread {options : ReadOptions} {bytes : Bytes} {dialect : Dialect} {bundle : Bundle}
    {others : List Entry} (hBytes : bytes ≠ [])
    (hEntries : readEntries options bytes = .ok ((filesOf bundle).map Entry.named ++ others))
    (hOthers : ∀ f ∈ others, isModuleName (Text.dirAndName f.path).2 = false ∧
      (Text.dirAndName f.path).2 ≠ dataName)
    (hSound : Sound options.annotations dialect bundle)
    (hDialect : (options.dialectOf bundle.manifest).requiresIf = dialect.requiresIf)
    (hValue : ∀ n, bundle.manifest.dialectValue = some n → n < 256) (hPortable : Portable bundle) :
    (read options bytes).outcome.value =
      .ok (reread bundle (options.dialectOf bundle.manifest)) := by
  have hManifestName : EntryPath.normalize manifestName = manifestName := by decide
  have hDataName : EntryPath.normalize dataName = dataName := by decide
  have hFiles : (filesOf bundle).map Entry.named =
      ⟨manifestName, Text.utf8 bundle.manifest.text⟩ ::
        ((bundle.modules.map moduleFile).map Entry.named ++
          [⟨dataName, Text.utf8 bundle.data.compact⟩]) := by
    simp only [filesOf, List.map_cons, List.map_append, List.map_nil,
      named_of_normalize hManifestName, named_of_normalize hDataName]
  have hManifest : manifestOf ((filesOf bundle).map Entry.named ++ others) =
      .ok bundle.manifest := by
    simp only [hFiles, manifestOf, List.cons_append, List.find?_cons, decide_true]
    rw [ofJson_manifest hSound.manifest hValue hPortable]
    rfl
  have hFirst (contents : Bytes) :
      addEntry options.annotations (options.dialectOf bundle.manifest)
        { empty with manifest := bundle.manifest } ⟨manifestName, contents⟩ =
          .ok { empty with manifest := bundle.manifest } := by
    refine addEntry_eq_ok_iff.mpr (.other ?_ ?_)
    · exact (by decide : isModuleName (Text.dirAndName manifestName).2 = false)
    · exact (by decide : (Text.dirAndName manifestName).2 ≠ dataName)
  refine read_eq_ok_iff.mpr ⟨hBytes, _, _, hEntries, hManifest, ?_⟩
  rw [hFiles, List.cons_append, List.foldlM_cons, hFirst, List.append_assoc]
  simp only [bind, Except.bind, List.foldlM_append]
  have hRoots : { empty with manifest := bundle.manifest }.manifest.roots =
      bundle.manifest.roots := rfl
  rw [foldlM_modules hSound.modules hDialect hRoots]
  simp only [List.foldlM_cons, List.foldlM_nil, bind, Except.bind]
  rw [addEntry_data hSound.data (parse_data hSound.data hPortable) rfl]
  simp only [foldlM_others hOthers, reread, empty, List.nil_append, pure, Except.pure]

end PolicyBundle.Bundle
