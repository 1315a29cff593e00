import PolicyBundle.Bundle.Reader
import PolicyBundle.Proofs.Bundle.DataTree
import PolicyBundle.Proofs.Bundle.EntryPath
import PolicyBundle.Proofs.Bundle.Manifest
import PolicyBundle.Proofs.Log.Attempts
import PolicyBundle.Proofs.Policy.Rereading

/-! What a reader puts into a bundle, file by file: a manifest and data that are formed, and modules
that it takes again wherever their sources stand. -/

namespace PolicyBundle.Bundle

open Log Policy

/-- The dialect of the modules of a bundle. -/
def ReadOptions.dialectOf (options : ReadOptions) (manifest : Manifest) : Dialect :=
  manifest.dialect?.getD options.dialect

theorem value_ofEntries (annotations : Bool) (dialect : Dialect) (manifest : Manifest)
    (entries : List Entry) : (ofEntries annotations dialect manifest entries).outcome.value =
      entries.foldlM (addEntry annotations dialect) { empty with manifest } := by
  apply Attempt.value_foldlM
  intro bundle entry
  split <;> simp [Except.bind]

theorem value_read (options : ReadOptions) (bytes : Bytes) :
    (read options bytes).outcome.value =
      if bytes.isEmpty then .error .noBytes
      else (readEntries options bytes).bind fun entries =>
        (manifestOf entries).bind fun manifest =>
          entries.foldlM (addEntry options.annotations (options.dialectOf manifest))
            { empty with manifest } := by
  simp only [read]
  split
  · rfl
  · simp [Except.bind, value_ofEntries, ReadOptions.dialectOf]

/-- A bundle is read from its files one after the other, once its manifest is found. -/
theorem read_eq_ok_iff {options : ReadOptions} {bytes : Bytes} {bundle : Bundle} :
    (read options bytes).outcome.value = .ok bundle ↔
      bytes ≠ [] ∧ ∃ entries manifest, readEntries options bytes = .ok entries ∧
        manifestOf entries = .ok manifest ∧
          entries.foldlM (addEntry options.annotations (options.dialectOf manifest))
            { empty with manifest } = .ok bundle := by
  rw [value_read]
  by_cases hEmpty : bytes = []
  · rw [if_pos (by simpa using hEmpty)]
    exact ⟨nofun, fun h => absurd hEmpty h.1⟩
  · rw [if_neg (by simpa using hEmpty)]
    simp only [bind_eq_ok_iff]
    exact ⟨fun ⟨entries, hEntries, manifest, hManifest, hFold⟩ =>
        ⟨hEmpty, entries, manifest, hEntries, hManifest, hFold⟩,
      fun ⟨_, entries, manifest, hEntries, hManifest, hFold⟩ =>
        ⟨entries, hEntries, manifest, hManifest, hFold⟩⟩

section Files

variable {annotations : Bool} {dialect : Dialect} {bundle next : Bundle} {entry : Entry}

/-- All that a file can do to a bundle. -/
inductive Takes (annotations : Bool) (dialect : Dialect) (bundle : Bundle) (entry : Entry) :
    Bundle → Prop where
  | module {source : String} {m : Module}
      (hName : isModuleName (Text.dirAndName entry.path).2 = true)
      (hText : Text.ofUtf8? entry.contents = some source)
      (hModule : moduleOf annotations dialect entry.path source = .ok m)
      (hOwned : bundle.manifest.owns (Text.replace '.' '/' m.package) = true) :
      Takes annotations dialect bundle entry { bundle with modules := bundle.modules ++ [m] }
  | data {value data : Json}
      (hName : isModuleName (Text.dirAndName entry.path).2 = false)
      (hData : (Text.dirAndName entry.path).2 = dataName)
      (hValue : Json.parse entry.contents = .ok value)
      (hMount : DataTree.mount bundle.data (DataTree.pathOf (Text.dirAndName entry.path).1) value =
        (data, none)) :
      Takes annotations dialect bundle entry { bundle with data := data }
  | other (hName : isModuleName (Text.dirAndName entry.path).2 = false)
      (hData : (Text.dirAndName entry.path).2 ≠ dataName) :
      Takes annotations dialect bundle entry bundle

theorem addEntry_eq_ok_iff :
    addEntry annotations dialect bundle entry = .ok next ↔
      Takes annotations dialect bundle entry next := by
  constructor
  · intro h
    simp only [addEntry] at h
    split at h
    · rename_i hName
      split at h
      · rename_i source hText
        obtain ⟨_, ⟨⟩, h⟩ := bind_eq_ok h
        obtain ⟨m, hModule, h⟩ := bind_eq_ok h
        split at h
        · rename_i hOwned
          cases h
          exact .module hName hText (mapError_eq_ok hModule) hOwned
        · cases h
      · cases h
    · rename_i hName
      rw [Bool.not_eq_true] at hName
      split at h
      · rename_i hData
        obtain ⟨value, hValue, h⟩ := bind_eq_ok h
        split at h
        · rename_i hMount
          cases h
          exact .data hName hData (mapError_eq_ok hValue) hMount
        · cases h
      · rename_i hData
        cases h
        exact .other hName hData
  · intro h
    cases h with
    | module hName hText hModule hOwned =>
        simp only [addEntry, hName, hText, hModule, mapError_ok, bind, Except.bind, hOwned,
          if_true]
    | data hName hData hValue hMount =>
        rw [hData] at hName
        simp only [addEntry, hName, hData, hValue, hMount, mapError_ok, bind, Except.bind,
          Bool.false_eq_true, if_false, if_true]
    | other hName hData =>
        simp only [addEntry, hName, hData, Bool.false_eq_true, if_false]

theorem moduleOf_eq_ok {path source : String} {m : Module}
    (h : moduleOf annotations dialect path source = .ok m) : m.path = path ∧ m.source = source := by
  cases hParse : Module.parse path source dialect with
  | error e => rw [moduleOf, hParse] at h; cases h
  | ok found =>
      rw [moduleOf, hParse] at h
      obtain rfl := Except.ok.inj h
      have hPath := Module.parse_path hParse
      have hSource := Module.parse_source hParse
      split
      · exact ⟨hPath, hSource⟩
      · exact ⟨hPath, hSource⟩

theorem moduleOf_moved {other : Dialect} (h : other.requiresIf = dialect.requiresIf)
    {path source : String} {m : Module} (hModule : moduleOf annotations dialect path source = .ok m)
    (file : String) : moduleOf annotations other file source = .ok (m.moved file other) := by
  cases hParse : Module.parse path source dialect with
  | error e => rw [moduleOf, hParse] at hModule; cases hModule
  | ok found =>
      rw [moduleOf, hParse] at hModule
      obtain rfl := Except.ok.inj hModule
      rw [moduleOf, Module.parse_moved h hParse file]
      cases annotations <;> rfl

/-- A module that a reader takes from its source. -/
structure Accepted (annotations : Bool) (dialect : Dialect) (manifest : Manifest) (m : Module) :
    Prop where
  named : isModuleName m.path = true
  read : moduleOf annotations dialect m.path m.source = .ok m
  owned : manifest.owns (Text.replace '.' '/' m.package) = true

/-- A module has the dialect that it was read in. -/
theorem Accepted.dialect_eq {manifest : Manifest} {m : Module}
    (h : Accepted annotations dialect manifest m) : m.dialect = dialect := by
  have hMoved := moduleOf_moved rfl h.read m.path
  exact congrArg Module.dialect (Except.ok.inj (h.read.symm.trans hMoved))

/-- A bundle as a reader makes it. -/
structure Sound (annotations : Bool) (dialect : Dialect) (bundle : Bundle) : Prop where
  manifest : bundle.manifest.Formed
  data : Json.Formed bundle.data
  modules : ∀ m ∈ bundle.modules, Accepted annotations dialect bundle.manifest m

theorem isModuleName_path {path : String}
    (h : isModuleName (Text.dirAndName path).2 = true) : isModuleName path = true := by
  rw [isModuleName, Text.endsWith_iff] at h ⊢
  exact h.trans (Text.name_suffix path)

theorem Takes.sound (hBundle : Sound annotations dialect bundle)
    (hTakes : Takes annotations dialect bundle entry next) : Sound annotations dialect next := by
  cases hTakes with
  | @module source m hName hText hModule hOwned =>
      obtain ⟨hPath, hSource⟩ := moduleOf_eq_ok hModule
      refine ⟨hBundle.manifest, hBundle.data, fun n hn => ?_⟩
      rcases List.mem_append.mp hn with hn | hn
      · exact hBundle.modules n hn
      · obtain rfl := List.mem_singleton.mp hn
        rw [← hPath] at hName hModule
        rw [← hSource] at hModule
        exact ⟨isModuleName_path hName, hModule, hOwned⟩
  | data hName hData hValue hMount =>
      have hFormed := DataTree.mount_formed hBundle.data (Json.parse_formed hValue).1
        (DataTree.pathOf (Text.dirAndName entry.path).1)
      rw [hMount] at hFormed
      exact ⟨hBundle.manifest, hFormed, hBundle.modules⟩
  | other hName hData => exact hBundle

theorem Takes.manifest_eq (hTakes : Takes annotations dialect bundle entry next) :
    next.manifest = bundle.manifest := by
  cases hTakes <;> rfl

theorem foldlM_addEntry_sound {entries : List Entry} (hBundle : Sound annotations dialect bundle)
    (h : entries.foldlM (addEntry annotations dialect) bundle = .ok next) :
    Sound annotations dialect next ∧ next.manifest = bundle.manifest := by
  refine foldlM_invariant (motive := fun b => Sound annotations dialect b ∧
    b.manifest = bundle.manifest) ⟨hBundle, rfl⟩ ?_ h
  rintro entry - s t ⟨hSound, hManifest⟩ hAdded
  have hTakes := addEntry_eq_ok_iff.mp hAdded
  exact ⟨hTakes.sound hSound, hTakes.manifest_eq.trans hManifest⟩

end Files

theorem manifestOf_formed {entries : List Entry} {manifest : Manifest}
    (h : manifestOf entries = .ok manifest) : manifest.Formed := by
  rw [manifestOf] at h
  split at h
  · cases h
    exact .empty
  · rename_i entry hEntry
    cases hRead : Manifest.ofJson entry.contents with
    | error fault => rw [hRead] at h; cases h
    | ok found =>
        rw [hRead] at h
        cases h
        exact Manifest.ofJson_formed hRead

/-- What a reader makes of an archive. -/
theorem read_sound {options : ReadOptions} {bytes : Bytes} {bundle : Bundle}
    (h : (read options bytes).outcome.value = .ok bundle) :
    Sound options.annotations (options.dialectOf bundle.manifest) bundle := by
  obtain ⟨-, entries, manifest, -, hManifest, hFold⟩ := read_eq_ok_iff.mp h
  have hStart : Sound options.annotations (options.dialectOf manifest) { empty with manifest } :=
    ⟨manifestOf_formed hManifest, .object List.Pairwise.nil (by simp), by simp [empty]⟩
  obtain ⟨hSound, hSame⟩ := foldlM_addEntry_sound hStart hFold
  rwa [hSame]

end PolicyBundle.Bundle
