import PolicyBundle.Proofs.Source.Loading

/-! The dialects in which the modules of sources are scanned. It is one dialect for all of them, that
of the root's manifest or else of the request, but for the modules of an archive whose own manifest
declares another one. -/

namespace PolicyBundle.Source

open PolicyBundle.Bundle Files Log Policy

/-- A module of an archive among some files, whose own manifest declares a dialect. The archive is
read with `outer` for the case that it does not. -/
def Nested (loader : Loader) (outer : Dialect) (steps : Steps) (declared : Dialect) (m : Module) :
    Prop :=
  ∃ found bundle, .ok found ∈ steps ∧
    isArchiveName (Text.dirAndName (Loader.relativePath found)).2 = true ∧
    (Bundle.read (loader.readOptions outer) found.contents).outcome.value = .ok bundle ∧
    bundle.manifest.dialect? = some declared ∧ m ∈ bundle.modules

/-- A module that was scanned, with its source, in the dialect of all files or in the one that the
archive it is from declares. -/
def Scanned (loader : Loader) (outer : Dialect) (steps : Steps) (m : Module) : Prop :=
  moduleOf loader.annotations outer m.path m.source = .ok m ∨
    ∃ declared, Nested loader outer steps declared m ∧
      moduleOf loader.annotations declared m.path m.source = .ok m

section File

variable {loader : Loader} {outer : Dialect} {bundle next : Bundle} {found : Found} {steps : Steps}

/-- The modules of an archive that a file is. -/
theorem scanned_of_read (hFound : .ok found ∈ steps)
    (hName : isArchiveName (Text.dirAndName (Loader.relativePath found)).2 = true) {nested : Bundle}
    (hRead : (Bundle.read (loader.readOptions outer) found.contents).outcome.value = .ok nested)
    {m : Module} (hm : m ∈ nested.modules) : Scanned loader outer steps m := by
  have hAccepted := ((read_sound hRead).modules m hm).read
  cases hDeclared : nested.manifest.dialect? with
  | none =>
      rw [ReadOptions.dialectOf, hDeclared] at hAccepted
      exact .inl hAccepted
  | some declared =>
      rw [ReadOptions.dialectOf, hDeclared] at hAccepted
      exact .inr ⟨declared, ⟨found, nested, hFound, hName, hRead, hDeclared, hm⟩, hAccepted⟩

theorem mount_eq_ok {relative : String} {path : List String} {value : Json}
    (h : Loader.mount bundle relative path value = .ok next) :
    next.manifest = bundle.manifest ∧ next.modules = bundle.modules := by
  obtain ⟨data, -, rfl⟩ := mount_eq_ok_iff.mp h
  exact ⟨rfl, rfl⟩

/-- A file leaves the manifest as it is, and what it adds was scanned. -/
theorem addFile_scanned (hFound : .ok found ∈ steps)
    (h : (loader.addFile outer bundle found).outcome.value = .ok next) :
    next.manifest = bundle.manifest ∧
      ∀ m ∈ next.modules, m ∈ bundle.modules ∨ Scanned loader outer steps m := by
  have kept (hSame : next.manifest = bundle.manifest ∧ next.modules = bundle.modules) :
      next.manifest = bundle.manifest ∧
        ∀ m ∈ next.modules, m ∈ bundle.modules ∨ Scanned loader outer steps m :=
    ⟨hSame.1, fun m hm => .inl (hSame.2 ▸ hm)⟩
  simp only [Loader.addFile] at h
  split at h
  · simp only [Attempt.value_bind, Attempt.value_quiet, Attempt.value_lift, Attempt.value_pure,
      bind_eq_ok_iff] at h
    obtain ⟨source, -, m, hModule, -, -, hNext⟩ := h
    obtain rfl := Except.ok.inj hNext
    refine ⟨rfl, fun n hn => ?_⟩
    rcases List.mem_append.mp hn with hn | hn
    · exact .inl hn
    · obtain rfl := List.mem_singleton.mp hn
      have hRead := mapError_eq_ok hModule
      obtain ⟨hPath, hSource⟩ := moduleOf_eq_ok hRead
      exact .inr (.inl (by rw [hPath, hSource]; exact hRead))
  · split at h
    · rename_i hName
      simp only [Attempt.value_bind, Attempt.value_quiet, Attempt.value_lift,
        Attempt.value_mapError, bind_eq_ok_iff] at h
      obtain ⟨nested, hRead, -, -, hMount⟩ := h
      obtain ⟨hManifest, hModules⟩ := mount_eq_ok hMount
      refine ⟨hManifest, fun m hm => ?_⟩
      rcases List.mem_append.mp (hModules ▸ hm) with hm | hm
      · exact .inl hm
      · exact .inr (scanned_of_read hFound hName (mapError_eq_ok hRead) hm)
    · split at h
      · obtain ⟨value, -, hMount⟩ := bind_eq_ok h
        exact kept (mount_eq_ok hMount)
      · split at h
        · obtain ⟨value, -, hMount⟩ := bind_eq_ok h
          exact kept (mount_eq_ok hMount)
        · obtain rfl := Except.ok.inj h
          exact kept ⟨rfl, rfl⟩

end File

theorem load_eq_ok_iff {loader : Loader} {tree : Tree} {root : String} {bundle : Bundle} :
    (loader.load tree root).outcome.value = .ok bundle ↔
      tree.pathExists root = true ∧ ∃ manifest, loader.manifestAt tree root = .ok manifest ∧
        (loader.addSteps (manifest.dialect?.getD loader.dialect) { empty with manifest }
          (tree.walk loader.followLinks loader.keeps root)).outcome.value = .ok bundle := by
  cases hExists : tree.pathExists root with
  | false =>
      simp only [Loader.load, hExists]
      constructor
      · intro h
        cases h
      · rintro ⟨hFalse, -⟩
        cases hFalse
  | true =>
      simp only [Loader.load, hExists, Bool.not_true, Bool.false_eq_true, if_false,
        Attempt.value_bind, Attempt.value_quiet, Attempt.value_lift, Attempt.value_pure,
        bind_eq_ok_iff]
      simp

/-- All modules of sources are scanned, under the manifest of the root. -/
theorem load_scanned {loader : Loader} {tree : Tree} {root : String} {bundle : Bundle}
    (h : (loader.load tree root).outcome.value = .ok bundle) :
    ∀ m ∈ bundle.modules, Scanned loader (bundle.manifest.dialect?.getD loader.dialect)
      (tree.walk loader.followLinks loader.keeps root) m := by
  obtain ⟨-, manifest, -, hSteps⟩ := load_eq_ok_iff.mp h
  rw [value_addSteps] at hSteps
  obtain ⟨hManifest, hScanned⟩ := foldlM_invariant
    (motive := fun b => b.manifest = manifest ∧ ∀ m ∈ b.modules,
      Scanned loader (manifest.dialect?.getD loader.dialect)
        (tree.walk loader.followLinks loader.keeps root) m)
    ⟨rfl, by simp [empty]⟩
    (fun step hStep s t ⟨hSame, hBefore⟩ hAdded => by
      obtain ⟨found, hFound, hAdded⟩ := bind_eq_ok hAdded
      obtain rfl := mapError_eq_ok hFound
      obtain ⟨hKeeps, hAll⟩ := addFile_scanned hStep hAdded
      exact ⟨hKeeps.trans hSame, fun m hm => (hAll m hm).elim (hBefore m) id⟩) hSteps
  rw [hManifest]
  exact hScanned

end PolicyBundle.Source
