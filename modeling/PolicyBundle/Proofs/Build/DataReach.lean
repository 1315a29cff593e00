import PolicyBundle.Bundle.Reader
import PolicyBundle.Proofs.Build.Pruning
import PolicyBundle.Proofs.Policy.DataReferences

/-! What the sources that are kept can reach through `data`. The search follows what the scanner has
recorded, so a name below `data` is followed wherever it stands outside strings and comments, unless it
is taken for the name of a rule. The whole tree of documents, which `data` alone stands for, is not
followed. -/

namespace PolicyBundle.Build

open PolicyBundle.Bundle Policy

/-- Whether a name may reach the rules of a package: all packages that are related to what follows
`data` in the name, and all packages where nothing follows. -/
def MayReach (name : List Char) (package : String) : Prop :=
  name = "data".toList ∨
    ∃ rest, name = "data.".toList ++ rest ∧ SegmentRelated package (String.ofList rest)

/-- Pruning loses nothing: whatever a module that is kept may reach by a name in its source is kept. -/
def NothingLost (modules : List Module) (entrypoints : List String) : Prop :=
  ∀ m ∈ prune modules entrypoints, ∀ line before name, Names m line before name →
    ∀ n ∈ modules, MayReach name n.package → n ∈ prune modules entrypoints

section Recording

variable {path source : String} {dialect : Dialect} {m : Module} {line : Line} {before rest : List Char}

/-- A module refers to what it names below `data`. -/
theorem refersTo_of_parse (hParse : Module.parse path source dialect = .ok m)
    (hNames : Names m line before ("data.".toList ++ rest))
    (hHead : ¬IsHeadName m line before ("data.".toList ++ rest)) :
    RefersTo m (String.ofList rest) := by
  cases hNames with
  | statement hLine hName => exact .inl (mem_dataRefs_of_namedAt hParse hLine hName hHead)
  | importPath hLine hImport hWord hName =>
      obtain ⟨i, hi, hPath⟩ := exists_import_of_namedAt hParse hLine hImport hWord hName
      exact .inr ⟨i, hi, by rw [hPath, String.ofList_append, String.ofList_toList]⟩

/-- The same of a module as readers make it, with or without its declarations of entrypoints. -/
theorem refersTo_of_moduleOf {annotations : Bool}
    (hScanned : moduleOf annotations dialect path source = .ok m)
    (hNames : Names m line before ("data.".toList ++ rest))
    (hHead : ¬IsHeadName m line before ("data.".toList ++ rest)) :
    RefersTo m (String.ofList rest) := by
  cases hParse : Module.parse path source dialect with
  | error e => rw [moduleOf, hParse] at hScanned; cases hScanned
  | ok found =>
      rw [moduleOf, hParse] at hScanned
      obtain rfl := Except.ok.inj hScanned
      cases annotations with
      | true => exact refersTo_of_parse hParse hNames hHead
      | false =>
          have hSame : Names found line before ("data.".toList ++ rest) := by
            cases hNames with
            | statement hLine hName =>
                exact .statement ⟨hLine.source, hLine.code, hLine.behind, hLine.notImport⟩ hName
            | importPath hLine hImport hWord hName =>
                exact .importPath hLine hImport hWord hName
          have hOther : ¬IsHeadName found line before ("data.".toList ++ rest) := by
            rintro ⟨⟨rule, hRule, hRuleLine, hRuleName⟩, hFront⟩
            exact hHead ⟨⟨{ rule with entrypoint := false }, List.mem_map_of_mem hRule, hRuleLine,
              hRuleName⟩, hFront⟩
          have hRefers : RefersTo found (String.ofList rest) :=
            refersTo_of_parse hParse hSame hOther
          exact hRefers

end Recording

/-- A name below `data` that is not taken for the name of a rule is followed. So pruning loses nothing
exactly if it drops nothing where a module that is kept names `data` alone, and keeps what the names of
rules in modules that are kept may reach. -/
theorem nothingLost_iff {modules : List Module} {entrypoints : List String}
    (hScanned : ∀ m ∈ modules, ∃ annotations dialect path source,
      moduleOf annotations dialect path source = .ok m) :
    (∀ m ∈ prune modules entrypoints, ∀ line before name, Names m line before name →
      name ≠ "data".toList → ¬IsHeadName m line before name →
        ∀ n ∈ modules, MayReach name n.package → n ∈ prune modules entrypoints) ∧
      (NothingLost modules entrypoints ↔
        ((∃ m ∈ prune modules entrypoints, ∃ line before, Names m line before "data".toList) →
          prune modules entrypoints = modules) ∧
        ∀ m ∈ prune modules entrypoints, ∀ line before name, Names m line before name →
          IsHeadName m line before name →
            ∀ n ∈ modules, MayReach name n.package → n ∈ prune modules entrypoints) := by
  have hFollowed : ∀ m ∈ prune modules entrypoints, ∀ line before name, Names m line before name →
      name ≠ "data".toList → ¬IsHeadName m line before name →
        ∀ n ∈ modules, MayReach name n.package → n ∈ prune modules entrypoints := by
    intro m hm line before name hNames hBelow hHead n hn hReach
    obtain ⟨rest, rfl, hRelated⟩ := hReach.resolve_left hBelow
    obtain ⟨hMem, hReached⟩ := mem_prune_iff.mp hm
    obtain ⟨annotations, dialect, path, source, hModule⟩ := hScanned m hMem
    have hRefers := refersTo_of_moduleOf hModule hNames hHead
    exact mem_prune_iff.mpr ⟨hn,
      (isLeast_reachable modules entrypoints).1.follow m hMem hReached _ hRefers n hn hRelated⟩
  refine ⟨hFollowed, fun hNone => ⟨?_, ?_⟩, fun hExceptions => ?_⟩
  · rintro ⟨m, hm, line, before, hNames⟩
    rw [prune, List.filter_eq_self]
    intro n hn
    exact List.contains_iff_mem.mpr
      (mem_prune_iff.mp (hNone m hm line before _ hNames n hn (.inl rfl))).2
  · intro m hm line before name hNames _
    exact hNone m hm line before name hNames
  · obtain ⟨hWhole, hHeads⟩ := hExceptions
    intro m hm line before name hNames n hn hReach
    by_cases hAlone : name = "data".toList
    · subst hAlone
      rw [hWhole ⟨m, hm, line, before, hNames⟩]
      exact hn
    · by_cases hHead : IsHeadName m line before name
      · exact hHeads m hm line before name hNames hHead n hn hReach
      · exact hFollowed m hm line before name hNames hAlone hHead n hn hReach

/-- A module that refers to a rule of another package by its dotted name. -/
def following : Module where
  path := "a.rego"
  package := "a"
  imports := []
  rules := [⟨"allow", false, false, 2⟩]
  calls := []
  dataRefs := ["lib.ok"]
  packageEntrypoint := false
  dialect := .v1
  source := "package a\nallow if data.lib.ok\n"

/-- The same module with the name of the package in brackets. -/
def bracketing : Module :=
  { following with dataRefs := [], source := "package a\nallow if data[\"lib\"].ok\n" }

/-- A module of one rule. -/
def library : Module where
  path := "lib.rego"
  package := "lib"
  imports := []
  rules := [⟨"ok", false, false, 2⟩]
  calls := []
  dataRefs := []
  packageEntrypoint := false
  dialect := .v1
  source := "package lib\nok := true\n"

/-- A module that nothing refers to. -/
def spare : Module :=
  { library with path := "spare.rego", package := "spare", source := "package spare\nok := true\n" }

theorem moduleOf_library : moduleOf true .v1 "lib.rego" library.source = .ok library := by
  decide +kernel

/-- The package that is named is kept, and what nothing refers to is dropped. -/
theorem nothingLost_iff_following :
    library ∈ prune [following, library, spare] ["a.allow"] ∧
      spare ∉ prune [following, library, spare] ["a.allow"] := by
  have hScanned : ∀ m ∈ [following, library, spare], ∃ annotations dialect path source,
      moduleOf annotations dialect path source = .ok m := by
    have hFollowing : moduleOf true .v1 "a.rego" following.source = .ok following := by
      decide +kernel
    have hSpare : moduleOf true .v1 "spare.rego" spare.source = .ok spare := by decide +kernel
    simp only [List.forall_mem_cons]
    exact ⟨⟨_, _, _, _, hFollowing⟩, ⟨_, _, _, _, moduleOf_library⟩, ⟨_, _, _, _, hSpare⟩, by simp⟩
  have hKept : following ∈ prune [following, library, spare] ["a.allow"] :=
    mem_prune_of_related (by simp) List.mem_cons_self (by decide +kernel)
  let line : Line := ⟨2, "allow if data.lib.ok".toList, "allow if data.lib.ok".toList, false⟩
  have hLine : IsStatementLine following ((Line.ofSource following.source.toList).take 1) line :=
    ⟨⟨[], by decide +kernel⟩, by decide +kernel, by decide +kernel, by decide +kernel⟩
  have hName : NamedAt line "allow if ".toList "data.lib.ok".toList :=
    ⟨⟨[], by decide +kernel⟩, by decide +kernel, by decide +kernel, by decide +kernel⟩
  have hHead : ¬IsHeadName following line "allow if ".toList "data.lib.ok".toList := by
    rintro ⟨⟨rule, hRule, -, hRuleName⟩, -⟩
    obtain rfl := List.mem_singleton.mp hRule
    revert hRuleName
    decide +kernel
  refine ⟨(nothingLost_iff hScanned).1 following hKept line _ _ (.statement hLine hName)
    (by decide +kernel) hHead library (by simp)
      (.inr ⟨"lib.ok".toList, by decide +kernel, by decide +kernel⟩), ?_⟩
  have hClosed : IsClosed [following, library, spare] ["a.allow"] {p | p ∈ ["a", "lib"]} := by
    decide +kernel
  exact not_mem_prune_of_isClosed hClosed (by decide +kernel)

/-- The package in brackets is dropped. -/
theorem not_nothingLost_bracketing :
    ¬∀ modules entrypoints, (∀ m ∈ modules, ∃ annotations dialect path source,
      moduleOf annotations dialect path source = .ok m) → NothingLost modules entrypoints := by
  intro h
  have hScanned : ∀ m ∈ [bracketing, library], ∃ annotations dialect path source,
      moduleOf annotations dialect path source = .ok m := by
    have hBracketing : moduleOf true .v1 "a.rego" bracketing.source = .ok bracketing := by
      decide +kernel
    simp only [List.forall_mem_cons]
    exact ⟨⟨_, _, _, _, hBracketing⟩, ⟨_, _, _, _, moduleOf_library⟩, by simp⟩
  have hKept : bracketing ∈ prune [bracketing, library] ["a.allow"] :=
    mem_prune_of_related List.mem_cons_self List.mem_cons_self (by decide +kernel)
  let line : Line :=
    ⟨2, "allow if data[\"lib\"].ok".toList, "allow if data[\"\"].ok".toList, false⟩
  have hLine : IsStatementLine bracketing ((Line.ofSource bracketing.source.toList).take 1) line :=
    ⟨⟨[], by decide +kernel⟩, by decide +kernel, by decide +kernel, by decide +kernel⟩
  have hName : NamedAt line "allow if ".toList "data".toList :=
    ⟨⟨"[\"lib\"].ok".toList, by decide +kernel⟩, by decide +kernel, by decide +kernel,
      by decide +kernel⟩
  have hLost := h _ ["a.allow"] hScanned bracketing hKept line _ _ (.statement hLine hName) library
    (by simp) (.inl rfl)
  have hClosed : IsClosed [bracketing, library] ["a.allow"] {p | p = "a"} := by decide +kernel
  exact not_mem_prune_of_isClosed hClosed (by decide +kernel) hLost

end PolicyBundle.Build
