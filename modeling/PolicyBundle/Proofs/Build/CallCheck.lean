import PolicyBundle.Build.Check
import PolicyBundle.Capability.Catalog
import PolicyBundle.Proofs.Policy.Calls

/-! What calls the check of capabilities lets through. It sees every call but those of reserved words,
and one reserved word is the name of a builtin function as well. -/

namespace PolicyBundle.Build

open Policy

/-- Whether a module among others may call a function: the capabilities have it, a module of the same
package defines it, or an import gives the module its first segment. -/
def MayCall (capabilities : Capabilities) (modules : List Module) (m : Module) (name : String) :
    Prop :=
  capabilities.hasBuiltin name = true ∨
    (∃ n ∈ modules, n.package = m.package ∧
      ∃ rule ∈ n.rules, rule.isFunction = true ∧ rule.name = name) ∨
    ∃ i ∈ m.imports, i.localName = some (Text.firstPiece '.' name)

/-- Whether some known version has a builtin function. -/
def IsKnownBuiltin (name : String) : Prop :=
  ∃ known ∈ Capability.catalog, known.2.hasBuiltin name = true

instance (name : String) : Decidable (IsKnownBuiltin name) :=
  inferInstanceAs (Decidable (∃ known ∈ Capability.catalog, known.2.hasBuiltin name = true))

/-- No call escapes: what a module calls, documents apart, it may call, or it is a reserved word that
is no builtin function. -/
def NoCallEscapes (capabilities : Capabilities) (modules : List Module) : Prop :=
  ∀ m ∈ modules, ∀ line name, MakesCall m line name → ¬IsDocument name →
    MayCall capabilities modules m name ∨ name.toList ∈ keywords ∧ ¬IsKnownBuiltin name

theorem isCovered_iff {capabilities : Capabilities} {modules : List Module} {m : Module}
    {call : Call} : isCovered capabilities modules m call = true ↔
      MayCall capabilities modules m call.name := by
  have hDefines : definesFunction modules m.package call.name = true ↔
      ∃ n ∈ modules, n.package = m.package ∧
        ∃ rule ∈ n.rules, rule.isFunction = true ∧ rule.name = call.name := by
    simp only [definesFunction, Module.functionNames, List.any_eq_true, Bool.and_eq_true,
      decide_eq_true_eq, List.contains_iff_mem, List.mem_map, List.mem_filter, and_assoc]
  have hImports : m.imports.any (·.localName = some (Text.firstPiece '.' call.name)) = true ↔
      ∃ i ∈ m.imports, i.localName = some (Text.firstPiece '.' call.name) := by
    simp only [List.any_eq_true, decide_eq_true_eq]
  rw [isCovered, Bool.or_eq_true, Bool.or_eq_true, hDefines, hImports, MayCall]
  constructor
  · rintro ((hFunction | hImport) | hBuiltin)
    · exact Or.inr (Or.inl hFunction)
    · exact Or.inr (Or.inr hImport)
    · exact Or.inl hBuiltin
  · rintro (hBuiltin | hFunction | hImport)
    · exact Or.inr hBuiltin
    · exact Or.inl (Or.inl hFunction)
    · exact Or.inl (Or.inr hImport)

/-- Where nothing is reported, every recorded call is covered. -/
theorem mayCall_of_check {capabilities : Capabilities} {modules : List Module}
    (hCheck : check capabilities modules = []) {m : Module} (hm : m ∈ modules) {call : Call}
    (hCall : call ∈ m.calls) : MayCall capabilities modules m call.name := by
  rw [← isCovered_iff]
  by_contra hUncovered
  have hModule := List.flatMap_eq_nil_iff.mp hCheck m hm
  simp only [checkModule, List.append_eq_nil_iff, List.map_eq_nil_iff,
    List.filter_eq_nil_iff] at hModule
  exact hModule.2 call hCall (by simpa using hUncovered)

/-- The reserved words that are builtin functions. -/
theorem eq_contains_of_known {name : String} (hWord : name.toList ∈ keywords)
    (hKnown : IsKnownBuiltin name) : name = "contains" := by
  have hWords : ∀ word ∈ keywords, IsKnownBuiltin (String.ofList word) →
      word = "contains".toList := by decide +kernel
  have hName := hWords _ hWord (by rwa [String.ofList_toList])
  rw [← String.ofList_toList (s := name), hName]
  rfl

/-- Where nothing is reported, every call is one that the module may make or one of a reserved word.
So no call escapes exactly if the modules that call `contains` may call it. -/
theorem noCallEscapes_iff {capabilities : Capabilities} {modules : List Module}
    (hScanned : ∀ m ∈ modules, ∃ path source dialect, Module.parse path source dialect = .ok m)
    (hCheck : check capabilities modules = []) :
    (∀ m ∈ modules, ∀ line name, MakesCall m line name → ¬IsDocument name →
      MayCall capabilities modules m name ∨ name.toList ∈ keywords) ∧
      (NoCallEscapes capabilities modules ↔ ∀ m ∈ modules, ∀ line,
        MakesCall m line "contains" → MayCall capabilities modules m "contains") := by
  have hSeen : ∀ m ∈ modules, ∀ line name, MakesCall m line name → ¬IsDocument name →
      MayCall capabilities modules m name ∨ name.toList ∈ keywords := by
    intro m hm line name hCall hDocument
    by_cases hWord : name.toList ∈ keywords
    · exact Or.inr hWord
    · obtain ⟨path, source, dialect, hParse⟩ := hScanned m hm
      exact Or.inl (mayCall_of_check hCheck hm
        (mem_calls_of_makesCall hParse hCall hDocument hWord))
  refine ⟨hSeen, ?_, ?_⟩
  · intro hNone m hm line hCall
    have hKnown : IsKnownBuiltin "contains" := by decide +kernel
    exact (hNone m hm line "contains" hCall (by decide)).resolve_right fun h => h.2 hKnown
  · intro hContains m hm line name hCall hDocument
    rcases hSeen m hm line name hCall hDocument with hMay | hWord
    · exact Or.inl hMay
    · by_cases hKnown : IsKnownBuiltin name
      · obtain rfl := eq_contains_of_known hWord hKnown
        exact Or.inl (hContains m hm line hCall)
      · exact Or.inr ⟨hWord, hKnown⟩

/-- A module that calls a builtin function whose name is a reserved word. -/
def callingContains : Module where
  path := "policy.rego"
  package := "p"
  imports := []
  rules := [⟨"allow", false, false, 2⟩]
  calls := []
  dataRefs := []
  packageEntrypoint := false
  dialect := .v1
  source := "package p\nallow if contains(\"abc\", \"b\")\n"

/-- The capabilities of version 1 without any builtin function. -/
def withoutBuiltins : Capabilities :=
  { Capabilities.empty with features := [Capabilities.featureV1] }

/-- A call of a function that the capabilities do not have, and nothing is reported. -/
theorem not_noCallEscapes_callingContains :
    Module.parse "policy.rego" callingContains.source .v1 = .ok callingContains ∧
      check withoutBuiltins [callingContains] = [] ∧
      ¬NoCallEscapes withoutBuiltins [callingContains] := by
  refine ⟨by decide +kernel, by decide +kernel, fun hNone => ?_⟩
  let line : Line :=
    ⟨2, "allow if contains(\"abc\", \"b\")".toList, "allow if contains(\"\", \"\")".toList, false⟩
  have hLine : IsStatementLine callingContains
      ((Line.ofSource callingContains.source.toList).take 1) line :=
    ⟨⟨[], by decide +kernel⟩, by decide +kernel, by decide +kernel, by decide +kernel⟩
  have hCall : CallsAt line "allow if ".toList "contains".toList := by
    refine ⟨⟨"\"abc\", \"b\")".toList, by decide +kernel⟩, by decide +kernel, by decide +kernel, ?_⟩
    have hSegments : "contains".toList.splitOn '.' = ["contains".toList] := by decide +kernel
    rw [IsDottedName, hSegments, List.forall_mem_singleton]
    have hRest : "ontains".toList.all isIdentChar = true := by decide +kernel
    exact ⟨'c', "ontains".toList, by decide +kernel, by decide, List.all_eq_true.mp hRest⟩
  have hHead : ¬IsHeadName callingContains line "allow if ".toList "contains".toList := by
    rintro ⟨⟨rule, hRule, -, hName⟩, -⟩
    obtain rfl := List.mem_singleton.mp hRule
    revert hName
    decide +kernel
  have hEscapes := hNone callingContains List.mem_cons_self line "contains"
    ⟨_, _, hLine, hCall, hHead⟩ (by decide +kernel)
  rcases hEscapes with (hBuiltin | ⟨n, hn, -, rule, hRule, hFunction, -⟩ | ⟨i, hi, -⟩) | ⟨-, hKnown⟩
  · cases hBuiltin
  · obtain rfl := List.mem_singleton.mp hn
    obtain rfl := List.mem_singleton.mp hRule
    cases hFunction
  · cases hi
  · exact hKnown (by decide +kernel)

theorem noCallEscapes_iff_callingContains :
    check withoutBuiltins [callingContains] = [] ∧
      (NoCallEscapes withoutBuiltins [callingContains] ↔ ∀ m ∈ [callingContains], ∀ line,
        MakesCall m line "contains" → MayCall withoutBuiltins [callingContains] m "contains") := by
  have hParse : Module.parse "policy.rego" callingContains.source .v1 = .ok callingContains := by
    decide +kernel
  have hCheck : check withoutBuiltins [callingContains] = [] := by decide +kernel
  have hScanned : ∀ m ∈ [callingContains], ∃ path source dialect,
      Module.parse path source dialect = .ok m := by
    rw [List.forall_mem_singleton]
    exact ⟨_, _, _, hParse⟩
  exact ⟨hCheck, (noCallEscapes_iff hScanned hCheck).2⟩

end PolicyBundle.Build
