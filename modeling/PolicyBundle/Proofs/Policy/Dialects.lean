import PolicyBundle.Proofs.Policy.Rereading
import Mathlib.Data.List.Nodup

/-! What the dialect of a module decides. It only matters at the heads of rules, and there no longer
once `rego.v1` is imported. Version 0 asks for the import of keywords, version 1 does not, and the
dialect that should stand for both asks for nothing that version 1 does not ask for. -/

namespace PolicyBundle.Policy

namespace Scan

variable {dialect other : Dialect} {s t u : Scan} {line : Line} {lines : List Line}

/-- The dialect matters on a line only for the fault of a head. -/
theorem addLine_congr (file : String)
    (h : s.headFault? other line = s.headFault? dialect line) :
    addLine file other s line = addLine file dialect s line := by
  cases hCode : line.hasCode with
  | false => rw [addLine_of_blank hCode, addLine_of_blank hCode]
  | true =>
      cases hPackage : s.package with
      | none => rw [addLine_of_first hCode hPackage, addLine_of_first hCode hPackage]
      | some name =>
          have hBehind : s.package.isSome = true := by
            rw [hPackage]
            rfl
          rw [addLine_of_behind hCode hBehind, addLine_of_behind hCode hBehind]
          cases hImport : s.readsImport line with
          | true =>
              rw [addCode_of_import (s := { s with inMetadata := false }) hImport,
                addCode_of_import (s := { s with inMetadata := false }) hImport]
          | false =>
              have hFault : headFault? other { s with inMetadata := false } line =
                  headFault? dialect { s with inMetadata := false } line := h
              rw [addCode_of_code (s := { s with inMetadata := false }) hImport,
                addCode_of_code (s := { s with inMetadata := false }) hImport, hFault]

/-- Whether the syntax of version 1 is imported already. -/
def importsV1 (s : Scan) : Bool :=
  s.imports.any (·.path = "rego.v1")

theorem Reads.importsV1 (hReads : Reads dialect s line t) (hV1 : s.importsV1 = true) :
    t.importsV1 = true := by
  obtain ⟨more, hMore, -⟩ := hReads.extends.imports
  rw [Scan.importsV1, hMore, List.any_append, Bool.or_eq_true]
  exact Or.inl hV1

theorem headFault?_of_importsV1 (hV1 : s.importsV1 = true) (line : Line) :
    s.headFault? other line = s.headFault? dialect line := by
  have hApplies (d : Dialect) : appliesV1 d s.imports = true := by
    rw [appliesV1, Bool.or_eq_true]
    exact Or.inr hV1
  rw [headFault?, headFault?, ruleFault?, ruleFault?, hApplies other, hApplies dialect]

/-- Behind an import of `rego.v1` a run is the same in all dialects. -/
theorem foldlM_addLine_of_importsV1 (file : String) (hV1 : s.importsV1 = true)
    (lines : List Line) :
    lines.foldlM (addLine file other) s = lines.foldlM (addLine file dialect) s := by
  induction lines generalizing s with
  | nil => rfl
  | cons line rest ih =>
      rw [List.foldlM_cons, List.foldlM_cons, addLine_congr file (headFault?_of_importsV1 hV1 line)]
      cases hNext : addLine file dialect s line with
      | error e => rfl
      | ok next => exact ih (((addLine_eq_ok_iff file).mp hNext).importsV1 hV1)

/-- The fault that another dialect finds is all that can stand in its way. -/
theorem Reads.agree (hFirst : Reads dialect s line t) (hSecond : Reads other s line u) : u = t :=
  (hSecond.redialect_of_noFault hFirst.noFault).unique hFirst

theorem ReadsAll.agree (hFirst : ReadsAll dialect s lines t) (hSecond : ReadsAll other s lines u) :
    u = t := by
  induction hFirst with
  | nil s =>
      cases hSecond
      rfl
  | cons first _ ih =>
      obtain _ | ⟨first', others'⟩ := hSecond
      obtain rfl := first.agree first'
      exact ih others'

/-- A run is one in another dialect too exactly if that finds no fault with the heads of rules. -/
theorem ReadsAll.redialect_iff (hReads : ReadsAll dialect s lines t) :
    ReadsAll other s lines t ↔ ∀ before between line after, lines = before ++ line :: after →
      ReadsAll dialect s before between → between.readsCode line = true →
        between.headFault? other line = none := by
  induction hReads with
  | nil s =>
      refine iff_of_true (.nil s) ?_
      intro before between line after hNil
      simp at hNil
  | @cons s next t line rest first others ih =>
      constructor
      · rintro (_ | ⟨first', others'⟩) before between l after hLines hBefore hCode
        obtain rfl := first.agree first'
        cases hBefore with
        | nil =>
            cases hLines
            exact first'.noFault hCode
        | cons first'' hBefore =>
            rw [List.cons_append, List.cons.injEq] at hLines
            obtain ⟨rfl, hRest⟩ := hLines
            obtain rfl := first''.unique first
            exact ih.mp others' _ _ _ _ hRest hBefore hCode
      · intro hFaults
        have first' := first.redialect_of_noFault (hFaults [] s line rest rfl (.nil s))
        refine .cons first' (ih.mpr ?_)
        intro before between l after hRest hBefore hCode
        exact hFaults (line :: before) between l after (by rw [hRest]; rfl) (.cons first hBefore) hCode

theorem headFault?_of_noHead (hNone : s.headOf line = none) : s.headFault? dialect line = none := by
  rw [headFault?, hNone]
  rfl

/-- As long as no rule is found a run is the same in all dialects. -/
theorem ReadsAll.redialect_of_noRules (hReads : ReadsAll dialect s lines t)
    (hRules : t.rules = []) : ReadsAll other s lines t := by
  rw [hReads.redialect_iff]
  intro before between line after hLines hBefore hCode
  apply headFault?_of_noHead
  by_contra hHead
  obtain ⟨head, hHead⟩ := Option.ne_none_iff_exists'.mp hHead
  have hRule : (⟨String.ofList head.name, head.isFunction, between.pendingEntrypoint, line.number⟩ :
      Rule) ∈ t.rules := by
    rw [hReads.mem_iff Scan.rules Scan.ruleOn fun _ _ _ h => h.found.1]
    exact Or.inr ⟨before, between, line, after, hLines, hBefore, hCode,
      mem_ruleOn_iff.mpr ⟨head, hHead, rfl⟩⟩
  rw [hRules] at hRule
  cases hRule

theorem ofSource_congr (file : String) (h : other.requiresIf = dialect.requiresIf)
    (source : List Char) : ofSource file other source = ofSource file dialect source := by
  have hLine : addLine file other = addLine file dialect := by
    funext s line
    exact addLine_congr file (headFault?_congr h s line)
  rw [ofSource, ofSource, hLine]

end Scan

section Modules

variable {path source : String} {dialect other : Dialect} {m : Module}

/-- The dialect of a module is a mere label where the scans agree. -/
theorem Module.parse_congr
    (h : Scan.ofSource path other source.toList = Scan.ofSource path dialect source.toList) :
    Module.parse path source other =
      (Module.parse path source dialect).map fun m => { m with dialect := other } := by
  rw [Module.parse, Module.parse, h]
  cases Scan.ofSource path dialect source.toList with
  | error e => rfl
  | ok s =>
      simp only [bind, Except.bind]
      cases s.package <;> rfl

/-- The scan of a source meets an import of `rego.v1` in front of the first head of a rule: behind
some of its lines there is such an import and no rule yet. -/
def MeetsV1First (source : List Char) : Prop :=
  ∃ dialect before after s, Line.ofSource source = before ++ after ∧
    Scan.ReadsAll dialect .empty before s ∧ s.rules = [] ∧ s.importsV1 = true

/-- A source that imports `rego.v1` in front of all rules is the same in all dialects: it has the
same error, or modules that differ in nothing but the dialect. -/
theorem parse_eq_of_meetsV1First (hMeets : MeetsV1First source.toList) (path : String)
    (dialect other : Dialect) :
    Module.parse path source other =
      (Module.parse path source dialect).map fun m => { m with dialect := other } := by
  apply Module.parse_congr
  obtain ⟨first, before, after, s, hLines, hBefore, hRules, hV1⟩ := hMeets
  have hFront (d : Dialect) : before.foldlM (Scan.addLine path d) Scan.empty = .ok s :=
    (Scan.foldlM_addLine_eq_ok_iff path).mpr (hBefore.redialect_of_noRules hRules)
  rw [Scan.ofSource, Scan.ofSource, hLines, List.foldlM_append, List.foldlM_append, hFront other,
    hFront dialect]
  exact Scan.foldlM_addLine_of_importsV1 path hV1 after

/-- A source with a body without `if`, which version 0 would accept but for the import above it. -/
def bodyBelowImport : String :=
  "package p\nimport rego.v1\nallow \x7b\n  true\n\x7d\n"

theorem parse_eq_of_meetsV1First_bodyBelowImport :
    MeetsV1First bodyBelowImport.toList ∧
      Module.parse "policy.rego" bodyBelowImport .v0 =
        .error ⟨"policy.rego", 3, .ifRequired⟩ := by
  let before := (Line.ofSource bodyBelowImport.toList).take 2
  let s : Scan := { Scan.empty with
    package := some "p", imports := [⟨"rego.v1", none, 2⟩] }
  have hReads : Scan.ReadsAll .v1 .empty before s :=
    (Scan.foldlM_addLine_eq_ok_iff "policy.rego").mp rfl
  have hMeets : MeetsV1First bodyBelowImport.toList := ⟨.v1, before, _, s, rfl, hReads, rfl, rfl⟩
  refine ⟨hMeets, ?_⟩
  rw [parse_eq_of_meetsV1First hMeets "policy.rego" .v1 .v0]
  rfl

/-- The imports of a module above a line. -/
def Module.importsAbove (m : Module) (number : Nat) : List Import :=
  m.imports.filter (·.line < number)

/-- Each keyword of later versions on the line of a rule's head is imported above it. -/
def KeywordsImported (m : Module) : Prop :=
  ∀ rule ∈ m.rules, ∀ line ∈ Line.ofSource m.source.toList, line.number = rule.line →
    ∀ keyword ∈ ["if", "contains"], keyword.toList ∈ words line.code →
      keywordImported (m.importsAbove rule.line) keyword = true

/-- The imports that a scan has found are those above the next line. -/
theorem Module.importsAbove_eq (hParse : Module.parse path source dialect = .ok m)
    {before after : List Line} {line : Line} {s : Scan}
    (hSplit : Line.ofSource source.toList = before ++ line :: after)
    (hReads : Scan.ReadsAll dialect .empty before s) :
    m.importsAbove line.number = s.imports := by
  have hOrder := Line.pairwise_ofSource source.toList
  rw [hSplit, List.pairwise_append, List.pairwise_cons] at hOrder
  obtain ⟨-, ⟨hAfter, -⟩, hBefore⟩ := hOrder
  obtain ⟨found, hFound, hAbove⟩ := hReads.extends.imports
  obtain ⟨more, hMore, hBelow⟩ := Module.exists_imports_below hParse hSplit hReads
  rw [show Scan.empty.imports = [] from rfl, List.nil_append] at hFound
  have hKept : s.imports.filter (·.line < line.number) = s.imports := by
    rw [List.filter_eq_self]
    intro i hi
    rw [hFound] at hi
    obtain ⟨l, hl, hNumber⟩ := List.mem_map.mp (hAbove i hi)
    rw [← hNumber]
    exact decide_eq_true (hBefore l hl line List.mem_cons_self)
  have hDropped : more.filter (·.line < line.number) = [] := by
    rw [List.filter_eq_nil_iff]
    intro i hi
    obtain ⟨l, hl, hNumber⟩ := List.mem_map.mp (hBelow i hi)
    rw [← hNumber, decide_eq_true_eq, Nat.not_lt]
    rcases List.mem_cons.mp hl with rfl | hl
    · exact Nat.le_refl _
    · exact Nat.le_of_lt (hAfter l hl)
  rw [Module.importsAbove, hMore, List.filter_append, hKept, hDropped, List.append_nil]

/-- What holds at each head of a rule that a scan comes to holds at the lines of the rules. -/
theorem Module.forall_heads_iff (hParse : Module.parse path source dialect = .ok m)
    (holds : List Import → List Char → Prop) :
    (∀ before s line after, Line.ofSource source.toList = before ++ line :: after →
      Scan.ReadsAll dialect .empty before s → s.readsCode line = true →
        (s.headOf line).isSome = true → holds s.imports line.code) ↔
      ∀ rule ∈ m.rules, ∀ line ∈ Line.ofSource source.toList, line.number = rule.line →
        holds (m.importsAbove rule.line) line.code := by
  constructor
  · intro hHeads rule hRule line hLine hNumber
    obtain ⟨before, s, found, after, hSplit, hReads, hCode, hOn⟩ :=
      (Module.mem_rules_iff hParse).mp hRule
    obtain ⟨head, hHead, rfl⟩ := Scan.mem_ruleOn_iff.mp hOn
    have hFound : found ∈ Line.ofSource source.toList := by
      rw [hSplit]
      exact List.mem_append_right _ List.mem_cons_self
    obtain rfl : line = found :=
      List.inj_on_of_nodup_map (Line.nodup_ofSource source.toList) hLine hFound hNumber
    rw [Module.importsAbove_eq hParse hSplit hReads]
    exact hHeads before s line after hSplit hReads hCode (by rw [hHead]; rfl)
  · intro hLines before s line after hSplit hReads hCode hHead
    obtain ⟨head, hHead⟩ := Option.isSome_iff_exists.mp hHead
    have hRule : ⟨String.ofList head.name, head.isFunction, s.pendingEntrypoint, line.number⟩ ∈
        m.rules :=
      (Module.mem_rules_iff hParse).mpr ⟨before, s, line, after, hSplit, hReads, hCode,
        Scan.mem_ruleOn_iff.mpr ⟨head, hHead, rfl⟩⟩
    have hHolds := hLines _ hRule line (by rw [hSplit]; simp) rfl
    rwa [Module.importsAbove_eq hParse hSplit hReads] at hHolds

/-- A line that version 1 accepts has no fault in version 0 exactly if its keywords are imported. -/
theorem ruleFault?_v0_iff {imports : List Import} {code : List Char}
    (hV1 : ruleFault? .v1 imports code = none) :
    ruleFault? .v0 imports code = none ↔ ∀ keyword ∈ ["if", "contains"],
      keyword.toList ∈ words code → keywordImported imports keyword = true := by
  have hApplies : appliesV1 .v1 imports = true := rfl
  rw [ruleFault?, hApplies, if_pos rfl] at hV1
  have hOld : appliesV1 .v0 imports = imports.any (·.path = "rego.v1") := by
    rw [appliesV1, show Dialect.v0.requiresIf = false from rfl, Bool.false_or]
  cases hImported : imports.any (·.path = "rego.v1") with
  | true =>
      rw [ruleFault?, hOld, hImported, if_pos rfl, hV1]
      refine iff_of_true rfl ?_
      intro keyword _ _
      obtain ⟨i, hi, hPath⟩ := List.any_eq_true.mp hImported
      refine List.any_eq_true.mpr ⟨i, hi, ?_⟩
      rw [hPath]
      rfl
  | false =>
      rw [ruleFault?, hOld, hImported, if_neg Bool.false_ne_true, Option.map_eq_none_iff,
        List.find?_eq_none]
      refine forall₂_congr fun keyword _ => ?_
      rw [Bool.and_eq_true, List.contains_iff_mem, Bool.not_eq_true', not_and,
        Bool.not_eq_false]

/-- Two dialects that accept a source read the same module. -/
theorem Module.parse_agree {old : Module} (hParse : Module.parse path source dialect = .ok m)
    (hOther : Module.parse path source other = .ok old) : old = { m with dialect := other } := by
  obtain ⟨u, name, hReads, hName, rfl⟩ := Module.parse_eq_ok_iff.mp hParse
  obtain ⟨v, another, hReads', hName', rfl⟩ := Module.parse_eq_ok_iff.mp hOther
  obtain rfl := hReads.agree hReads'
  obtain rfl := Option.some.inj (hName.symm.trans hName')
  rfl

/-- A module of version 1 is one of version 0 exactly if the keywords on the heads of its rules are
imported. -/
theorem exists_parse_v0_iff (hParse : Module.parse path source .v1 = .ok m) :
    (∃ old, Module.parse path source .v0 = .ok old) ↔ KeywordsImported m := by
  have hHeads := Module.forall_heads_iff hParse fun imports code =>
    ∀ keyword ∈ ["if", "contains"], keyword.toList ∈ words code →
      keywordImported imports keyword = true
  obtain ⟨u, name, hAll, hName, hEq⟩ := Module.parse_eq_ok_iff.mp hParse
  have hFaults : Scan.ReadsAll .v0 .empty (Line.ofSource source.toList) u ↔
      KeywordsImported m := by
    rw [hAll.redialect_iff, KeywordsImported, Module.parse_source hParse, ← hHeads]
    refine forall₄_congr fun before s line after => ?_
    refine forall₃_congr fun hSplit hReads hCode => ?_
    cases hHead : (s.headOf line).isSome with
    | false =>
        rw [Scan.headFault?, hHead]
        simp
    | true =>
        have hV1 : s.headFault? .v1 line = none := by
          rw [hSplit] at hAll
          obtain ⟨s', hReads', _ | ⟨first, -⟩⟩ := Scan.readsAll_append_iff.mp hAll
          obtain rfl := hReads'.unique hReads
          exact first.noFault hCode
        rw [Scan.headFault?, hHead, if_pos rfl] at hV1 ⊢
        rw [ruleFault?_v0_iff hV1]
        simp
  rw [← hFaults]
  constructor
  · rintro ⟨old, hOld⟩
    obtain ⟨v, other, hReads, -, -⟩ := Module.parse_eq_ok_iff.mp hOld
    obtain rfl := hAll.agree hReads
    exact hReads
  · intro hReads
    exact ⟨_, Module.parse_eq_ok_iff.mpr ⟨u, name, hReads, hName, rfl⟩⟩

end Modules

/-- The dialect for both versions accepts a source that both accept and no other, and then all three
read the same module. -/
def CompatIsBoth (path source : String) : Prop :=
  ((∃ m, Module.parse path source .v0CompatV1 = .ok m) ↔
    (∃ m, Module.parse path source .v0 = .ok m) ∧ ∃ m, Module.parse path source .v1 = .ok m) ∧
  ∀ m old new, Module.parse path source .v0CompatV1 = .ok m →
    Module.parse path source .v0 = .ok old → Module.parse path source .v1 = .ok new →
      old = { m with dialect := .v0 } ∧ new = { m with dialect := .v1 }

/-- The dialect for both versions is version 1 by another name. It accepts what both versions accept
exactly for sources whose modules of version 1 import the keywords on the heads of their rules, for
these are the modules of version 1 that version 0 accepts. -/
theorem compatIsBoth_iff (path source : String) :
    Module.parse path source .v0CompatV1 =
        (Module.parse path source .v1).map (fun m => { m with dialect := .v0CompatV1 }) ∧
      (∀ m, Module.parse path source .v1 = .ok m →
        ((∃ old, Module.parse path source .v0 = .ok old) ↔ KeywordsImported m)) ∧
      (CompatIsBoth path source ↔ ∀ m, Module.parse path source .v1 = .ok m →
        KeywordsImported m) := by
  have hLabel : Module.parse path source .v0CompatV1 =
      (Module.parse path source .v1).map fun m => { m with dialect := .v0CompatV1 } :=
    Module.parse_congr (Scan.ofSource_congr path rfl source.toList)
  have hAccepts : (∃ m, Module.parse path source .v0CompatV1 = .ok m) ↔
      ∃ m, Module.parse path source .v1 = .ok m := by
    rw [hLabel]
    cases Module.parse path source .v1 with
    | error e => simp [Except.map]
    | ok m => simp [Except.map]
  refine ⟨hLabel, fun m hParse => exists_parse_v0_iff hParse, ?_⟩
  constructor
  · rintro ⟨hBoth, -⟩ m hParse
    rw [← exists_parse_v0_iff hParse]
    exact (hBoth.mp (hAccepts.mpr ⟨m, hParse⟩)).1
  · intro hImported
    refine ⟨?_, ?_⟩
    · rw [hAccepts]
      constructor
      · rintro ⟨m, hParse⟩
        exact ⟨(exists_parse_v0_iff hParse).mpr (hImported m hParse), m, hParse⟩
      · exact And.right
    · intro m old new hParse hOld hNew
      exact ⟨Module.parse_agree hParse hOld, Module.parse_agree hParse hNew⟩

/-- A rule with an `if` that no import announces. Version 0 does not accept it. -/
def keywordWithoutImport : String :=
  "package p\nallow if true\n"

theorem not_compatIsBoth_keywordWithoutImport :
    ¬CompatIsBoth "policy.rego" keywordWithoutImport := by
  rintro ⟨hBoth, -⟩
  have hOld : Module.parse "policy.rego" keywordWithoutImport .v0 =
      .error ⟨"policy.rego", 2, .keywordNotImported "if"⟩ := rfl
  obtain ⟨m, hParse⟩ := (hBoth.mp ⟨_, rfl⟩).1
  rw [hOld] at hParse
  cases hParse

end PolicyBundle.Policy
