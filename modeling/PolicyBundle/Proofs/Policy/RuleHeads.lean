import PolicyBundle.Proofs.Policy.Lexing
import PolicyBundle.Proofs.Policy.Scanning
import Mathlib.Algebra.BigOperators.Group.List.Basic
import Mathlib.Algebra.Ring.Int.Defs

/-! Where the heads of rules are found. The scan keeps count of open brackets, but a line that begins
inside a raw string counts for nothing there, so the count is right up to the brackets behind the
ends of such strings. -/

namespace PolicyBundle.Policy

/-- Whether one of some imports stands on a line. -/
def Line.isImportOf (imports : List Import) (line : Line) : Bool :=
  imports.any (·.line = line.number)

/-- The lines of code behind the package line, which is the first line of code. -/
def behindPackage (lines : List Line) : List Line :=
  (lines.filter (·.hasCode)).tail

/-- Those lines of code behind the package line that are no imports. -/
def statementLines (imports : List Import) (lines : List Line) : List Line :=
  (behindPackage lines).filter fun l => !l.isImportOf imports

/-- Whether the line of code before the next one asks for it. The package line and imports do not. -/
def asksForMore (imports : List Import) (before : List Line) : Bool :=
  match (behindPackage before).getLast? with
  | none => false
  | some l => !l.isImportOf imports && continues (Text.trim l.code)

/-- How many brackets are open before a line: those opened less those closed, outside strings, raw
strings and comments, on the lines of statements before it. -/
def openBefore (imports : List Import) (before : List Line) : Int :=
  ((statementLines imports before).map Line.openBrackets).sum

/-- What lines that begin inside a raw string contribute to that: the brackets behind the ends of
such strings. -/
def openBehindStrings (imports : List Import) (before : List Line) : Int :=
  (((statementLines imports before).filter Line.inString).map Line.openBrackets).sum

/-- A line of a module's statements, with the lines before it. -/
structure IsStatementLine (m : Module) (before : List Line) (line : Line) : Prop where
  source : ∃ after, Line.ofSource m.source.toList = before ++ line :: after
  code : line.hasCode = true
  behind : ∃ first ∈ before, first.hasCode = true
  notImport : line.isImportOf m.imports = false

/-- Whether a module has the head of a rule on a line. -/
def HeadRecorded (m : Module) (line : Line) : Prop :=
  ∃ rule ∈ m.rules, rule.line = line.number

instance (m : Module) (line : Line) : Decidable (HeadRecorded m line) :=
  inferInstanceAs (Decidable (∃ rule ∈ m.rules, rule.line = line.number))

/-- What the head of a rule needs beside closed brackets: the line begins outside raw strings, the
line of code before it does not ask for it, and it looks like a head. -/
structure MayHaveHead (m : Module) (before : List Line) (line : Line) : Prop where
  outsideStrings : line.inString = false
  notAsked : asksForMore m.imports before = false
  head : (parseHead line.code).isSome = true

theorem behindPackage_append_of_blank {done : List Line} {line : Line}
    (hBlank : line.hasCode = false) : behindPackage (done ++ [line]) = behindPackage done := by
  rw [behindPackage, List.filter_append, List.filter_cons_of_neg (by rw [hBlank]; simp),
    List.filter_nil, List.append_nil, behindPackage]

theorem behindPackage_append_of_code {done : List Line} {line : Line} (hCode : line.hasCode = true)
    (hDone : done.filter (·.hasCode) ≠ []) :
    behindPackage (done ++ [line]) = behindPackage done ++ [line] := by
  rw [behindPackage, List.filter_append, List.filter_cons_of_pos hCode, List.filter_nil,
    List.tail_append_of_ne_nil hDone, behindPackage]

theorem mem_of_mem_behindPackage {lines : List Line} {l : Line} (h : l ∈ behindPackage lines) :
    l ∈ lines :=
  List.mem_of_mem_filter (List.mem_of_mem_tail h)

theorem isImportOf_append {imports more : List Import} {line : Line}
    (hOther : ∀ i ∈ more, i.line ≠ line.number) :
    line.isImportOf (imports ++ more) = line.isImportOf imports := by
  have hNone : more.any (·.line = line.number) = false := by
    rw [List.any_eq_false]
    intro i hi
    simpa using hOther i hi
  rw [Line.isImportOf, List.any_append, hNone, Bool.or_false, Line.isImportOf]

/-- Imports on other lines do not make a difference for some lines. -/
theorem statementLines_append {imports more : List Import} {lines : List Line}
    (hOther : ∀ i ∈ more, ∀ l ∈ lines, i.line ≠ l.number) :
    statementLines (imports ++ more) lines = statementLines imports lines := by
  apply List.filter_congr
  intro l hl
  rw [isImportOf_append fun i hi => hOther i hi l (mem_of_mem_behindPackage hl)]

theorem asksForMore_append {imports more : List Import} {lines : List Line}
    (hOther : ∀ i ∈ more, ∀ l ∈ lines, i.line ≠ l.number) :
    asksForMore (imports ++ more) lines = asksForMore imports lines := by
  rw [asksForMore, asksForMore]
  cases hLast : (behindPackage lines).getLast? with
  | none => rfl
  | some l =>
      have hl : l ∈ lines := mem_of_mem_behindPackage (List.mem_of_getLast? hLast)
      simp only [isImportOf_append fun i hi => hOther i hi l hl]

namespace Scan

/-- What a scan remembers of the lines behind it. -/
structure Remembers (done : List Line) (s : Scan) : Prop where
  package : s.package = none ↔ done.filter (·.hasCode) = []
  importLine : ∀ i ∈ s.imports, ∃ l ∈ done, l.number = i.line
  ruleLine : ∀ r ∈ s.rules, ∃ l ∈ done, l.number = r.line
  depth : s.depth =
    ((statementLines s.imports done).map fun l => bracketBalance false l.code).sum
  continued : s.continued = asksForMore s.imports done

variable {dialect : Dialect} {s t : Scan} {line : Line} {done : List Line}

theorem remembers_empty : Remembers [] empty := by
  refine ⟨by simp [empty], ?_, ?_, rfl, rfl⟩
  · intro i hi
    cases hi
  · intro r hr
    cases hr

/-- Lines read before stay imports or not, whatever is imported on a later line. -/
theorem Remembers.isImportOf_eq (hDone : Remembers done s)
    (hNew : ∀ l ∈ done, l.number ≠ line.number) : line.isImportOf s.imports = false := by
  rw [Line.isImportOf, List.any_eq_false]
  intro i hi
  obtain ⟨l, hl, hNumber⟩ := hDone.importLine i hi
  have hNe := hNew l hl
  rw [hNumber] at hNe
  simpa using hNe

/-- The lines of findings are still among the lines read when there is one more. -/
theorem Remembers.importLine_append (hDone : Remembers done s) :
    ∀ i ∈ s.imports, ∃ l ∈ done ++ [line], l.number = i.line := by
  intro i hi
  obtain ⟨l, hl, hNumber⟩ := hDone.importLine i hi
  exact ⟨l, List.mem_append_left _ hl, hNumber⟩

theorem Remembers.ruleLine_append (hDone : Remembers done s) :
    ∀ r ∈ s.rules, ∃ l ∈ done ++ [line], l.number = r.line := by
  intro r hr
  obtain ⟨l, hl, hNumber⟩ := hDone.ruleLine r hr
  exact ⟨l, List.mem_append_left _ hl, hNumber⟩

/-- Once a package is declared there is a line with code. -/
theorem Remembers.filter_ne_nil (hDone : Remembers done s) (hPackage : s.package.isSome = true) :
    done.filter (·.hasCode) ≠ [] := by
  intro hNone
  rw [hDone.package.mpr hNone] at hPackage
  cases hPackage

theorem package_append_of_code {package : Option String} (hPackage : package.isSome = true)
    (hCode : line.hasCode = true) :
    package = none ↔ (done ++ [line]).filter (·.hasCode) = [] := by
  constructor
  · rintro rfl
    cases hPackage
  · intro hNone
    simp [List.filter_append, hCode] at hNone

/-- A blank line keeps the memory right. -/
theorem Remembers.blank (hDone : Remembers done s) (hBlank : line.hasCode = false) :
    Remembers (done ++ [line]) (s.passOver line) := by
  have hFilter : (done ++ [line]).filter (·.hasCode) = done.filter (·.hasCode) := by
    rw [List.filter_append, List.filter_cons_of_neg (by rw [hBlank]; simp), List.filter_nil,
      List.append_nil]
  have hBehind : behindPackage (done ++ [line]) = behindPackage done :=
    behindPackage_append_of_blank hBlank
  rw [passOver_eq]
  refine ⟨?_, hDone.importLine_append, hDone.ruleLine_append, ?_, ?_⟩
  · rw [hFilter]
    exact hDone.package
  · rw [statementLines, hBehind]
    exact hDone.depth
  · rw [asksForMore, hBehind]
    exact hDone.continued

/-- The first line with code stands before all that is counted. -/
theorem Remembers.packageLine (hDone : Remembers done s) (hCode : line.hasCode = true)
    (hFirst : s.package = none) (name : String) :
    Remembers (done ++ [line]) { s with
      package := some name
      packageEntrypoint := s.pendingEntrypoint
      pendingEntrypoint := false
      inMetadata := false } := by
  have hFilter : (done ++ [line]).filter (·.hasCode) = [line] := by
    rw [List.filter_append, hDone.package.mp hFirst, List.filter_cons_of_pos hCode]
    rfl
  have hBefore : behindPackage done = [] := by
    rw [behindPackage, hDone.package.mp hFirst, List.tail_nil]
  have hBehind : behindPackage (done ++ [line]) = [] := by
    rw [behindPackage, hFilter, List.tail_cons]
  refine ⟨package_append_of_code rfl hCode, hDone.importLine_append, hDone.ruleLine_append, ?_, ?_⟩
  · have hDepth := hDone.depth
    rw [statementLines, hBefore] at hDepth
    rw [statementLines, hBehind]
    exact hDepth
  · have hContinued := hDone.continued
    rw [asksForMore, hBefore] at hContinued
    rw [asksForMore, hBehind]
    exact hContinued

/-- An import is on its own line, which opens nothing and asks for nothing. -/
theorem Remembers.addImport (hDone : Remembers done s) (hNew : ∀ l ∈ done, l.number ≠ line.number)
    (hCode : line.hasCode = true) (hPackage : s.package.isSome = true) {found : Import}
    (hLine : found.line = line.number) :
    Remembers (done ++ [line]) { s with
      imports := s.imports ++ [found]
      pendingEntrypoint := false
      continued := false
      inMetadata := false } := by
  have hBehind := behindPackage_append_of_code hCode (hDone.filter_ne_nil hPackage)
  have hIsImport : line.isImportOf (s.imports ++ [found]) = true := by
    simp [Line.isImportOf, hLine]
  have hOther : ∀ i ∈ [found], ∀ l ∈ done, i.line ≠ l.number := by
    intro i hi l hl
    rw [List.mem_singleton.mp hi, hLine]
    exact (hNew l hl).symm
  refine ⟨package_append_of_code hPackage hCode, ?_, hDone.ruleLine_append, ?_, ?_⟩
  · intro i hi
    rcases List.mem_append.mp hi with hi | hi
    · exact hDone.importLine_append i hi
    · rw [List.mem_singleton] at hi
      exact ⟨line, by simp, by rw [hi, hLine]⟩
  · rw [statementLines, hBehind, List.filter_append,
      List.filter_cons_of_neg (by rw [hIsImport]; simp), List.filter_nil, List.append_nil,
      ← statementLines, statementLines_append hOther]
    exact hDone.depth
  · rw [asksForMore, hBehind, List.getLast?_concat]
    simp [hIsImport]

/-- A line of code is counted. -/
theorem Remembers.code (hDone : Remembers done s) (hNew : ∀ l ∈ done, l.number ≠ line.number)
    (hCode : line.hasCode = true) (hPackage : s.package.isSome = true) :
    Remembers (done ++ [line]) (afterCode { s with inMetadata := false } line) := by
  have hFresh : line.isImportOf s.imports = false := hDone.isImportOf_eq hNew
  have hBehind := behindPackage_append_of_code hCode (hDone.filter_ne_nil hPackage)
  refine ⟨?_, ?_, ?_, ?_, ?_⟩
  · rw [afterCode_package]
    exact package_append_of_code hPackage hCode
  · rw [afterCode_imports]
    exact hDone.importLine_append
  · obtain ⟨more, hMore, hLine⟩ := (extends_afterCode { s with inMetadata := false } line).rules
    intro r hr
    rw [hMore] at hr
    rcases List.mem_append.mp hr with hr | hr
    · exact hDone.ruleLine_append r hr
    · exact ⟨line, by simp, (List.mem_singleton.mp (hLine r hr)).symm⟩
  · rw [afterCode_imports, afterCode_depth, statementLines, hBehind, List.filter_append,
      List.filter_cons_of_pos (by simpa using hFresh), List.filter_nil, ← statementLines,
      List.map_append, List.sum_append]
    rw [show s.depth = _ from hDone.depth]
    simp
  · rw [afterCode_imports, afterCode_continued, asksForMore, hBehind, List.getLast?_concat]
    simp only [show line.isImportOf s.imports = false from hFresh, Bool.not_false, Bool.true_and]

/-- One line keeps the memory right. -/
theorem Remembers.step (hDone : Remembers done s) (hNew : ∀ l ∈ done, l.number ≠ line.number)
    (hReads : Reads dialect s line t) : Remembers (done ++ [line]) t := by
  cases hReads with
  | blank hBlank => exact hDone.blank hBlank
  | package hCode hFirst hName => exact hDone.packageLine hCode hFirst _
  | importLine hCode hPackage hImport hFound =>
      exact hDone.addImport hNew hCode hPackage (parseImport_line hFound)
  | code hCode hPackage hImport hFault => exact hDone.code hNew hCode hPackage

/-- A whole run keeps the memory right. -/
theorem Remembers.steps {lines : List Line} (hDone : Remembers done s)
    (hNumbers : ((done ++ lines).map (·.number)).Nodup) (hReads : ReadsAll dialect s lines t) :
    Remembers (done ++ lines) t := by
  induction hReads generalizing done with
  | nil => rwa [List.append_nil]
  | @cons s next t line rest first others ih =>
      have hNew : ∀ l ∈ done, l.number ≠ line.number := by
        rw [List.map_append, List.nodup_append] at hNumbers
        intro l hl
        exact hNumbers.2.2 _ (List.mem_map_of_mem hl) _ (List.mem_map_of_mem List.mem_cons_self)
      rw [List.append_cons] at hNumbers ⊢
      exact ih (hDone.step hNew first) hNumbers

end Scan

/-- The count over some lines is that of the brackets less those of lines that begin inside a raw
string. -/
theorem sum_bracketBalance {lines : List Line}
    (hLines : ∀ l ∈ lines, l.code = (strip l.mode l.text).1) :
    (lines.map fun l => bracketBalance false l.code).sum =
      (lines.map Line.openBrackets).sum -
        ((lines.filter Line.inString).map Line.openBrackets).sum := by
  induction lines with
  | nil => rfl
  | cons line rest ih =>
      have hRest := ih fun l hl => hLines l (List.mem_cons_of_mem _ hl)
      have hLine := Line.bracketBalance_code (hLines line List.mem_cons_self)
      rw [List.map_cons, List.sum_cons, List.map_cons, List.sum_cons, hRest, hLine]
      cases hIn : line.inString with
      | false =>
          rw [List.filter_cons_of_neg (by simp [hIn]), if_neg Bool.false_ne_true]
          omega
      | true =>
          rw [List.filter_cons_of_pos hIn, if_pos rfl, List.map_cons, List.sum_cons]
          omega

namespace Scan

variable {dialect : Dialect} {s t : Scan} {line : Line} {before : List Line}

theorem isSome_headOf_iff : (s.headOf line).isSome = true ↔
    s.depth = 0 ∧ s.continued = false ∧ line.inString = false ∧
      (parseHead line.code).isSome = true := by
  cases hStart : s.atStart line with
  | true =>
      rw [headOf, hStart, if_pos rfl]
      simp only [atStart, Bool.and_eq_true, decide_eq_true_eq, Bool.not_eq_true'] at hStart
      obtain ⟨⟨hDepth, hContinued⟩, hString⟩ := hStart
      simp [hDepth, hContinued, hString]
  | false =>
      rw [headOf, hStart, if_neg Bool.false_ne_true]
      constructor
      · rintro ⟨⟩
      · rintro ⟨hDepth, hContinued, hString, _⟩
        simp [atStart, hDepth, hContinued, hString] at hStart

/-- A run over the first lines of a source remembers them. -/
theorem ReadsAll.remembers {source : List Char} {before after : List Line}
    (hSplit : Line.ofSource source = before ++ after) (hReads : ReadsAll dialect .empty before s) :
    Remembers before s := by
  have hNumbers := Line.nodup_ofSource source
  rw [hSplit, List.map_append, List.nodup_append] at hNumbers
  exact remembers_empty.steps hNumbers.1 hReads

end Scan

section Statements

variable {path source : String} {dialect : Dialect} {m : Module} {before : List Line} {line : Line}

/-- A line of statements is read as code, by a scan of the lines before it. What the module imports
beyond them stands on other lines. -/
theorem IsStatementLine.exists_readsCode (hParse : Module.parse path source dialect = .ok m)
    (hLine : IsStatementLine m before line) : ∃ s after,
      Line.ofSource source.toList = before ++ line :: after ∧
        Scan.ReadsAll dialect .empty before s ∧ s.readsCode line = true ∧
          ∃ more, m.imports = s.imports ++ more ∧ ∀ i ∈ more, ∀ l ∈ before, i.line ≠ l.number := by
  obtain ⟨u, name, hAll, -, rfl⟩ := Module.parse_eq_ok_iff.mp hParse
  obtain ⟨after, hSource⟩ := hLine.source
  have hSplit : Line.ofSource source.toList = before ++ line :: after := hSource
  rw [hSplit] at hAll
  obtain ⟨s, hReads, hRest⟩ := Scan.readsAll_append_iff.mp hAll
  obtain _ | ⟨first, others⟩ := hRest
  have hNumbers := Line.nodup_ofSource source.toList
  rw [hSplit, List.map_append, List.nodup_append] at hNumbers
  obtain ⟨more, hMore, hBelow⟩ := Module.exists_imports_below hParse hSplit hReads
  refine ⟨s, after, hSplit, hReads, ?_, more, hMore, fun i hi l hl =>
    (hNumbers.2.2 _ (List.mem_map_of_mem hl) _ (hBelow i hi)).symm⟩
  cases first with
  | blank hBlank =>
      have hCode := hLine.code
      rw [hBlank] at hCode
      cases hCode
  | package _ hFirst _ =>
      obtain ⟨l, hl, hBehind⟩ := hLine.behind
      have hMem := List.mem_filter.mpr ⟨hl, hBehind⟩
      rw [(hReads.remembers hSplit).package.mp hFirst] at hMem
      cases hMem
  | importLine _ _ _ hFound =>
      obtain ⟨later, hLater, -⟩ := others.extends.imports
      have hNone : line.isImportOf u.imports = false := hLine.notImport
      simp [Line.isImportOf, hLater, parseImport_line hFound] at hNone
  | code hCode hPackage hImport _ =>
      rw [Scan.readsCode, hCode, hPackage, hImport]
      rfl

/-- The scan before a line of statements decides whether the line has a head. -/
theorem IsStatementLine.exists_scan (hParse : Module.parse path source dialect = .ok m)
    (hLine : IsStatementLine m before line) : ∃ s : Scan,
      s.depth = ((statementLines m.imports before).map fun l => bracketBalance false l.code).sum ∧
        s.continued = asksForMore m.imports before ∧
        (HeadRecorded m line ↔ (s.headOf line).isSome = true) := by
  obtain ⟨s, after, hSplit, hReads, hCode, more, hImports, hOther⟩ := hLine.exists_readsCode hParse
  have hRemembers := hReads.remembers hSplit
  refine ⟨s, ?_, ?_, ?_⟩
  · rw [hImports, statementLines_append hOther]
    exact hRemembers.depth
  · rw [hImports, asksForMore_append hOther]
    exact hRemembers.continued
  · constructor
    · rintro ⟨rule, hRule, hNumber⟩
      obtain ⟨above, t, other, below, hAbove, hReads', -, hOn⟩ := (Module.mem_rules_iff hParse).mp hRule
      obtain ⟨head, hHead, rfl⟩ := Scan.mem_ruleOn_iff.mp hOn
      obtain ⟨rfl, rfl⟩ := Line.eq_of_number hSplit hAbove hNumber
      rw [hReads.unique hReads', hHead]
      rfl
    · intro hSome
      obtain ⟨head, hHead⟩ := Option.isSome_iff_exists.mp hSome
      have hOn := Scan.mem_ruleOn_iff.mpr ⟨head, hHead, rfl⟩
      exact ⟨_, (Module.mem_rules_iff hParse).mpr
        ⟨before, s, line, after, hSplit, hReads, hCode, hOn⟩, rfl⟩

end Statements

/-- A head is recorded where it is due when no bracket is open before the line and nothing else
stands in its way. -/
def HeadsAtDepthZero (m : Module) : Prop :=
  ∀ before line, IsStatementLine m before line →
    (HeadRecorded m line ↔ openBefore m.imports before = 0 ∧ MayHaveHead m before line)

/-- A head is recorded exactly where the open brackets are those behind the ends of raw strings that
began on earlier lines. So heads are found at depth zero and only there exactly in modules where, at
each line that may have a head, no bracket is open if and only if that is the number of such
brackets. -/
theorem headRecorded_iff {path source : String} {dialect : Dialect} {m : Module}
    (hParse : Module.parse path source dialect = .ok m) :
    (∀ before line, IsStatementLine m before line →
      (HeadRecorded m line ↔
        openBefore m.imports before = openBehindStrings m.imports before ∧
          MayHaveHead m before line)) ∧
      (HeadsAtDepthZero m ↔ ∀ before line, IsStatementLine m before line →
        MayHaveHead m before line → (openBefore m.imports before = 0 ↔
          openBefore m.imports before = openBehindStrings m.imports before)) := by
  have hRecorded (before : List Line) (line : Line) (hLine : IsStatementLine m before line) :
      HeadRecorded m line ↔ openBefore m.imports before = openBehindStrings m.imports before ∧
        MayHaveHead m before line := by
    obtain ⟨s, hDepth, hContinued, hHead⟩ := hLine.exists_scan hParse
    have hCodes : ∀ l ∈ statementLines m.imports before, l.code = (strip l.mode l.text).1 := by
      intro l hl
      obtain ⟨after, hSource⟩ := hLine.source
      apply Line.code_of_mem_ofSource
      rw [hSource]
      exact List.mem_append_left _ (mem_of_mem_behindPackage (List.mem_of_mem_filter hl))
    rw [hHead, Scan.isSome_headOf_iff, hDepth, hContinued, sum_bracketBalance hCodes, sub_eq_zero]
    constructor
    · rintro ⟨hOpen, hAsked, hString, hSome⟩
      exact ⟨hOpen, hString, hAsked, hSome⟩
    · rintro ⟨hOpen, hString, hAsked, hSome⟩
      exact ⟨hOpen, hAsked, hString, hSome⟩
  refine ⟨hRecorded, ?_⟩
  constructor
  · intro hHeads before line hLine hMay
    have hZero := hHeads before line hLine
    rw [hRecorded before line hLine] at hZero
    simpa [hMay] using hZero.symm
  · intro hSame before line hLine
    rw [hRecorded before line hLine]
    constructor
    · rintro ⟨hOpen, hMay⟩
      exact ⟨(hSame before line hLine hMay).mpr hOpen, hMay⟩
    · rintro ⟨hOpen, hMay⟩
      exact ⟨(hSame before line hLine hMay).mp hOpen, hMay⟩

/-- A raw string that ends in front of a brace. By the brackets, the line below it may have a head,
but the brace behind the string was not counted and no head is recorded. -/
def braceBehindString : Module where
  path := "policy.rego"
  package := "p"
  imports := []
  rules := [⟨"x", false, false, 2⟩]
  calls := []
  dataRefs := []
  packageEntrypoint := false
  dialect := .v1
  source := "package p\nx := \x7b`a\nb`\x7d\ny := 1\n"

theorem not_headsAtDepthZero_braceBehindString :
    Module.parse "policy.rego" braceBehindString.source .v1 = .ok braceBehindString ∧
      ¬HeadsAtDepthZero braceBehindString := by
  refine ⟨rfl, ?_⟩
  intro hHeads
  have hLine := hHeads ((Line.ofSource braceBehindString.source.toList).take 3)
    ⟨4, "y := 1".toList, "y := 1".toList, false⟩ ⟨⟨[], by decide⟩, by decide, by decide, by decide⟩
  have hRecorded := hLine.mpr ⟨by decide, by decide, by decide, by decide⟩
  revert hRecorded
  decide

theorem headRecorded_iff_braceBehindString :
    Module.parse "policy.rego" braceBehindString.source .v1 = .ok braceBehindString ∧
      (HeadsAtDepthZero braceBehindString ↔ ∀ before line,
        IsStatementLine braceBehindString before line → MayHaveHead braceBehindString before line →
          (openBefore braceBehindString.imports before = 0 ↔
            openBefore braceBehindString.imports before =
              openBehindStrings braceBehindString.imports before)) := by
  have hParse : Module.parse "policy.rego" braceBehindString.source .v1 =
      .ok braceBehindString := rfl
  exact ⟨hParse, (headRecorded_iff hParse).2⟩

end PolicyBundle.Policy
