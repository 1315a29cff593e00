import PolicyBundle.Policy.Scan
import PolicyBundle.Proofs.Log.Attempts
import Mathlib.Data.List.Basic

/-! What one line does to a scan, said once for each of the four kinds of lines, and what a scan
remembers of the lines behind it: the depth, the continuation and the lines of its findings. -/

namespace PolicyBundle.Policy

open Log

/-- Whether something is left of a line without comments and contents of strings. -/
def Line.hasCode (line : Line) : Bool :=
  !Text.blank line.code

theorem parseImport_line {code : List Char} {number : Nat} {found : Import}
    (h : parseImport code number = .ok found) : found.line = number := by
  simp only [parseImport] at h
  split at h
  · cases h
  · split at h
    · cases h
      rfl
    · split at h
      · cases h
        rfl
      · cases h

namespace Scan

/-- Whether a statement may begin on a line. -/
def atStart (s : Scan) (line : Line) : Bool :=
  s.depth = 0 && !s.continued && !line.inString

/-- Whether a line of code is read as an import. -/
def readsImport (s : Scan) (line : Line) : Bool :=
  s.atStart line && "import ".toList.isPrefixOf (Text.trim line.code)

/-- The head of a rule that is found on a line of code. -/
def headOf (s : Scan) (line : Line) : Option Head :=
  if s.atStart line then parseHead line.code else none

/-- The references that are recorded for a line of code: all but the head's own name. -/
def mentions (s : Scan) (line : Line) : List Reference :=
  (references line.code).filter fun r => (s.headOf line).map (·.start) ≠ some r.start

/-- The scan behind a line of code that is neither the package line nor an import. -/
def afterCode (s : Scan) (line : Line) : Scan :=
  let withRule := match s.headOf line with
    | some head => s.addRule line.number head
    | none => s
  { withRule.addReferences line.number (s.mentions line) with
    pendingEntrypoint := if s.atStart line then false else s.pendingEntrypoint
    depth := s.depth + bracketBalance false line.code
    continued := continues (Text.trim line.code) }

/-- The fault of a line of code, which only the head of a rule can have. -/
def headFault? (dialect : Dialect) (s : Scan) (line : Line) : Option Fault :=
  if (s.headOf line).isSome then ruleFault? dialect s.imports line.code else none

/-- Whether a line is a line of code that is neither the package line nor an import. -/
def readsCode (s : Scan) (line : Line) : Bool :=
  line.hasCode && s.package.isSome && !s.readsImport line

/-- The rule whose head is found on a line of code. -/
def ruleOn (s : Scan) (line : Line) : List Rule :=
  ((s.headOf line).map fun head =>
    ⟨String.ofList head.name, head.isFunction, s.pendingEntrypoint, line.number⟩).toList

/-- The calls that are found on a line of code. -/
def callsOn (s : Scan) (line : Line) : List Call :=
  (s.mentions line).filterMap fun r =>
    if (Text.afterList? "data.".toList r.path).isNone && r.call && isCallable r.path then
      some ⟨String.ofList r.path, line.number⟩
    else none

/-- The documents that are found on a line of code. -/
def documentsOn (s : Scan) (line : Line) : List String :=
  (s.mentions line).filterMap fun r =>
    (Text.afterList? "data.".toList r.path).map String.ofList

/-- All that a line can do to a scan. -/
inductive Reads (dialect : Dialect) (s : Scan) (line : Line) : Scan → Prop where
  | blank (hBlank : line.hasCode = false) : Reads dialect s line (s.passOver line)
  | package {name : String} (hCode : line.hasCode = true) (hFirst : s.package = none)
      (hName : parsePackage (Text.trim line.code) = .ok name) :
      Reads dialect s line { s with
        package := some name
        packageEntrypoint := s.pendingEntrypoint
        pendingEntrypoint := false
        inMetadata := false }
  | importLine {found : Import} (hCode : line.hasCode = true) (hPackage : s.package.isSome = true)
      (hImport : s.readsImport line = true)
      (hFound : parseImport (Text.trim line.code) line.number = .ok found) :
      Reads dialect s line { s with
        imports := s.imports ++ [found]
        pendingEntrypoint := false
        continued := false
        inMetadata := false }
  | code (hCode : line.hasCode = true) (hPackage : s.package.isSome = true)
      (hImport : s.readsImport line = false)
      (hFault : s.headFault? dialect line = none) :
      Reads dialect s line (afterCode { s with inMetadata := false } line)

variable {file : String} {dialect : Dialect} {s t u : Scan} {line : Line}

theorem mem_ruleOn_iff {rule : Rule} : rule ∈ s.ruleOn line ↔ ∃ head, s.headOf line = some head ∧
    ⟨String.ofList head.name, head.isFunction, s.pendingEntrypoint, line.number⟩ = rule := by
  rw [ruleOn, Option.mem_toList, Option.map_eq_some_iff]

theorem addCode_of_import (hImport : s.readsImport line = true) :
    addCode dialect s line =
      (parseImport (Text.trim line.code) line.number).map fun found => { s with
        imports := s.imports ++ [found], pendingEntrypoint := false, continued := false } := by
  have hBranch : addCode dialect s line =
      (parseImport (Text.trim line.code) line.number).bind fun found => .ok { s with
        imports := s.imports ++ [found], pendingEntrypoint := false, continued := false } :=
    if_pos hImport
  rw [hBranch]
  cases parseImport (Text.trim line.code) line.number <;> rfl

theorem addCode_of_code (hImport : s.readsImport line = false) :
    addCode dialect s line = match s.headFault? dialect line with
      | some fault => .error fault
      | none => .ok (s.afterCode line) := by
  have hBranch : ¬((s.depth = 0 && !s.continued && !line.inString) &&
      "import ".toList.isPrefixOf (Text.trim line.code)) = true := by
    rw [Bool.not_eq_true]
    exact hImport
  rw [addCode, if_neg hBranch, headFault?]
  show (if (s.headOf line).isSome = true then _ else _) = _
  split
  · cases ruleFault? dialect s.imports line.code <;> rfl
  · rfl

theorem addCode_eq_ok_iff : addCode dialect s line = .ok t ↔
    (s.readsImport line = true ∧ ∃ found, parseImport (Text.trim line.code) line.number = .ok found ∧
      { s with imports := s.imports ++ [found], pendingEntrypoint := false, continued := false } = t) ∨
    (s.readsImport line = false ∧ s.headFault? dialect line = none ∧ s.afterCode line = t) := by
  cases hImport : s.readsImport line with
  | true =>
      rw [addCode_of_import hImport, map_eq_ok_iff]
      simp
  | false =>
      rw [addCode_of_code hImport]
      cases s.headFault? dialect line <;> simp

theorem addLine_of_blank (hBlank : line.hasCode = false) :
    addLine file dialect s line = .ok (s.passOver line) := by
  rw [Line.hasCode, Bool.not_eq_false'] at hBlank
  rw [addLine, if_pos hBlank]

theorem addLine_of_first (hCode : line.hasCode = true) (hFirst : s.package = none) :
    addLine file dialect s line =
      ((parsePackage (Text.trim line.code)).map fun name => { s with
        package := some name
        packageEntrypoint := s.pendingEntrypoint
        pendingEntrypoint := false
        inMetadata := false }).mapError fun fault => ⟨file, line.number, fault⟩ := by
  rw [Line.hasCode, Bool.not_eq_true'] at hCode
  rw [addLine, if_neg (by rw [hCode]; exact Bool.false_ne_true), hFirst]
  cases parsePackage (Text.trim line.code) <;> rfl

theorem addLine_of_behind (hCode : line.hasCode = true) (hPackage : s.package.isSome = true) :
    addLine file dialect s line =
      (addCode dialect { s with inMetadata := false } line).mapError
        fun fault => ⟨file, line.number, fault⟩ := by
  have hSome : ¬s.package.isNone = true := by
    cases hName : s.package with
    | none => rw [hName] at hPackage; cases hPackage
    | some name => exact Bool.false_ne_true
  rw [Line.hasCode, Bool.not_eq_true'] at hCode
  rw [addLine, if_neg (by rw [hCode]; exact Bool.false_ne_true)]
  exact congrArg (fun next : Except Fault Scan => next.mapError _) (if_neg hSome)

/-- A line is read without a fault exactly in one of these ways. -/
theorem addLine_eq_ok_iff (file : String) :
    addLine file dialect s line = .ok t ↔ Reads dialect s line t := by
  constructor
  · intro h
    cases hCode : line.hasCode with
    | false =>
        rw [addLine_of_blank hCode, Except.ok.injEq] at h
        subst h
        exact .blank hCode
    | true =>
        cases hPackage : s.package with
        | none =>
            rw [addLine_of_first hCode hPackage, mapError_eq_ok_iff, map_eq_ok_iff] at h
            obtain ⟨name, hName, rfl⟩ := h
            exact .package hCode hPackage hName
        | some package =>
            have hSome : s.package.isSome = true := by rw [hPackage]; rfl
            rw [addLine_of_behind hCode hSome, mapError_eq_ok_iff, addCode_eq_ok_iff] at h
            rcases h with ⟨hImport, found, hFound, rfl⟩ | ⟨hImport, hFault, rfl⟩
            · exact .importLine hCode hSome hImport hFound
            · exact .code hCode hSome hImport hFault
  · rintro (hBlank | ⟨hCode, hFirst, hName⟩ | ⟨hCode, hPackage, hImport, hFound⟩ |
      ⟨hCode, hPackage, hImport, hFault⟩)
    · exact addLine_of_blank hBlank
    · rw [addLine_of_first hCode hFirst, mapError_eq_ok_iff, map_eq_ok_iff]
      exact ⟨_, hName, rfl⟩
    · rw [addLine_of_behind hCode hPackage, mapError_eq_ok_iff, addCode_eq_ok_iff]
      exact Or.inl ⟨hImport, _, hFound, rfl⟩
    · rw [addLine_of_behind hCode hPackage, mapError_eq_ok_iff, addCode_eq_ok_iff]
      exact Or.inr ⟨hImport, hFault, rfl⟩

/-- The error of a line names the line. -/
theorem failsWith_addLine (file : String) (dialect : Dialect) (s : Scan) (line : Line) :
    FailsWith (·.line = line.number) (addLine file dialect s line) := by
  cases hCode : line.hasCode with
  | false =>
      rw [addLine_of_blank hCode]
      exact failsWith_ok _
  | true =>
      cases hPackage : s.package with
      | none =>
          rw [addLine_of_first hCode hPackage]
          apply failsWith_mapError
          exact fun _ => rfl
      | some name =>
          rw [addLine_of_behind hCode (by rw [hPackage]; rfl)]
          apply failsWith_mapError
          exact fun _ => rfl

/-- A line without code changes nothing but what is remembered of the comments. -/
theorem passOver_eq (s : Scan) (line : Line) : s.passOver line = { s with
    inMetadata := (s.passOver line).inMetadata
    pendingEntrypoint := (s.passOver line).pendingEntrypoint } := by
  rw [passOver]
  split
  · split
    · rfl
    · split <;> rfl
  · rfl

/-- A line of code adds what is found on it, and leaves the rest to the lines below. -/
theorem afterCode_eq (s : Scan) (line : Line) : s.afterCode line = { s with
    rules := s.rules ++ s.ruleOn line
    calls := s.calls ++ s.callsOn line
    dataRefs := s.dataRefs ++ s.documentsOn line
    depth := s.depth + bracketBalance false line.code
    continued := continues (Text.trim line.code)
    pendingEntrypoint := if s.atStart line then false else s.pendingEntrypoint } := by
  rw [afterCode, ruleOn]
  cases s.headOf line with
  | none => rw [Option.map_none, Option.toList_none, List.append_nil]; rfl
  | some head => rfl

@[simp] theorem afterCode_package : (s.afterCode line).package = s.package := by
  rw [afterCode_eq]

@[simp] theorem afterCode_imports : (s.afterCode line).imports = s.imports := by
  rw [afterCode_eq]

@[simp] theorem afterCode_depth :
    (s.afterCode line).depth = s.depth + bracketBalance false line.code := rfl

@[simp] theorem afterCode_continued :
    (s.afterCode line).continued = continues (Text.trim line.code) := rfl

@[simp] theorem afterCode_rules : (s.afterCode line).rules = s.rules ++ s.ruleOn line := by
  rw [afterCode_eq]

@[simp] theorem afterCode_calls : (s.afterCode line).calls = s.calls ++ s.callsOn line := by
  rw [afterCode_eq]

@[simp] theorem afterCode_dataRefs :
    (s.afterCode line).dataRefs = s.dataRefs ++ s.documentsOn line := by
  rw [afterCode_eq]

/-- A scan has found nothing but what stands on some lines beyond what another one has found. -/
structure Extends (s t : Scan) (numbers : List Nat) : Prop where
  imports : ∃ more, t.imports = s.imports ++ more ∧ ∀ i ∈ more, i.line ∈ numbers
  rules : ∃ more, t.rules = s.rules ++ more ∧ ∀ r ∈ more, r.line ∈ numbers
  calls : ∃ more, t.calls = s.calls ++ more ∧ ∀ c ∈ more, c.line ∈ numbers

theorem Extends.of_eq {numbers : List Nat} (hImports : t.imports = s.imports)
    (hRules : t.rules = s.rules) (hCalls : t.calls = s.calls) : Extends s t numbers :=
  ⟨⟨[], by simp [hImports]⟩, ⟨[], by simp [hRules]⟩, ⟨[], by simp [hCalls]⟩⟩

theorem Extends.trans {first second : List Nat} (left : Extends s t first)
    (right : Extends t u second) : Extends s u (first ++ second) := by
  constructor
  · obtain ⟨here, hHere, hFirst⟩ := left.imports
    obtain ⟨later, hLater, hSecond⟩ := right.imports
    refine ⟨here ++ later, by rw [hLater, hHere, List.append_assoc], ?_⟩
    intro i hi
    exact List.mem_append.mpr ((List.mem_append.mp hi).imp (hFirst i) (hSecond i))
  · obtain ⟨here, hHere, hFirst⟩ := left.rules
    obtain ⟨later, hLater, hSecond⟩ := right.rules
    refine ⟨here ++ later, by rw [hLater, hHere, List.append_assoc], ?_⟩
    intro r hr
    exact List.mem_append.mpr ((List.mem_append.mp hr).imp (hFirst r) (hSecond r))
  · obtain ⟨here, hHere, hFirst⟩ := left.calls
    obtain ⟨later, hLater, hSecond⟩ := right.calls
    refine ⟨here ++ later, by rw [hLater, hHere, List.append_assoc], ?_⟩
    intro c hc
    exact List.mem_append.mpr ((List.mem_append.mp hc).imp (hFirst c) (hSecond c))

theorem extends_afterCode (s : Scan) (line : Line) :
    Extends s (s.afterCode line) [line.number] := by
  constructor
  · exact ⟨[], by simp⟩
  · refine ⟨_, afterCode_rules, ?_⟩
    intro r hr
    obtain ⟨head, _, rfl⟩ := mem_ruleOn_iff.mp hr
    exact List.mem_singleton_self _
  · refine ⟨_, afterCode_calls, ?_⟩
    intro c hc
    obtain ⟨r, _, hr⟩ := List.mem_filterMap.mp hc
    split at hr
    · cases hr
      exact List.mem_singleton_self _
    · cases hr

/-- What a line brings stands on that line. -/
theorem Reads.extends (hReads : Reads dialect s line t) : Extends s t [line.number] := by
  cases hReads with
  | blank hBlank =>
      rw [passOver_eq]
      exact .of_eq rfl rfl rfl
  | package hCode hFirst hName => exact .of_eq rfl rfl rfl
  | @importLine found hCode hPackage hImport hFound =>
      exact ⟨⟨[found], rfl, by simpa using parseImport_line hFound⟩, ⟨[], by simp⟩, ⟨[], by simp⟩⟩
  | code hCode hPackage hImport hFault =>
      obtain ⟨hImports, hRules, hCalls⟩ :=
        extends_afterCode { s with inMetadata := false } line
      exact ⟨hImports, hRules, hCalls⟩

/-- The package is declared once. -/
theorem Reads.package_eq (hReads : Reads dialect s line t) (hPackage : s.package.isSome = true) :
    t.package = s.package := by
  cases hReads with
  | blank _ =>
      rw [passOver_eq]
  | package _ hFirst _ =>
      rw [hFirst] at hPackage
      cases hPackage
  | importLine _ _ _ _ => rfl
  | code _ _ _ _ => exact afterCode_package

/-- Lines read one after the other. -/
inductive ReadsAll (dialect : Dialect) : Scan → List Line → Scan → Prop where
  | nil (s : Scan) : ReadsAll dialect s [] s
  | cons {s t u : Scan} {line : Line} {rest : List Line} (first : Reads dialect s line t)
      (others : ReadsAll dialect t rest u) : ReadsAll dialect s (line :: rest) u

theorem foldlM_addLine_eq_ok_iff (file : String) {lines : List Line} :
    lines.foldlM (addLine file dialect) s = .ok t ↔ ReadsAll dialect s lines t := by
  induction lines generalizing s with
  | nil =>
      constructor
      · intro h
        cases h
        exact .nil _
      · rintro ⟨⟩
        rfl
  | cons line rest ih =>
      rw [List.foldlM_cons]
      constructor
      · intro h
        obtain ⟨next, hFirst, hRest⟩ := bind_eq_ok h
        exact .cons ((addLine_eq_ok_iff file).mp hFirst) (ih.mp hRest)
      · rintro (_ | ⟨first, others⟩)
        rw [(addLine_eq_ok_iff file).mpr first]
        exact ih.mpr others

theorem ReadsAll.package_eq {lines : List Line} (hReads : ReadsAll dialect s lines t)
    (hPackage : s.package.isSome = true) : t.package = s.package := by
  induction hReads with
  | nil s => rfl
  | cons first _ ih =>
      have hNext := first.package_eq hPackage
      rw [ih (by rw [hNext]; exact hPackage), hNext]

/-- The error of a run names one of its lines. -/
theorem exists_line_of_foldlM_error {lines : List Line} {e : ParseError}
    (h : lines.foldlM (addLine file dialect) s = .error e) : ∃ l ∈ lines, e.line = l.number := by
  induction lines generalizing s with
  | nil => cases h
  | cons line rest ih =>
      rw [List.foldlM_cons] at h
      cases hFirst : addLine file dialect s line with
      | error first =>
          rw [hFirst] at h
          cases h
          exact ⟨line, List.mem_cons_self, failsWith_addLine file dialect s line _ hFirst⟩
      | ok next =>
          rw [hFirst] at h
          obtain ⟨l, hl, hLine⟩ := ih h
          exact ⟨l, List.mem_cons_of_mem _ hl, hLine⟩

/-- What lines bring stands on one of them. -/
theorem ReadsAll.extends {lines : List Line} (hReads : ReadsAll dialect s lines t) :
    Extends s t (lines.map (·.number)) := by
  induction hReads with
  | nil s => exact .of_eq rfl rfl rfl
  | cons first _ ih => exact first.extends.trans ih

theorem readsAll_append_iff {before after : List Line} :
    ReadsAll dialect s (before ++ after) u ↔
      ∃ t, ReadsAll dialect s before t ∧ ReadsAll dialect t after u := by
  induction before generalizing s with
  | nil =>
      constructor
      · intro h
        exact ⟨s, .nil s, h⟩
      · rintro ⟨t, ⟨⟩, h⟩
        exact h
  | cons line rest ih =>
      constructor
      · rintro (_ | ⟨first, others⟩)
        obtain ⟨t, hBefore, hAfter⟩ := ih.mp others
        exact ⟨t, .cons first hBefore, hAfter⟩
      · rintro ⟨t, _ | ⟨first, others⟩, hAfter⟩
        exact .cons first (ih.mpr ⟨t, others, hAfter⟩)

/-- Lines can be read in one way only. -/
theorem Reads.unique (hFirst : Reads dialect s line t) (hSecond : Reads dialect s line u) :
    t = u := by
  have hFirst := (addLine_eq_ok_iff "").mpr hFirst
  rw [(addLine_eq_ok_iff "").mpr hSecond] at hFirst
  exact (Except.ok.inj hFirst).symm

theorem ReadsAll.unique {lines : List Line} (hFirst : ReadsAll dialect s lines t)
    (hSecond : ReadsAll dialect s lines u) : t = u := by
  have hFirst := (foldlM_addLine_eq_ok_iff "").mpr hFirst
  rw [(foldlM_addLine_eq_ok_iff "").mpr hSecond] at hFirst
  exact (Except.ok.inj hFirst).symm

/-- Only lines of code bring rules, calls and documents, each what is found on it. -/
theorem Reads.found (hReads : Reads dialect s line t) :
    t.rules = s.rules ++ (if s.readsCode line then s.ruleOn line else []) ∧
      t.calls = s.calls ++ (if s.readsCode line then s.callsOn line else []) ∧
        t.dataRefs = s.dataRefs ++ (if s.readsCode line then s.documentsOn line else []) := by
  cases hReads with
  | blank hBlank =>
      rw [passOver_eq]
      simp [readsCode, hBlank]
  | package _ hFirst _ => simp [readsCode, hFirst]
  | importLine _ _ hImport _ => simp [readsCode, hImport]
  | code hCode hPackage hImport _ =>
      rw [readsCode, hCode, hPackage, hImport]
      exact ⟨afterCode_rules, afterCode_calls, afterCode_dataRefs⟩

/-- A run comes to the line behind the first one in the state that the first one leaves. -/
theorem ReadsAll.exists_split_cons_iff (holds : Scan → Line → Prop) {rest : List Line}
    (first : Reads dialect s line t) :
    (∃ before between l after, line :: rest = before ++ l :: after ∧
        ReadsAll dialect s before between ∧ holds between l) ↔
      holds s line ∨ ∃ before between l after, rest = before ++ l :: after ∧
        ReadsAll dialect t before between ∧ holds between l := by
  constructor
  · rintro ⟨before, between, l, after, hLines, hBefore, hHolds⟩
    cases before with
    | nil =>
        cases hLines
        cases hBefore
        exact Or.inl hHolds
    | cons line' before =>
        rw [List.cons_append, List.cons.injEq] at hLines
        obtain ⟨rfl, hRest⟩ := hLines
        obtain _ | ⟨first', hBefore⟩ := hBefore
        obtain rfl := first'.unique first
        exact Or.inr ⟨before, between, l, after, hRest, hBefore, hHolds⟩
  · rintro (hHolds | ⟨before, between, l, after, rfl, hBefore, hHolds⟩)
    · exact ⟨[], s, line, rest, rfl, .nil s, hHolds⟩
    · exact ⟨line :: before, between, l, after, rfl, .cons first hBefore, hHolds⟩

/-- What a run brings of one kind is what is found on its lines of code. -/
theorem ReadsAll.mem_iff {α : Type} (collected : Scan → List α) (on : Scan → Line → List α)
    (hStep : ∀ s line t, Reads dialect s line t →
      collected t = collected s ++ (if s.readsCode line then on s line else []))
    {lines : List Line} (hReads : ReadsAll dialect s lines t) (x : α) :
    x ∈ collected t ↔ x ∈ collected s ∨ ∃ before between line after,
      lines = before ++ line :: after ∧ ReadsAll dialect s before between ∧
        between.readsCode line = true ∧ x ∈ on between line := by
  induction hReads with
  | nil s =>
      constructor
      · exact Or.inl
      · rintro (h | ⟨before, _, _, _, hLines, _⟩)
        · exact h
        · cases before <;> cases hLines
  | @cons s next t line rest first others ih =>
      have hHere : x ∈ (if s.readsCode line then on s line else []) ↔
          s.readsCode line = true ∧ x ∈ on s line := by
        cases s.readsCode line <;> simp
      rw [ih, hStep s line next first, List.mem_append, hHere, or_assoc,
        exists_split_cons_iff (fun s l => s.readsCode l = true ∧ x ∈ on s l) first]

/-- The module of a finished scan. -/
def toModule (s : Scan) (path source : String) (dialect : Dialect) (name : String) : Module where
  path := path
  package := name
  imports := s.imports
  rules := s.rules
  calls := s.calls
  dataRefs := s.dataRefs
  packageEntrypoint := s.packageEntrypoint
  dialect := dialect
  source := source

end Scan

/-- A source is a module exactly if its lines can be read and one of them declares a package. -/
theorem Module.parse_eq_ok_iff {path source : String} {dialect : Dialect} {m : Module} :
    Module.parse path source dialect = .ok m ↔
      ∃ s name, Scan.ReadsAll dialect .empty (Line.ofSource source.toList) s ∧
        s.package = some name ∧ m = s.toModule path source dialect name := by
  simp only [← Scan.foldlM_addLine_eq_ok_iff path]
  constructor
  · intro h
    obtain ⟨s, hScan, hRest⟩ := bind_eq_ok h
    cases hPackage : s.package with
    | none =>
        simp only [hPackage] at hRest
        cases hRest
    | some name =>
        simp only [hPackage] at hRest
        exact ⟨s, name, hScan, hPackage, (Except.ok.inj hRest).symm⟩
  · rintro ⟨s, name, hScan, hPackage, rfl⟩
    refine bind_eq_ok_iff.mpr ⟨s, hScan, ?_⟩
    simp only [hPackage]
    rfl

/-- The rules of a module are those whose heads the scan finds on its lines. -/
theorem Module.mem_rules_iff {path source : String} {dialect : Dialect} {m : Module}
    (hParse : Module.parse path source dialect = .ok m) {rule : Rule} :
    rule ∈ m.rules ↔ ∃ before s line after, Line.ofSource source.toList = before ++ line :: after ∧
      Scan.ReadsAll dialect .empty before s ∧ s.readsCode line = true ∧ rule ∈ s.ruleOn line := by
  obtain ⟨u, name, hAll, -, rfl⟩ := Module.parse_eq_ok_iff.mp hParse
  have hMem := hAll.mem_iff Scan.rules Scan.ruleOn (fun _ _ _ hReads => hReads.found.1) rule
  exact hMem.trans (or_iff_right List.not_mem_nil)

/-- What a module imports is what the scan of its first lines has found and what stands below. -/
theorem Module.exists_imports_below {path source : String} {dialect : Dialect} {m : Module}
    {before rest : List Line} {s : Scan} (hParse : Module.parse path source dialect = .ok m)
    (hSplit : Line.ofSource source.toList = before ++ rest)
    (hReads : Scan.ReadsAll dialect .empty before s) :
    ∃ more, m.imports = s.imports ++ more ∧ ∀ i ∈ more, i.line ∈ rest.map (·.number) := by
  obtain ⟨u, name, hAll, -, rfl⟩ := Module.parse_eq_ok_iff.mp hParse
  rw [hSplit] at hAll
  obtain ⟨t, hBefore, hRest⟩ := Scan.readsAll_append_iff.mp hAll
  obtain rfl := hBefore.unique hReads
  exact hRest.extends.imports

/-- Lines are numbered one after the other. -/
theorem Line.map_number_numbered (number : Nat) (inString : Bool) (texts : List (List Char)) :
    (Line.numbered number inString texts).map (·.number) = List.range' number texts.length := by
  induction texts generalizing number inString with
  | nil => rfl
  | cons text rest ih =>
      rw [Line.numbered, List.map_cons, ih, List.length_cons, List.range'_succ]

theorem Line.nodup_ofSource (source : List Char) :
    ((Line.ofSource source).map (·.number)).Nodup := by
  rw [Line.ofSource, Line.map_number_numbered]
  exact List.nodup_range'

theorem Line.pairwise_ofSource (source : List Char) :
    (Line.ofSource source).Pairwise (·.number < ·.number) := by
  rw [← List.pairwise_map (R := (· < ·)), Line.ofSource, Line.map_number_numbered]
  exact List.pairwise_lt_range'

/-- The lines above the one of a number. -/
def linesAbove (lines : List Line) (number : Nat) : List Line :=
  lines.filter (·.number < number)

theorem linesAbove_ofSource {source : List Char} {before after : List Line} {line : Line}
    (hSplit : Line.ofSource source = before ++ line :: after) :
    linesAbove (Line.ofSource source) line.number = before := by
  have hOrder := Line.pairwise_ofSource source
  rw [hSplit, List.pairwise_append, List.pairwise_cons] at hOrder
  obtain ⟨-, ⟨hAfter, -⟩, hBefore⟩ := hOrder
  have hAbove : before.filter (·.number < line.number) = before := by
    rw [List.filter_eq_self]
    intro l hl
    exact decide_eq_true (hBefore l hl line List.mem_cons_self)
  have hBelow : (line :: after).filter (·.number < line.number) = [] := by
    rw [List.filter_eq_nil_iff]
    intro l hl
    rcases List.mem_cons.mp hl with rfl | hl
    · simp
    · simpa using Nat.le_of_lt (hAfter l hl)
  rw [linesAbove, hSplit, List.filter_append, hAbove, hBelow, List.append_nil]

/-- A number belongs to one line of a source. -/
theorem Line.eq_of_number {source : List Char} {before after above below : List Line}
    {line other : Line} (hLine : Line.ofSource source = before ++ line :: after)
    (hOther : Line.ofSource source = above ++ other :: below) (hNumber : other.number = line.number) :
    above = before ∧ other = line := by
  have hAbove := linesAbove_ofSource hOther
  rw [hNumber, linesAbove_ofSource hLine] at hAbove
  subst hAbove
  have hRest := List.append_cancel_left (hOther.symm.trans hLine)
  exact ⟨rfl, (List.cons.inj hRest).1⟩

end PolicyBundle.Policy
