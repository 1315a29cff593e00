import PolicyBundle.Proofs.Policy.Erasing
import PolicyBundle.Proofs.Policy.RuleHeads
import Mathlib.Data.List.DropRight

/-! Which statements are entrypoints. A comment in a block that `METADATA` opens declares one, and
the scan keeps that in mind until a statement begins. A line inside a statement does not clear it, so
a declaration in the body of a rule is taken for the next rule. -/

namespace PolicyBundle.Policy

/-- The body of a line that is a comment: it begins outside strings, and nothing of it is code. -/
def Line.comment? (line : Line) : Option (List Char) :=
  if line.hasCode || line.inString then none else commentBody? line.text

/-- Lines that end inside a block of comments that `METADATA` opened. -/
def EndsInBlock (lines : List Line) : Prop :=
  ∃ above opening block, lines = above ++ opening :: block ∧
    opening.comment? = some "METADATA".toList ∧ ∀ l ∈ block, l.comment?.isSome = true

/-- Lines among which a comment of such a block declares an entrypoint. -/
def DeclareEntrypoint (lines : List Line) : Prop :=
  ∃ above annotation below, lines = above ++ annotation :: below ∧ EndsInBlock above ∧
    annotation.comment?.any declaresEntrypoint = true

namespace Module

/-- The lines in front of the package line. -/
def abovePackage (m : Module) : List Line :=
  (Line.ofSource m.source.toList).takeWhile fun l => !l.hasCode

/-- The lines between a line and the line of code before it. -/
def sinceCode (m : Module) (number : Nat) : List Line :=
  (linesAbove (Line.ofSource m.source.toList) number).rtakeWhile fun l => !l.hasCode

/-- Whether a line of code begins a statement, with some lines before it: no string and no operator
reaches into it, and the open brackets are those that `headRecorded_iff` allows. -/
def beginsStatement (m : Module) (before : List Line) (line : Line) : Bool :=
  openBefore m.imports before = openBehindStrings m.imports before &&
    !asksForMore m.imports before && !line.inString

/-- The lines between a line and the one before it that begins a statement. -/
def sinceStatement (m : Module) (number : Nat) : List Line :=
  let lines := Line.ofSource m.source.toList
  (linesAbove lines number).rtakeWhile fun l =>
    !(l.hasCode && m.beginsStatement (linesAbove lines l.number) l)

end Module

section Blocks

variable {lines : List Line} {line : Line}

theorem comment?_of_hasCode (hCode : line.hasCode = true) : line.comment? = none := by
  rw [Line.comment?, hCode]
  rfl

theorem endsInBlock_concat_iff : EndsInBlock (lines ++ [line]) ↔
    line.comment? = some "METADATA".toList ∨
      EndsInBlock lines ∧ line.comment?.isSome = true := by
  constructor
  · rintro ⟨above, opening, block, hLines, hOpening, hBlock⟩
    rcases List.eq_nil_or_concat block with rfl | ⟨block, last, rfl⟩
    · obtain ⟨-, hSame⟩ := List.append_inj' hLines rfl
      rw [List.cons.inj hSame |>.1]
      exact .inl hOpening
    · rw [List.concat_eq_append] at hLines hBlock
      rw [← List.cons_append, ← List.append_assoc] at hLines
      obtain ⟨rfl, hSame⟩ := List.append_inj' hLines rfl
      obtain rfl : line = last := (List.cons.inj hSame).1
      rw [List.forall_mem_append] at hBlock
      exact .inr ⟨⟨above, opening, block, rfl, hOpening, hBlock.1⟩, by simpa using hBlock.2⟩
  · rintro (hOpening | ⟨⟨above, opening, block, rfl, hOpening, hBlock⟩, hComment⟩)
    · exact ⟨lines, line, [], rfl, hOpening, fun l hl => absurd hl List.not_mem_nil⟩
    · refine ⟨above, opening, block ++ [line], by simp, hOpening, ?_⟩
      rw [List.forall_mem_append]
      exact ⟨hBlock, by simpa using hComment⟩

theorem declareEntrypoint_concat_iff : DeclareEntrypoint (lines ++ [line]) ↔
    DeclareEntrypoint lines ∨
      EndsInBlock lines ∧ line.comment?.any declaresEntrypoint = true := by
  constructor
  · rintro ⟨above, annotation, below, hLines, hBlock, hDeclares⟩
    rcases List.eq_nil_or_concat below with rfl | ⟨below, last, rfl⟩
    · obtain ⟨rfl, hSame⟩ := List.append_inj' hLines rfl
      rw [(List.cons.inj hSame).1]
      exact .inr ⟨hBlock, hDeclares⟩
    · rw [List.concat_eq_append, ← List.cons_append, ← List.append_assoc] at hLines
      obtain ⟨rfl, -⟩ := List.append_inj' hLines rfl
      exact .inl ⟨above, annotation, below, rfl, hBlock, hDeclares⟩
  · rintro (⟨above, annotation, below, rfl, hBlock, hDeclares⟩ | ⟨hBlock, hDeclares⟩)
    · exact ⟨above, annotation, below ++ [line], by simp, hBlock, hDeclares⟩
    · exact ⟨lines, line, [], rfl, hBlock, hDeclares⟩

theorem not_endsInBlock_nil : ¬EndsInBlock [] := by
  rintro ⟨above, opening, block, hLines, -⟩
  simp at hLines

theorem not_declareEntrypoint_nil : ¬DeclareEntrypoint [] := by
  rintro ⟨above, annotation, below, hLines, -⟩
  simp at hLines

theorem DeclareEntrypoint.append_left (above : List Line) (h : DeclareEntrypoint lines) :
    DeclareEntrypoint (above ++ lines) := by
  obtain ⟨front, annotation, below, rfl, ⟨first, opening, block, rfl, hOpening, hBlock⟩,
    hDeclares⟩ := h
  exact ⟨above ++ (first ++ opening :: block), annotation, below, by simp,
    ⟨above ++ first, opening, block, by simp, hOpening, hBlock⟩, hDeclares⟩

theorem rtakeWhile_suffix_of_imp {p q : Line → Bool} (h : ∀ l, p l = true → q l = true)
    (lines : List Line) : lines.rtakeWhile p <:+ lines.rtakeWhile q := by
  induction lines using List.reverseRecOn with
  | nil => exact List.suffix_rfl
  | append_singleton lines last ih =>
      rw [List.rtakeWhile_concat, List.rtakeWhile_concat]
      cases hLast : p last with
      | false =>
          rw [if_neg Bool.false_ne_true]
          exact List.nil_suffix
      | true =>
          obtain ⟨front, hFront⟩ := ih
          rw [if_pos rfl, if_pos (h last hLast), ← hFront, List.append_assoc]
          exact List.suffix_append _ _

theorem DeclareEntrypoint.of_sinceCode {m : Module} {number : Nat}
    (h : DeclareEntrypoint (m.sinceCode number)) : DeclareEntrypoint (m.sinceStatement number) := by
  obtain ⟨above, hAbove⟩ : m.sinceCode number <:+ m.sinceStatement number := by
    apply rtakeWhile_suffix_of_imp
    intro l hBlank
    rw [Bool.not_eq_true'] at hBlank
    rw [hBlank]
    rfl
  rw [← hAbove]
  exact h.append_left above

end Blocks

namespace Scan

variable {dialect : Dialect} {s t : Scan} {line : Line} {since done lines : List Line}

/-- What a scan has in mind of the comments since the last statement began. -/
structure Recalls (since : List Line) (s : Scan) : Prop where
  inMetadata : s.inMetadata = true ↔ EndsInBlock since
  pendingEntrypoint : s.pendingEntrypoint = true ↔ DeclareEntrypoint since

theorem recalls_nil (hMetadata : s.inMetadata = false) (hPending : s.pendingEntrypoint = false) :
    Recalls [] s := by
  constructor
  · simp [hMetadata, not_endsInBlock_nil]
  · simp [hPending, not_declareEntrypoint_nil]

/-- Whether a line is the package line or may begin a statement behind it. -/
def clears (s : Scan) (line : Line) : Bool :=
  line.hasCode && (s.package.isNone || s.atStart line)

theorem passOver_of_comment {body : List Char} (hComment : line.comment? = some body) :
    s.passOver line =
      if body = "METADATA".toList then { s with inMetadata := true }
      else if s.inMetadata && declaresEntrypoint body then { s with pendingEntrypoint := true }
      else s := by
  rw [Line.comment?] at hComment
  split at hComment
  · cases hComment
  · rename_i hOutside
    rw [Bool.or_eq_true, not_or] at hOutside
    rw [passOver, if_neg hOutside.2, hComment]

theorem passOver_of_noComment (hBlank : line.hasCode = false) (hComment : line.comment? = none) :
    s.passOver line = { s with inMetadata := false } := by
  rw [Line.comment?, hBlank, Bool.false_or] at hComment
  rw [passOver, hComment]

theorem passOver_inMetadata (hBlank : line.hasCode = false) :
    (s.passOver line).inMetadata =
      (line.comment? = some "METADATA".toList || s.inMetadata && line.comment?.isSome) := by
  cases hComment : line.comment? with
  | none => simp [passOver_of_noComment hBlank hComment]
  | some body =>
      rw [passOver_of_comment hComment]
      by_cases hOpens : body = "METADATA".toList
      · rw [if_pos hOpens, hOpens, decide_eq_true rfl, Bool.true_or]
      · rw [if_neg hOpens, decide_eq_false fun h => hOpens (Option.some.inj h)]
        split <;> simp

theorem passOver_pendingEntrypoint (hBlank : line.hasCode = false) :
    (s.passOver line).pendingEntrypoint =
      (s.pendingEntrypoint || s.inMetadata && line.comment?.any declaresEntrypoint) := by
  cases hComment : line.comment? with
  | none => simp [passOver_of_noComment hBlank hComment]
  | some body =>
      rw [passOver_of_comment hComment, Option.any_some]
      by_cases hOpens : body = "METADATA".toList
      · -- The comment that opens a block declares nothing, for it has no colon.
        have hNone : declaresEntrypoint "METADATA".toList = false := by decide
        rw [if_pos hOpens, hOpens, hNone, Bool.and_false, Bool.or_false]
      · rw [if_neg hOpens]
        cases hDeclares : s.inMetadata && declaresEntrypoint body <;> simp

/-- A line without code is recalled. -/
theorem Recalls.passOver (hRecalls : Recalls since s) (hBlank : line.hasCode = false) :
    Recalls (since ++ [line]) (s.passOver line) where
  inMetadata := by
    rw [passOver_inMetadata hBlank, endsInBlock_concat_iff, ← hRecalls.inMetadata,
      Bool.or_eq_true, Bool.and_eq_true, decide_eq_true_iff]
  pendingEntrypoint := by
    rw [passOver_pendingEntrypoint hBlank, declareEntrypoint_concat_iff, ← hRecalls.inMetadata,
      ← hRecalls.pendingEntrypoint, Bool.or_eq_true, Bool.and_eq_true]

/-- A line of code inside a statement ends a block, but nothing is forgotten. -/
theorem Recalls.code (hRecalls : Recalls since s) (hCode : line.hasCode = true)
    (hMetadata : t.inMetadata = false) (hPending : t.pendingEntrypoint = s.pendingEntrypoint) :
    Recalls (since ++ [line]) t := by
  constructor
  · simp [endsInBlock_concat_iff, comment?_of_hasCode hCode, hMetadata]
  · rw [declareEntrypoint_concat_iff, comment?_of_hasCode hCode, hPending]
    simpa using hRecalls.pendingEntrypoint

@[simp] theorem afterCode_inMetadata : (s.afterCode line).inMetadata = s.inMetadata := by
  rw [afterCode]
  split <;> rfl

@[simp] theorem afterCode_packageEntrypoint :
    (s.afterCode line).packageEntrypoint = s.packageEntrypoint := by
  rw [afterCode]
  split <;> rfl

@[simp] theorem afterCode_pendingEntrypoint : (s.afterCode line).pendingEntrypoint =
    if s.atStart line then false else s.pendingEntrypoint := rfl

/-- One line is recalled, or it clears all that was. -/
theorem Recalls.step (hRecalls : Recalls since s) (hReads : Reads dialect s line t) :
    Recalls (if s.clears line then [] else since ++ [line]) t := by
  cases hReads with
  | blank hBlank =>
      rw [clears, hBlank, Bool.false_and, if_neg Bool.false_ne_true]
      exact hRecalls.passOver hBlank
  | package hCode hFirst _ =>
      rw [clears, hCode, hFirst]
      exact recalls_nil rfl rfl
  | importLine hCode _ hImport _ =>
      rw [readsImport, Bool.and_eq_true] at hImport
      rw [clears, hCode, hImport.1, Bool.or_true]
      exact recalls_nil rfl rfl
  | code hCode hPackage _ _ =>
      have hSame : atStart { s with inMetadata := false } line = s.atStart line := rfl
      rw [clears, hCode, Bool.true_and, Option.isNone_eq_false_iff.mpr hPackage, Bool.false_or]
      cases hStart : s.atStart line with
      | true =>
          refine recalls_nil (by simp) ?_
          rw [afterCode_pendingEntrypoint, hSame, hStart]
          rfl
      | false =>
          refine hRecalls.code hCode (by simp) ?_
          rw [afterCode_pendingEntrypoint, hSame, hStart]
          rfl

/-- A whole run recalls the lines since the last one that clears. -/
theorem Recalls.steps {clearing : Line → Bool}
    (hClearing : ∀ before between line after, lines = before ++ line :: after →
      ReadsAll dialect s before between → clearing line = between.clears line)
    (hRecalls : Recalls (done.rtakeWhile fun l => !clearing l) s)
    (hReads : ReadsAll dialect s lines t) :
    Recalls ((done ++ lines).rtakeWhile fun l => !clearing l) t := by
  induction hReads generalizing done with
  | nil s => rwa [List.append_nil]
  | @cons s next t line rest first others ih =>
      rw [List.append_cons]
      apply ih
      · intro before between l after hRest hBefore
        exact hClearing (line :: before) between l after (by rw [hRest]; rfl)
          (.cons first hBefore)
      · have hHere := hRecalls.step first
        rw [← hClearing [] s line rest rfl (.nil s)] at hHere
        rw [List.rtakeWhile_concat]
        cases hClears : clearing line with
        | true => simpa [hClears] using hHere
        | false => simpa [hClears] using hHere

/-- A line of a source that begins inside a string stands behind the package line. -/
theorem ReadsAll.quiet {number : Nat} {inString : Bool} {texts : List (List Char)}
    {before after : List Line}
    (hSplit : Line.numbered number inString texts = before ++ line :: after)
    (hQuiet : Quiet s inString) (hReads : ReadsAll dialect s before t) :
    Quiet t line.inString := by
  induction hReads generalizing number inString texts with
  | nil s =>
      cases texts with
      | nil => cases hSplit
      | cons text rest =>
          rw [Line.numbered_cons, List.nil_append, List.cons.injEq] at hSplit
          rw [← hSplit.1]
          exact hQuiet
  | cons first others ih =>
      cases texts with
      | nil => cases hSplit
      | cons text rest =>
          rw [Line.numbered_cons, List.cons_append, List.cons.injEq] at hSplit
          obtain ⟨rfl, hRest⟩ := hSplit
          exact ih hRest (hQuiet.step rfl first)

/-- Behind the package line it is settled whether the package is an entrypoint. -/
theorem Reads.packageEntrypoint_eq (hReads : Reads dialect s line t)
    (hPackage : s.package.isSome = true) : t.packageEntrypoint = s.packageEntrypoint := by
  cases hReads with
  | blank _ =>
      rw [passOver_eq]
  | package _ hFirst _ =>
      rw [hFirst] at hPackage
      cases hPackage
  | importLine _ _ _ _ => rfl
  | code _ _ _ _ => exact afterCode_packageEntrypoint

theorem ReadsAll.packageEntrypoint_eq (hReads : ReadsAll dialect s lines t)
    (hPackage : s.package.isSome = true) : t.packageEntrypoint = s.packageEntrypoint := by
  induction hReads with
  | nil s => rfl
  | cons first _ ih =>
      have hNext := first.package_eq hPackage
      rw [ih (by rw [hNext]; exact hPackage), first.packageEntrypoint_eq hPackage]

/-- A run up to the first line of code, which is the package line, settles whether the package is an
entrypoint. -/
theorem ReadsAll.exists_abovePackage (hReads : ReadsAll dialect s lines t) (hNone : s.package = none)
    (hPackage : t.package.isSome = true) :
    ∃ u, ReadsAll dialect s (lines.takeWhile fun l => !l.hasCode) u ∧
      t.packageEntrypoint = u.pendingEntrypoint := by
  induction hReads with
  | nil s =>
      rw [hNone] at hPackage
      cases hPackage
  | @cons s next t line rest first others ih =>
      rw [List.takeWhile_cons]
      cases first with
      | blank hBlank =>
          obtain ⟨u, hAbove, hSettled⟩ := ih (by rw [passOver_eq]; exact hNone) hPackage
          rw [hBlank]
          exact ⟨u, .cons (.blank hBlank) hAbove, hSettled⟩
      | package hCode _ _ =>
          rw [hCode]
          exact ⟨s, .nil s, others.packageEntrypoint_eq rfl⟩
      | importLine _ hSome _ _ =>
          rw [hNone] at hSome
          cases hSome
      | code _ hSome _ _ =>
          rw [hNone] at hSome
          cases hSome

end Scan

section Modules

variable {path source : String} {dialect : Dialect} {m : Module} {before after : List Line}
  {line : Line} {s : Scan}

/-- The scan of a module is at the beginning of a statement where the brackets, the operators and the
strings of the source say so. -/
theorem Module.atStart_eq_beginsStatement (hParse : Module.parse path source dialect = .ok m)
    (hSplit : Line.ofSource source.toList = before ++ line :: after)
    (hReads : Scan.ReadsAll dialect .empty before s) :
    s.atStart line = m.beginsStatement before line := by
  have hNumbers := Line.nodup_ofSource source.toList
  rw [hSplit, List.map_append, List.nodup_append] at hNumbers
  obtain ⟨-, -, hApart⟩ := hNumbers
  have hRemembers := hReads.remembers hSplit
  -- Imports below do not change what the lines before them are.
  obtain ⟨more, hMore, hBelow⟩ := Module.exists_imports_below hParse hSplit hReads
  have hOther : ∀ i ∈ more, ∀ l ∈ before, i.line ≠ l.number := fun i hi l hl =>
    (hApart _ (List.mem_map_of_mem hl) _ (hBelow i hi)).symm
  have hCodes : ∀ l ∈ statementLines s.imports before, l.code = (strip l.mode l.text).1 := by
    intro l hl
    apply Line.code_of_mem_ofSource
    rw [hSplit]
    exact List.mem_append_left _ (mem_of_mem_behindPackage (List.mem_of_mem_filter hl))
  rw [Scan.atStart, hRemembers.depth, hRemembers.continued, sum_bracketBalance hCodes,
    Module.beginsStatement, hMore, openBefore, openBehindStrings, statementLines_append hOther,
    asksForMore_append hOther]
  simp only [sub_eq_zero]

theorem Module.clears_eq (hParse : Module.parse path source dialect = .ok m)
    (hSplit : Line.ofSource source.toList = before ++ line :: after)
    (hReads : Scan.ReadsAll dialect .empty before s) :
    s.clears line = (line.hasCode && m.beginsStatement before line) := by
  rw [Scan.clears, ← Module.atStart_eq_beginsStatement hParse hSplit hReads]
  cases hPackage : s.package with
  | some name => rfl
  | none =>
      have hQuiet := hReads.quiet hSplit Scan.quiet_empty
      have hOutside : line.inString = false := by
        by_contra hInside
        have hSome := hQuiet.package (by simpa using hInside)
        rw [hPackage] at hSome
        cases hSome
      have hDepth : s.depth = 0 := by
        have hRemembers := hReads.remembers hSplit
        rw [hRemembers.depth, statementLines, behindPackage, hRemembers.package.mp hPackage]
        rfl
      rw [Scan.atStart, hDepth, hQuiet.continued (Or.inr hPackage), hOutside]
      rfl

/-- The scan of a module has in mind what the lines since the last statement declare. -/
theorem Module.recalls (hParse : Module.parse path source dialect = .ok m)
    (hSplit : Line.ofSource source.toList = before ++ after)
    (hReads : Scan.ReadsAll dialect .empty before s) :
    Scan.Recalls (before.rtakeWhile fun l =>
      !(l.hasCode && m.beginsStatement (linesAbove (Line.ofSource source.toList) l.number) l)) s := by
  rw [← List.nil_append before]
  refine Scan.Recalls.steps ?_ (Scan.recalls_nil rfl rfl) hReads
  intro front between l rest hBefore hFront
  have hSource : Line.ofSource source.toList = front ++ l :: (rest ++ after) := by
    rw [hSplit, hBefore, List.append_assoc, List.cons_append]
  rw [linesAbove_ofSource hSource, Module.clears_eq hParse hSource hFront]

theorem Module.entrypoint_iff_of_mem (hParse : Module.parse path source dialect = .ok m)
    {rule : Rule} (hRule : rule ∈ m.rules) :
    rule.entrypoint = true ↔ DeclareEntrypoint (m.sinceStatement rule.line) := by
  obtain ⟨before, s, line, after, hSplit, hBefore, -, hOn⟩ :=
    (Module.mem_rules_iff hParse).mp hRule
  obtain ⟨head, -, rfl⟩ := Scan.mem_ruleOn_iff.mp hOn
  have hRecalls := Module.recalls hParse hSplit hBefore
  have hSource : m.source = source := by
    obtain ⟨u, name, -, -, rfl⟩ := Module.parse_eq_ok_iff.mp hParse
    rfl
  rw [Module.sinceStatement, hSource]
  simp only [linesAbove_ofSource hSplit]
  exact hRecalls.pendingEntrypoint

theorem Module.packageEntrypoint_iff (hParse : Module.parse path source dialect = .ok m) :
    m.packageEntrypoint = true ↔ DeclareEntrypoint m.abovePackage := by
  obtain ⟨u, name, hAll, hName, hEq⟩ := Module.parse_eq_ok_iff.mp hParse
  obtain ⟨s, hAbove, hSettled⟩ := hAll.exists_abovePackage rfl (by rw [hName]; rfl)
  have hRecalls := (Module.recalls hParse List.takeWhile_append_dropWhile.symm hAbove).pendingEntrypoint
  -- no line above the package line begins a statement, so all of them are recalled
  rw [List.rtakeWhile_eq_self_iff.mpr ?_] at hRecalls
  · rw [← hSettled] at hRecalls
    rw [hEq]
    exact hRecalls
  · intro l hl
    have hBlank := List.mem_takeWhile_imp hl
    rw [Bool.not_eq_true'] at hBlank
    rw [hBlank]
    rfl

end Modules

/-- The package and the rules are entrypoints that a block of comments declares so which stands above
their line, with no line of code in between. -/
def EntrypointsStandAbove (m : Module) : Prop :=
  (m.packageEntrypoint = true ↔ DeclareEntrypoint m.abovePackage) ∧
    ∀ rule ∈ m.rules, (rule.entrypoint = true ↔ DeclareEntrypoint (m.sinceCode rule.line))

/-- A package is an entrypoint if the lines above it declare one. A rule is an entrypoint if the
lines since the last statement began declare one, those inside the statement included. So entrypoints
are declared by what stands above them exactly in modules where each rule that lines inside the
statement before it declare an entrypoint is declared so by what stands above it also. -/
theorem entrypoint_iff {path source : String} {dialect : Dialect} {m : Module}
    (hParse : Module.parse path source dialect = .ok m) :
    (m.packageEntrypoint = true ↔ DeclareEntrypoint m.abovePackage) ∧
      (∀ rule ∈ m.rules,
        (rule.entrypoint = true ↔ DeclareEntrypoint (m.sinceStatement rule.line))) ∧
      (EntrypointsStandAbove m ↔ ∀ rule ∈ m.rules,
        DeclareEntrypoint (m.sinceStatement rule.line) →
          DeclareEntrypoint (m.sinceCode rule.line)) := by
  have hPackage := Module.packageEntrypoint_iff hParse
  have hRules : ∀ rule ∈ m.rules,
      (rule.entrypoint = true ↔ DeclareEntrypoint (m.sinceStatement rule.line)) :=
    fun rule hRule => Module.entrypoint_iff_of_mem hParse hRule
  refine ⟨hPackage, hRules, ?_⟩
  constructor
  · rintro ⟨-, hAbove⟩ rule hRule hDeclared
    exact (hAbove rule hRule).mp ((hRules rule hRule).mpr hDeclared)
  · intro hAbove
    refine ⟨hPackage, ?_⟩
    intro rule hRule
    rw [hRules rule hRule]
    exact ⟨hAbove rule hRule, DeclareEntrypoint.of_sinceCode⟩

/-- A declaration in the body of a rule. No comment stands above the rule behind it, but that rule is
taken for an entrypoint. -/
def declaredInBody : Module where
  path := "policy.rego"
  package := "p"
  imports := []
  rules := [⟨"allow", false, false, 2⟩, ⟨"deny", false, true, 7⟩]
  calls := []
  dataRefs := []
  packageEntrypoint := false
  dialect := .v1
  source := "package p\nallow if \x7b\n  # METADATA\n  # entrypoint: true\n  input.x\n\x7d\ndeny := true\n"

theorem parse_declaredInBody :
    Module.parse "policy.rego" declaredInBody.source .v1 = .ok declaredInBody := rfl

theorem not_entrypointsStandAbove_declaredInBody :
    Module.parse "policy.rego" declaredInBody.source .v1 = .ok declaredInBody ∧
      ¬EntrypointsStandAbove declaredInBody := by
  refine ⟨parse_declaredInBody, ?_⟩
  rintro ⟨-, hAbove⟩
  have hDeny := (hAbove ⟨"deny", false, true, 7⟩ (by decide)).mp rfl
  have hNothing : declaredInBody.sinceCode 7 = [] := by decide
  rw [hNothing] at hDeny
  exact not_declareEntrypoint_nil hDeny

theorem entrypoint_iff_declaredInBody :
    Module.parse "policy.rego" declaredInBody.source .v1 = .ok declaredInBody ∧
      DeclareEntrypoint (declaredInBody.sinceStatement 7) := by
  have hDeny := (entrypoint_iff parse_declaredInBody).2.1 ⟨"deny", false, true, 7⟩ (by decide)
  exact ⟨parse_declaredInBody, hDeny.mp rfl⟩

end PolicyBundle.Policy
