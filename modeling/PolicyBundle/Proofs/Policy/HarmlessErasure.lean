import PolicyBundle.Proofs.Policy.Continuation

/-! Exactly when the erasure of print statements takes nothing else: when no line of the module does
harm. One direction is a simulation of scans. For the other one, the first line that does harm is
followed by lines that bring it to light. -/

namespace PolicyBundle.Policy

/-- A source with these lines. The endings are such that no line loses a carriage return of its
own. -/
def sourceOf (texts : List (List Char)) : String :=
  String.ofList (texts.flatMap fun text => text ++ ['\r', '\n'])

theorem lines_sourceOf {texts : List (List Char)} (hTexts : ∀ text ∈ texts, '\n' ∉ text) :
    Text.lines (sourceOf texts).toList = texts := by
  rw [sourceOf, String.toList_ofList, Text.lines_flatMap_return hTexts]

/-- The erasure of print statements takes nothing else from a module, and this stays so when the
module goes on with any other lines without print statements from some line on. -/
def ErasureKeepsContinued (m : Module) : Prop :=
  ∀ n later m', (∀ text ∈ later, IsPlain text) →
    Module.parse m.path (sourceOf ((Text.lines m.source.toList).take n ++ later)) m.dialect =
      .ok m' → ErasureKeeps m'

/-- Plain lines do no harm. -/
theorem keepsScan_of_plain {s : Scan} {number : Nat} {inString : Bool} {text : List Char}
    (hPlain : IsPlain text) : s.KeepsScan (Line.single number inString text) := by
  have hErased : erasedText text = text := erasedText_of_plain hPlain
  constructor
  · intro hPrint
    exact absurd (hPrint.symm.trans hPlain.1) (by decide)
  · intro _ _ _
    rw [Line.erased, show (Line.single number inString text).text = text from rfl, hErased]
    rfl

/-- Where some texts go on with plain ones from some line on, a line is one of theirs, with the same
lines before it, or a plain one. -/
theorem ComesTo.own_or_plain {dialect : Dialect} {texts later : List (List Char)} {n : Nat}
    {before : List Line} {s : Scan} {line : Line} (hLater : ∀ text ∈ later, IsPlain text)
    (hComes : ComesTo dialect (Line.numbered 1 false (texts.take n ++ later)) before s line) :
    ComesTo dialect (Line.numbered 1 false texts) before s line ∨
      ∃ number inString text, line = Line.single number inString text ∧ IsPlain text := by
  obtain ⟨after, hSplit⟩ := hComes.split
  obtain ⟨done, text, rest, hEq, hBefore, rfl⟩ := Line.numbered_eq_append_cons hSplit
  rcases List.append_eq_append_iff.mp hEq with ⟨more, hDone, hRest⟩ | ⟨more, hTake, hRest⟩
  · right
    refine ⟨_, _, text, rfl, hLater text ?_⟩
    rw [hRest]
    exact List.mem_append_right _ List.mem_cons_self
  · cases more with
    | nil =>
        right
        refine ⟨_, _, text, rfl, hLater text ?_⟩
        rw [← show text :: rest = later from hRest]
        exact List.mem_cons_self
    | cons first more =>
        left
        rw [List.cons_append, List.cons.injEq] at hRest
        obtain ⟨rfl, _⟩ := hRest
        refine ⟨?_, hComes.scan⟩
        rw [← List.take_append_drop n texts, hTake, List.append_assoc, Line.numbered_append, hBefore]
        exact ⟨_, rfl⟩

/-- A module whose lines do no harm can go on with plain lines. -/
theorem Harmless.continued {path source : String} {dialect : Dialect} {m m' : Module}
    (hParse : Module.parse path source dialect = .ok m) (hHarmless : Harmless m) {n : Nat}
    {later : List (List Char)} (hLater : ∀ text ∈ later, IsPlain text)
    (hParse' : Module.parse m.path (sourceOf ((Text.lines m.source.toList).take n ++ later))
      m.dialect = .ok m') : Harmless m' := by
  obtain ⟨u, name, _, _, rfl⟩ := Module.parse_eq_ok_iff.mp hParse
  obtain ⟨u', name', _, _, rfl⟩ := Module.parse_eq_ok_iff.mp hParse'
  have hTexts : ∀ text ∈ (Text.lines source.toList).take n ++ later, '\n' ∉ text := by
    intro text hText
    rcases List.mem_append.mp hText with h | h
    · exact Text.not_mem_of_mem_lines (List.mem_of_mem_take h)
    · exact (hLater text h).2.1
  have hLine {before : List Line} {s : Scan} {line : Line} (hComes : ComesTo dialect
      (Line.ofSource (sourceOf ((Text.lines source.toList).take n ++ later)).toList) before s
      line) : ComesTo dialect (Line.ofSource source.toList) before s line ∨
        ∃ number inString text, line = Line.single number inString text ∧ IsPlain text := by
    rw [Line.ofSource, lines_sourceOf hTexts] at hComes
    exact hComes.own_or_plain hLater
  constructor
  · intro before s line hComes
    rcases hLine hComes with hOwn | ⟨number, inString, text, rfl, hPlain⟩
    · exact hHarmless.keeps before s line hOwn
    · exact keepsScan_of_plain hPlain
  · intro before s line hComes hPrint hCode
    rcases hLine hComes with hOwn | ⟨number, inString, text, rfl, hPlain⟩
    · exact hHarmless.prints before s line hOwn hPrint hCode
    · exact absurd (hPrint.symm.trans hPlain.1) (by decide)

/-- If nothing else is lost from a module of some lines, the scan of what is left finds the same
rules. -/
theorem exists_scan_of_keeps {path : String} {dialect : Dialect} {texts : List (List Char)}
    {w : Scan} (hTexts : ∀ text ∈ texts, '\n' ∉ text)
    (hKeeps : ∀ m, Module.parse path (sourceOf texts) dialect = .ok m → ErasureKeeps m)
    (hReads : Scan.ReadsAll dialect .empty (Line.numbered 1 false texts) w)
    (hPackage : w.package.isSome = true) :
    ∃ w', Scan.ReadsAll dialect .empty (Line.numbered 1 false (texts.map erasedText)) w' ∧
      w'.rules = w.rules := by
  obtain ⟨name, hName⟩ := Option.isSome_iff_exists.mp hPackage
  have hParse : Module.parse path (sourceOf texts) dialect =
      .ok (w.toModule path (sourceOf texts) dialect name) :=
    Module.parse_eq_ok_iff.mpr ⟨w, name, by rwa [Line.ofSource, lines_sourceOf hTexts], hName, rfl⟩
  obtain ⟨m', hParse', _, _, hRules, _⟩ := hKeeps _ hParse
  obtain ⟨w', name', hReads', _, rfl⟩ := Module.parse_eq_ok_iff.mp hParse'
  rw [ofSource_withoutPrints] at hReads'
  refine ⟨w', ?_, hRules⟩
  rwa [show (w.toModule path (sourceOf texts) dialect name).source = sourceOf texts from rfl,
    lines_sourceOf hTexts] at hReads'

namespace Scan

variable {dialect : Dialect} {s t u v : Scan} {line : Line}

/-- Plain lines behind a line, and behind what is left of it, bring the same rules. -/
def SameBehind (dialect : Dialect) (t u : Scan) (line : Line) : Prop :=
  ∀ later w, (∀ text ∈ later, IsPlain text) →
    ReadsAll dialect u (Line.numbered (line.number + 1) line.leavesString later) w →
    w.package.isSome = true →
    ∃ v w', Reads dialect t line.erased v ∧
      ReadsAll dialect v (Line.numbered (line.number + 1) line.erased.leavesString later) w' ∧
      w'.rules = w.rules

theorem Reads.rules_of_notStart (hReads : Reads dialect s line u)
    (hStart : s.atStart line = false) : u.rules = s.rules := by
  have hNone : s.ruleOn line = [] := by
    rw [ruleOn, headOf, hStart, if_neg Bool.false_ne_true]
    rfl
  rw [hReads.found.1, hNone, ite_self, List.append_nil]

/-- The same rules follow at once. -/
theorem SameBehind.rules (hSame : SameBehind dialect t u line) (hPackage : u.package.isSome = true) :
    ∃ v, Reads dialect t line.erased v ∧ v.rules = u.rules := by
  obtain ⟨v, w', hReads, hRest, hRules⟩ := hSame [] u
    (fun text hText => absurd hText List.not_mem_nil) (.nil u) hPackage
  cases hRest
  exact ⟨v, hReads, hRules⟩

/-- What an erased line is read as, away from the beginning of a statement. -/
theorem Reads.of_erased (hReads : Reads dialect t line.erased v)
    (hPackage : t.package.isSome = true) (hPrint : isPrintLine line.text = true)
    (hOutside : line.inString = false) (hStart : t.atStart line.erased = false) :
    v.depth = t.depth ∧ v.continued = false := by
  have hTrue := trim_erased_of_print hPrint hOutside
  have hCode : line.erased.hasCode = true :=
    hasCode_of_trim (by rw [hTrue]; decide)
  cases hReads with
  | blank hBlank =>
      rw [hCode] at hBlank
      cases hBlank
  | package _ hFirst _ =>
      rw [hFirst] at hPackage
      cases hPackage
  | importLine _ _ hImport _ =>
      rw [readsImport_of_notStart hStart] at hImport
      cases hImport
  | code _ _ _ _ =>
      have hBalance : bracketBalance false line.erased.code = 0 := by
        rw [(Line.erased_of_print_outside hPrint hOutside).1,
          bracketBalance_indent (isBlank_indent line.text)]
        rfl
      rw [afterCode_depth, afterCode_continued, hTrue, hBalance]
      exact ⟨Int.add_zero t.depth, rfl⟩

/-- A kept line shows its head if the same rules are found on what is left of it. -/
theorem SameBehind.showsHead (hSame : SameBehind dialect t u line) (hAlike : Alike s t)
    (hReads : Reads dialect s line u) (hLine : line.code = (strip line.mode line.text).1)
    (hKept : isPrintLine line.text = false) : ShowsHead s line := by
  intro hCode hStart
  have hPackage : s.package.isSome = true := by
    simp only [readsCode, Bool.and_eq_true] at hCode
    exact hCode.1.2
  rcases (Line.erased_of_kept hLine hKept).1 with hEq | hEq
  · rw [hEq]
  rcases parseHead_concat_return line.erased.code with hHead | ⟨hHidden, hShown⟩
  · rw [hEq, hHead]
  exfalso
  have hOther := Line.readsAs_erased hLine hKept
  obtain ⟨v, hNew, hRules⟩ := hSame.rules (by rw [hReads.package_eq hPackage]; exact hPackage)
  have hNone : s.ruleOn line = [] := by
    rw [ruleOn, headOf, hStart, if_pos rfl, hEq, hHidden]
    rfl
  have hCode' : t.readsCode line.erased = true := by
    rw [readsCode, hOther.hasCode, hAlike.package, hAlike.readsImport hOther]
    exact hCode
  obtain ⟨head, hHead⟩ := Option.isSome_iff_exists.mp hShown
  have hStart' : t.atStart line.erased = true := (hAlike.atStart hOther.inString).trans hStart
  rw [hNew.found.1, hReads.found.1, hNone, hCode', if_pos rfl, ite_self, List.append_nil,
    hAlike.rules, ruleOn, headOf, hStart', if_pos rfl, hHead] at hRules
  simp at hRules

/-- An erased line stands away from the beginnings of statements if the same rules are found on what
is left of it. -/
theorem SameBehind.notStart (hSame : SameBehind dialect t u line) (hAlike : Alike s t)
    (hReads : Reads dialect s line u) (hLine : line.code = (strip line.mode line.text).1)
    (hPackage : s.package.isSome = true) (hPrint : isPrintLine line.text = true) :
    s.atStart line = false := by
  by_contra hStart
  rw [Bool.not_eq_false] at hStart
  obtain ⟨hCode, rule, hRule, _⟩ := ruleOn_of_print hReads hLine hPrint hStart
  obtain ⟨v, hNew, hRules⟩ := hSame.rules (by rw [hReads.package_eq hPackage]; exact hPackage)
  have hNone : t.ruleOn line.erased = [] := by
    have hHead : parseHead line.erased.code = none :=
      (Line.nothing_on_erased_print rfl rfl hPrint).1
    rw [ruleOn, headOf, hHead, ite_self]
    rfl
  rw [hNew.found.1, hReads.found.1, hNone, ite_self, hCode, if_pos rfl, List.append_nil,
    hAlike.rules] at hRules
  have hNil : s.ruleOn line = [] := by simpa using hRules
  rw [hNil] at hRule
  cases hRule

/-- An erased line away from the beginnings of statements, and what is left of it, with the scans
before and behind each of them. The same number of rules follows behind both. -/
structure Beside (dialect : Dialect) (s t u v : Scan) (line : Line) : Prop where
  alike : s.Alike t
  code : line.code = (strip line.mode line.text).1
  print : isPrintLine line.text = true
  package : s.package.isSome = true
  notStart : s.atStart line = false
  reads : Reads dialect s line u
  readsErased : Reads dialect t line.erased v
  follow : ∀ later w w', (∀ text ∈ later, IsPlain text) →
    ReadsAll dialect u (Line.numbered (line.number + 1) line.leavesString later) w →
    w.package.isSome = true →
    ReadsAll dialect v (Line.numbered (line.number + 1) line.erased.leavesString later) w' →
    w'.rules.length = w.rules.length

theorem SameBehind.beside (hSame : SameBehind dialect t u line) (hAlike : Alike s t)
    (hReads : Reads dialect s line u) (hLine : line.code = (strip line.mode line.text).1)
    (hPackage : s.package.isSome = true) (hPrint : isPrintLine line.text = true) :
    ∃ v, Beside dialect s t u v line := by
  have hStart := hSame.notStart hAlike hReads hLine hPackage hPrint
  obtain ⟨v, hNew, _⟩ := hSame.rules (by rwa [hReads.package_eq hPackage])
  refine ⟨v, hAlike, hLine, hPrint, hPackage, hStart, hReads, hNew, ?_⟩
  intro later w w' hLater hOld hSome hRest
  obtain ⟨v', w'', hNew', hRest', hRules⟩ := hSame later w hLater hOld hSome
  obtain rfl := hNew.unique hNew'
  rw [hRest.unique hRest', hRules]

namespace Beside

variable (hBeside : Beside dialect s t u v line)

include hBeside

theorem package_old : u.package.isSome = true := by
  rw [hBeside.reads.package_eq hBeside.package]
  exact hBeside.package

theorem package_new : v.package.isSome = true := by
  have hPackage : t.package.isSome = true := by
    rw [hBeside.alike.package]
    exact hBeside.package
  rw [hBeside.readsErased.package_eq hPackage]
  exact hPackage

theorem rules : v.rules = u.rules := by
  rw [hBeside.readsErased.rules_of_notStart ((hBeside.alike.atStart rfl).trans hBeside.notStart),
    hBeside.reads.rules_of_notStart hBeside.notStart, hBeside.alike.rules]

theorem old_of_outside (hOutside : line.inString = false) :
    u.depth = s.depth + bracketBalance false line.code ∧
      u.continued = continues (Text.trim line.code) := by
  obtain ⟨_, hAfter⟩ := hBeside.reads.afterCode_of_print hBeside.code hBeside.print hOutside
    (readsImport_of_notStart hBeside.notStart)
  rw [hAfter, afterCode_depth, afterCode_continued]
  exact ⟨rfl, rfl⟩

theorem new_of_outside (hOutside : line.inString = false) :
    v.depth = s.depth ∧ v.continued = false := by
  obtain ⟨hDepth, hContinued⟩ := hBeside.readsErased.of_erased
    (by rw [hBeside.alike.package]; exact hBeside.package) hBeside.print hOutside
    ((hBeside.alike.atStart rfl).trans hBeside.notStart)
  exact ⟨hDepth.trans hBeside.alike.depth, hContinued⟩

/-- A line that begins inside a raw string does not end it: otherwise the head behind it would be
inside the string that is left. -/
theorem leaves_of_inString (hString : line.inString = true) : line.leavesString = true := by
  by_contra hLeaves
  rw [Bool.not_eq_true] at hLeaves
  have hErased := (Line.erased_of_print_inString hBeside.print hString).2
  obtain ⟨w, hOld, hSome, hCount⟩ :=
    reads_probe dialect (line.number + 1) hBeside.package_old u.depth
  obtain ⟨w', hNew, _, hNone⟩ :=
    reads_inString dialect (line.number + 1) (s := v) (not_mem_probe u.depth)
  have hEq := hBeside.follow (probe u.depth) w w' (isPlain_probe u.depth) (by rwa [hLeaves])
    (by rw [hSome]; exact hBeside.package_old) (by rwa [hErased])
  rw [hCount, hNone, hBeside.rules, if_pos rfl] at hEq
  omega

/-- A line that begins in code ends in code: otherwise the head behind it would be inside the string
that it has begun. -/
theorem leaves_of_outside (hOutside : line.inString = false) : line.leavesString = false := by
  by_contra hLeaves
  rw [Bool.not_eq_false] at hLeaves
  have hErased := (Line.erased_of_print_outside hBeside.print hOutside).2
  obtain ⟨w, hOld, hSome, hNone⟩ :=
    reads_inString dialect (line.number + 1) (s := u) (not_mem_probe v.depth)
  obtain ⟨w', hNew, _, hCount⟩ :=
    reads_probe dialect (line.number + 1) hBeside.package_new v.depth
  have hEq := hBeside.follow (probe v.depth) w w' (isPlain_probe v.depth) (by rwa [hLeaves])
    (by rw [hSome]; exact hBeside.package_old) (by rwa [hErased])
  rw [hNone, hCount, hBeside.rules, if_pos rfl] at hEq
  omega

/-- Its brackets are closed: otherwise closing those that are open behind it would leave others open
behind what is left of it. -/
theorem balanced : bracketBalance false line.code = 0 := by
  cases hString : line.inString with
  | true =>
      have hBalance := Line.bracketBalance_code hBeside.code
      rwa [hString, if_pos rfl] at hBalance
  | false =>
      by_contra hOpen
      have hErased := (Line.erased_of_print_outside hBeside.print hString).2
      have hDepth := (hBeside.old_of_outside hString).1
      have hDepthNew := (hBeside.new_of_outside hString).1
      obtain ⟨w, hOld, hSome, hCount⟩ :=
        reads_probe dialect (line.number + 1) hBeside.package_old u.depth
      obtain ⟨w', hNew, _, hCount'⟩ :=
        reads_probe dialect (line.number + 1) hBeside.package_new u.depth
      have hEq := hBeside.follow (probe u.depth) w w' (isPlain_probe u.depth)
        (by rwa [hBeside.leaves_of_outside hString]) (by rw [hSome]; exact hBeside.package_old)
        (by rwa [hErased])
      rw [hCount, hCount', hBeside.rules, if_pos rfl, if_neg (by omega)] at hEq
      omega

/-- With all brackets closed it asks for nothing more: otherwise a name behind it would be a head
only behind what is left of it. -/
theorem notContinuing (hZero : s.depth = 0) : continues (Text.trim line.code) = false := by
  cases hString : line.inString with
  | true =>
      rcases getLast?_strip (hBeside.leaves_of_inString hString) with hLast | ⟨_, hNil⟩
      · rw [← hBeside.code] at hLast
        rw [continues, Text.getLast?_trim hLast (by decide)]
        decide
      · rw [hBeside.code, hNil]
        rfl
  | false =>
      by_contra hAsks
      rw [Bool.not_eq_false] at hAsks
      have hErased := (Line.erased_of_print_outside hBeside.print hString).2
      have hContinued := (hBeside.old_of_outside hString).2
      obtain ⟨hDepthNew, hContinuedNew⟩ := hBeside.new_of_outside hString
      obtain ⟨w, hOld, hSome, _, hNone⟩ :=
        reads_name dialect (line.number + 1) hBeside.package_old
      obtain ⟨w', hNew, _, hCount, _⟩ :=
        reads_name dialect (line.number + 1) hBeside.package_new
      have hEq := hBeside.follow [['q']] w w' isPlain_name
        (by rw [hBeside.leaves_of_outside hString]; exact .cons hOld (.nil w))
        (by rw [hSome]; exact hBeside.package_old)
        (by rw [hErased]; exact .cons hNew (.nil w'))
      rw [hNone (Or.inr (hContinued.trans hAsks)), hCount (hDepthNew.trans hZero) hContinuedNew,
        hBeside.rules] at hEq
      omega

/-- So the line leaves the scan as `true` does. -/
theorem passesAsTrue : PassesAsTrue s line := by
  refine ⟨hBeside.notStart, hBeside.balanced, ?_, hBeside.notContinuing⟩
  cases hString : line.inString with
  | true => exact hBeside.leaves_of_inString hString
  | false => exact hBeside.leaves_of_outside hString

end Beside

/-- A line keeps the scan if the same rules follow behind it and behind what is left of it. -/
theorem SameBehind.keepsScan (hSame : SameBehind dialect t u line) (hAlike : Alike s t)
    (hQuiet : Quiet s line.inString) (hReads : Reads dialect s line u)
    (hLine : line.code = (strip line.mode line.text).1) : s.KeepsScan line := by
  constructor
  · intro hPrint
    have hPackage : s.package.isSome = true := by
      cases hString : line.inString with
      | true => exact hQuiet.package hString
      | false =>
          exact (hReads.afterCode_of_print hLine hPrint hString
            (Scan.readsImport_of_print hLine hPrint)).1
    obtain ⟨v, hBeside⟩ := hSame.beside hAlike hReads hLine hPackage hPrint
    exact hBeside.passesAsTrue
  · intro hKept
    exact hSame.showsHead hAlike hReads hLine hKept

end Scan

/-- The lines of a source up to one of its lines, and others behind it. -/
theorem numbered_append_cons (done : List (List Char)) (text : List Char)
    (later : List (List Char)) : Line.numbered 1 false (done ++ text :: later) =
      Line.numbered 1 false done ++
        Line.single (1 + done.length) (Line.endsInString false done) text ::
          Line.numbered (1 + done.length + 1)
            (Line.single (1 + done.length) (Line.endsInString false done) text).leavesString
            later := by
  rw [Line.numbered_append, Line.numbered_cons]

/-- If nothing else is lost however a module goes on behind a line, then the same rules follow on the
line and on what is left of it. -/
theorem sameBehind_of_continued {path : String} {dialect : Dialect} {done : List (List Char)}
    {text : List Char} {s t u : Scan} (hTexts : ∀ line ∈ done ++ [text], '\n' ∉ line)
    (hContinued : ∀ later m, (∀ line ∈ later, IsPlain line) →
      Module.parse path (sourceOf (done ++ text :: later)) dialect = .ok m → ErasureKeeps m)
    (hKeeps : ∀ before between line, ComesTo dialect (Line.numbered 1 false done) before between
      line → between.KeepsScan line)
    (hDone : Scan.ReadsAll dialect .empty (Line.numbered 1 false done) s)
    (hErased : Scan.ReadsAll dialect .empty ((Line.numbered 1 false done).map Line.erased) t)
    (hReads : Scan.Reads dialect s
      (Line.single (1 + done.length) (Line.endsInString false done) text) u) :
    Scan.SameBehind dialect t u
      (Line.single (1 + done.length) (Line.endsInString false done) text) := by
  intro later w hLater hRest hPackage
  have hAll : Scan.ReadsAll dialect .empty (Line.numbered 1 false (done ++ text :: later)) w := by
    rw [numbered_append_cons]
    exact Scan.readsAll_append_iff.mpr ⟨s, hDone, .cons hReads hRest⟩
  have hFeeds : ∀ line ∈ done ++ text :: later, '\n' ∉ line := by
    intro line hLine
    rw [List.append_cons] at hLine
    rcases List.mem_append.mp hLine with h | h
    · exact hTexts line h
    · exact (hLater line h).2.1
  obtain ⟨w', hNew, hRules⟩ := exists_scan_of_keeps hFeeds
    (fun m => hContinued later m hLater) hAll hPackage
  have hSame : later.map erasedText = later :=
    (List.map_congr_left fun line hLine => erasedText_of_plain (hLater line hLine)).trans
      (List.map_id' later)
  obtain ⟨_, hLines, hMode, _, _, _⟩ := exists_erased_scan hKeeps hDone
  rw [List.map_append, List.map_cons, hSame, numbered_append_cons, hLines, hMode,
    List.length_map] at hNew
  obtain ⟨t', hBefore, hBehind⟩ := Scan.readsAll_append_iff.mp hNew
  obtain rfl := hErased.unique hBefore
  obtain _ | ⟨first, others⟩ := hBehind
  exact ⟨_, w', first, others, hRules⟩

/-- A module that loses nothing else however it goes on can go on behind any of its lines. -/
theorem ErasureKeepsContinued.behind {m m' : Module} (hContinued : ErasureKeepsContinued m)
    {done rest later : List (List Char)} {text : List Char}
    (hTexts : Text.lines m.source.toList = done ++ text :: rest)
    (hLater : ∀ line ∈ later, IsPlain line)
    (hParse : Module.parse m.path (sourceOf (done ++ text :: later)) m.dialect = .ok m') :
    ErasureKeeps m' := by
  have hTake : (done ++ text :: rest).take (done.length + 1) = done ++ [text] := by
    rw [List.append_cons, List.take_append_of_le_length (by simp), List.take_of_length_le (by simp)]
  refine hContinued (done.length + 1) later m' hLater ?_
  rw [hTexts, hTake, List.append_assoc]
  exact hParse

/-- If nothing else is lost however a module goes on, each of its lines keeps the scan. The induction
is on the number of lines before it. -/
theorem keepsScan_of_continued {path source : String} {dialect : Dialect} {m : Module}
    (hParse : Module.parse path source dialect = .ok m) (hContinued : ErasureKeepsContinued m)
    {done rest : List (List Char)} {text : List Char} {s : Scan}
    (hTexts : Text.lines m.source.toList = done ++ text :: rest)
    (hDone : Scan.ReadsAll m.dialect .empty (Line.numbered 1 false done) s) :
    s.KeepsScan (Line.single (1 + done.length) (Line.endsInString false done) text) := by
  induction hLength : done.length using Nat.strong_induction_on generalizing done rest text s with
  | _ length ih =>
  subst hLength
  obtain ⟨z, name, hAll, _, hEq⟩ := Module.parse_eq_ok_iff.mp hParse
  have hSource : Line.ofSource source.toList = Line.numbered 1 false (done ++ text :: rest) := by
    rw [Line.ofSource, ← hTexts, hEq]
    rfl
  have hKeeps : ∀ before between line, ComesTo m.dialect (Line.numbered 1 false done) before
      between line → between.KeepsScan line := by
    intro before between line hComes
    obtain ⟨after, hSplit⟩ := hComes.split
    obtain ⟨done', text', rest', hDone', rfl, rfl⟩ := Line.numbered_eq_append_cons hSplit
    have hShorter : done'.length < done.length := by
      rw [hDone', List.length_append, List.length_cons]
      omega
    have hTexts' : Text.lines m.source.toList = done' ++ text' :: (rest' ++ text :: rest) := by
      rw [hTexts, hDone', List.append_assoc, List.cons_append]
    exact ih done'.length hShorter hTexts' hComes.scan rfl
  obtain ⟨hQuiet, _, _, t, hErased, hAlike⟩ := exists_erased_scan hKeeps hDone
  obtain ⟨u, hReads⟩ : ∃ u, Scan.Reads m.dialect s
      (Line.single (1 + done.length) (Line.endsInString false done) text) u := by
    rw [hSource, numbered_append_cons] at hAll
    rw [show m.dialect = dialect by rw [hEq]; rfl] at hDone ⊢
    exact (ComesTo.mk ⟨_, rfl⟩ hDone).reads hAll
  have hFeeds : ∀ line ∈ done ++ [text], '\n' ∉ line := by
    intro line hLine
    have hMem : line ∈ Text.lines m.source.toList := by
      rw [hTexts, List.append_cons]
      exact List.mem_append_left _ hLine
    exact Text.not_mem_of_mem_lines hMem
  have hSame := sameBehind_of_continued hFeeds
    (fun _ _ hLater hParse' => hContinued.behind hTexts hLater hParse') hKeeps hDone hErased hReads
  exact hSame.keepsScan hAlike hQuiet hReads rfl

/-- If nothing else is lost however a module goes on, no line of it does harm. -/
theorem harmless_of_continued {path source : String} {dialect : Dialect} {m : Module}
    (hParse : Module.parse path source dialect = .ok m) (hContinued : ErasureKeepsContinued m) :
    Harmless m := by
  have hFeeds : ∀ line ∈ Text.lines m.source.toList, '\n' ∉ line :=
    fun line hLine => Text.not_mem_of_mem_lines hLine
  have hSame : Line.ofSource (sourceOf (Text.lines m.source.toList)).toList =
      Line.ofSource m.source.toList := by
    rw [Line.ofSource, lines_sourceOf hFeeds, Line.ofSource]
  constructor
  · intro before s line hComes
    obtain ⟨after, hSplit⟩ := hComes.split
    obtain ⟨done, text, rest, hTexts, rfl, rfl⟩ := Line.numbered_eq_append_cons hSplit
    exact keepsScan_of_continued hParse hContinued hTexts hComes.scan
  · intro before s line hComes hPrint hCode
    obtain ⟨u, name, hAll, hName, hEq⟩ := Module.parse_eq_ok_iff.mp hParse
    -- The module with the same lines and the endings of `sourceOf`.
    have hParse' : Module.parse m.path (sourceOf (Text.lines m.source.toList)) m.dialect =
        .ok (u.toModule m.path (sourceOf (Text.lines m.source.toList)) m.dialect name) := by
      refine Module.parse_eq_ok_iff.mpr ⟨u, name, ?_, hName, rfl⟩
      rw [hSame, hEq]
      exact hAll
    have hKeeps := hContinued (Text.lines m.source.toList).length [] _
      (fun text hText => absurd hText List.not_mem_nil)
      (by rw [List.take_length, List.append_nil]; exact hParse')
    refine (hKeeps.onlyPrints hParse' (s := s) ?_ hPrint).2 hCode
    rw [show (u.toModule m.path (sourceOf (Text.lines m.source.toList)) m.dialect name).source =
      sourceOf (Text.lines m.source.toList) from rfl, hSame]
    exact hComes

/-- Where no line of a module does harm, the erasure of print statements takes nothing else from it.
Where something else is lost, some line does harm; an erased line that begins a statement or mentions
more than prints loses that at once. And no line does harm exactly if nothing else is lost however
the module goes on from any of its lines. -/
theorem erasureKeeps_iff_harmless {path source : String} {dialect : Dialect} {m : Module}
    (hParse : Module.parse path source dialect = .ok m) :
    (Harmless m → ErasureKeeps m) ∧
      (ErasureKeeps m → ∀ before s line,
        ComesTo m.dialect (Line.ofSource m.source.toList) before s line →
          isPrintLine line.text = true →
            s.atStart line = false ∧ (s.readsCode line = true → OnlyPrints before s line)) ∧
      (Harmless m ↔ ErasureKeepsContinued m) := by
  refine ⟨erasureKeeps_of_harmless hParse, ?_, ?_, harmless_of_continued hParse⟩
  · intro hKeeps before s line hComes hPrint
    exact hKeeps.onlyPrints hParse hComes hPrint
  · intro hHarmless n later m' hLater hParse'
    exact erasureKeeps_of_harmless hParse' (hHarmless.continued hParse hLater hParse')

/-- A line with a call behind a print statement. The line is erased, and the call with it. -/
def callBehindPrint : Module where
  path := "policy.rego"
  package := "p"
  imports := []
  rules := [⟨"allow", false, false, 2⟩, ⟨"deny", true, false, 5⟩]
  calls := [⟨"print", 3⟩, ⟨"deny", 3⟩]
  dataRefs := []
  packageEntrypoint := false
  dialect := .v1
  source := "package p\nallow if \x7b\n  print(1); deny(x)\n\x7d\ndeny(y) := y\n"

theorem not_erasureKeeps_callBehindPrint :
    Module.parse "policy.rego" callBehindPrint.source .v1 = .ok callBehindPrint ∧
      ¬ErasureKeeps callBehindPrint := by
  have hParse : Module.parse "policy.rego" callBehindPrint.source .v1 = .ok callBehindPrint := rfl
  refine ⟨hParse, ?_⟩
  intro hKeeps
  let before := (Line.ofSource callBehindPrint.source.toList).take 2
  let s : Scan := { Scan.empty with
    package := some "p", rules := [⟨"allow", false, false, 2⟩], depth := 1 }
  let line : Line := ⟨3, "  print(1); deny(x)".toList, "  print(1); deny(x)".toList, false⟩
  have hScan : Scan.ReadsAll .v1 .empty before s :=
    (Scan.foldlM_addLine_eq_ok_iff "policy.rego").mp rfl
  have hComes : ComesTo .v1 (Line.ofSource callBehindPrint.source.toList) before s line :=
    ⟨⟨_, rfl⟩, hScan⟩
  have hPrints := (hKeeps.onlyPrints hParse hComes (by decide)).2 (by decide)
  rcases hPrints ⟨"deny".toList, true, 12⟩ (by decide) (by decide) with hIs | hIs
  · revert hIs
    decide
  · revert hIs
    decide

theorem erasureKeeps_iff_harmless_callBehindPrint :
    Module.parse "policy.rego" callBehindPrint.source .v1 = .ok callBehindPrint ∧
      (Harmless callBehindPrint ↔ ErasureKeepsContinued callBehindPrint) := by
  have hParse : Module.parse "policy.rego" callBehindPrint.source .v1 = .ok callBehindPrint := rfl
  exact ⟨hParse, (erasureKeeps_iff_harmless hParse).2.2⟩

end PolicyBundle.Policy
