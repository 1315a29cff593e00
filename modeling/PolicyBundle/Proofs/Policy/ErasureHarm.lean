import PolicyBundle.Proofs.Policy.PrintErasure
import PolicyBundle.Proofs.Text.Pieces

/-! What the erasure of a line that is more than a print statement destroys. A head or a mention on
the line itself is lost at once. A line that leaves the scan in another state than `true` does is
found out by the lines behind it: some statements can follow that are read differently from then
on. -/

namespace PolicyBundle.Policy

/-- A dotted name and what follows it are the text. -/
theorem nameTail_append (text : List Char) : (nameTail text).1 ++ (nameTail text).2 = text := by
  induction text with
  | nil => rfl
  | cons c rest ih =>
      cases rest with
      | nil =>
          rw [nameTail]
          split <;> rfl
      | cons d rest =>
          rw [nameTail]
          split
          · exact congrArg (List.cons c) ih
          · rfl

theorem dottedName_append (text : List Char) :
    (dottedName text).1 ++ (dottedName text).2 = text := by
  cases text with
  | nil => rfl
  | cons c rest =>
      rw [dottedName]
      split
      · exact congrArg (List.cons c) (nameTail_append rest)
      · rfl

/-- A reference is made of characters of the line, and a call has its parenthesis there. -/
theorem mem_of_mem_referencesFrom {previous : Option Char} {start : Nat} {code : List Char}
    {r : Reference} (h : r ∈ referencesFrom previous start code) :
    (∀ c ∈ r.path, c ∈ code) ∧ (r.call = true → '(' ∈ code) := by
  induction code generalizing previous start with
  | nil => cases h
  | cons c rest ih =>
      have hLater (hr : r ∈ referencesFrom (some c) (start + 1) rest) :
          (∀ d ∈ r.path, d ∈ c :: rest) ∧ (r.call = true → '(' ∈ c :: rest) := by
        obtain ⟨hPath, hCall⟩ := ih hr
        exact ⟨fun d hd => List.mem_cons_of_mem _ (hPath d hd),
          fun h => List.mem_cons_of_mem _ (hCall h)⟩
      have hName := dottedName_append (c :: rest)
      rw [referencesFrom] at h
      split at h
      · rcases List.mem_cons.mp h with rfl | h
        · constructor
          · intro d hd
            rw [← hName]
            exact List.mem_append_left _ hd
          · intro hCall
            rw [← hName]
            exact List.mem_append_right _ (List.mem_of_mem_head? (decide_eq_true_eq.mp hCall))
        · exact hLater h
      · exact hLater h

/-- Nothing is recorded of the word `true`. -/
theorem not_recorded_true {text : List Char} {r : Reference}
    (h : r ∈ references (text.takeWhile Text.isBlank ++ "true".toList)) :
    r.isCalled = false ∧ r.isDocument = false := by
  obtain ⟨hPath, hCall⟩ := mem_of_mem_referencesFrom h
  have hOther {c : Char} (hBlank : Text.isBlank c = false) (hTrue : c ∉ "true".toList) :
      c ∉ text.takeWhile Text.isBlank ++ "true".toList := by
    rw [List.mem_append, not_or]
    exact ⟨fun hc => ne_of_isBlank (isBlank_indent text _ hc) hBlank rfl, hTrue⟩
  constructor
  · rw [Bool.eq_false_iff, Reference.isCalled, ne_eq, Bool.and_eq_true, Bool.and_eq_true]
    rintro ⟨⟨_, hIs⟩, _⟩
    exact hOther (c := '(') rfl (by decide) (hCall hIs)
  · rw [Reference.isDocument, Option.isSome_eq_false_iff, Option.isNone_iff_eq_none]
    by_contra hSome
    obtain ⟨rest, hRest⟩ := Option.ne_none_iff_exists'.mp hSome
    rw [Text.afterList?_eq_some_iff] at hRest
    have hDot : '.' ∈ r.path := by
      rw [hRest]
      exact List.mem_append_left _ (by decide)
    exact hOther (c := '.') rfl (by decide) (hPath '.' hDot)

theorem trimStart_indent {indent : List Char} (hIndent : ∀ c ∈ indent, Text.isBlank c = true)
    (text : List Char) : Text.trimStart (indent ++ text) = Text.trimStart text := by
  rw [Text.trimStart, List.dropWhile_append_of_pos hIndent, Text.trimStart]

theorem parseHead_true (text : List Char) :
    parseHead (text.takeWhile Text.isBlank ++ "true".toList) = none := by
  have hTrim := trimStart_indent (isBlank_indent text) "true".toList
  rw [parseHead, nameStart, hTrim]
  rfl

theorem isSome_parseHead_print (text more : List Char) :
    (parseHead (text.takeWhile Text.isBlank ++ "print(".toList ++ more)).isSome = true := by
  have hTrim := trimStart_indent (isBlank_indent text)
    ("print(".toList ++ more)
  have hStart : Text.trimStart ("print(".toList ++ more) = "print(".toList ++ more := rfl
  have hName : dottedName ("print(".toList ++ more) = ("print".toList, '(' :: more) := rfl
  have hFollow : mayFollowName ('(' :: more) = true := rfl
  rw [hStart, ← List.append_assoc] at hTrim
  have hPrint : nameStart (text.takeWhile Text.isBlank ++ "print(".toList ++ more) =
      ((text.takeWhile Text.isBlank ++ "print(".toList ++ more).length -
        ("print(".toList ++ more).length, "print(".toList ++ more) := by
    simp only [nameStart, hTrim, hName]
    rfl
  simp only [parseHead, hPrint, hName, hFollow]
  rfl

namespace Line

variable {line other : Line}

/-- What an erased line has on it, whatever mode it is read in. -/
theorem code_of_erased_print (hOther : other.code = (strip other.mode other.text).1)
    (hText : other.text = erasedText line.text) (hPrint : isPrintLine line.text = true) :
    other.code = [] ∨ other.code = line.text.takeWhile Text.isBlank ++ "true".toList := by
  have hErased : other.code = (erased ⟨other.number, line.text, [], other.inString⟩).code := by
    rw [hOther, hText]
    rfl
  rw [hErased]
  cases hString : other.inString with
  | true =>
      exact Or.inl (@erased_of_print_inString ⟨other.number, line.text, [], true⟩ hPrint rfl).1
  | false =>
      exact Or.inr (@erased_of_print_outside ⟨other.number, line.text, [], false⟩ hPrint rfl).1

theorem nothing_on_erased_print (hOther : other.code = (strip other.mode other.text).1)
    (hText : other.text = erasedText line.text) (hPrint : isPrintLine line.text = true) :
    parseHead other.code = none ∧
      ∀ r ∈ references other.code, r.isCalled = false ∧ r.isDocument = false := by
  rcases code_of_erased_print hOther hText hPrint with hCode | hCode
  · rw [hCode]
    exact ⟨rfl, fun r hr => absurd hr List.not_mem_nil⟩
  · rw [hCode]
    exact ⟨parseHead_true line.text, fun r hr => not_recorded_true hr⟩

/-- Lines of one number in a source and in what is left of it belong together. -/
theorem text_of_erased {texts : List (List Char)} (hLine : line ∈ numbered 1 false texts)
    (hOther : other ∈ numbered 1 false (texts.map erasedText))
    (hNumber : other.number = line.number) : other.text = erasedText line.text := by
  obtain ⟨before, after, hSplit⟩ := List.append_of_mem hLine
  obtain ⟨before', after', hSplit'⟩ := List.append_of_mem hOther
  obtain ⟨done, text, rest, hTexts, _, rfl⟩ := numbered_eq_append_cons hSplit
  obtain ⟨done', text', rest', hTexts', _, rfl⟩ := numbered_eq_append_cons hSplit'
  have hLength : done'.length = (done.map erasedText).length := by
    rw [List.length_map]
    exact Nat.add_left_cancel hNumber
  rw [hTexts, List.map_append, List.map_cons] at hTexts'
  have hRest := (List.append_inj hTexts' hLength.symm).2
  exact (List.cons.inj hRest).1.symm

end Line

namespace Scan

variable {dialect : Dialect} {s t u : Scan} {line : Line}

/-- A print statement is no import. -/
theorem readsImport_of_print (hLine : line.code = (strip line.mode line.text).1)
    (hPrint : isPrintLine line.text = true) : s.readsImport line = false := by
  cases hString : line.inString with
  | true => exact readsImport_of_notStart (atStart_of_inString hString)
  | false =>
      obtain ⟨more, hTrim⟩ := trim_code_of_print hLine hPrint hString
      have hOther : "import ".toList.isPrefixOf ("print(".toList ++ more) = false := rfl
      rw [readsImport, hTrim, hOther, Bool.and_false]

/-- A print statement at the beginning of a statement is read as the head of a rule. -/
theorem ruleOn_of_print (hReads : Reads dialect s line u)
    (hLine : line.code = (strip line.mode line.text).1) (hPrint : isPrintLine line.text = true)
    (hStart : s.atStart line = true) :
    s.readsCode line = true ∧ ∃ rule ∈ s.ruleOn line, rule.line = line.number := by
  have hOutside : line.inString = false := by
    by_contra hString
    rw [atStart_of_inString (by simpa using hString)] at hStart
    cases hStart
  have hImport : s.readsImport line = false := readsImport_of_print hLine hPrint
  obtain ⟨hPackage, _⟩ := hReads.afterCode_of_print hLine hPrint hOutside hImport
  obtain ⟨more, hTrim⟩ := trim_code_of_print hLine hPrint hOutside
  have hCode : line.hasCode = true := hasCode_of_trim (by rw [hTrim]; exact List.cons_ne_nil _ _)
  refine ⟨by rw [readsCode, hCode, hPackage, hImport]; rfl, ?_⟩
  obtain ⟨rest, hRest⟩ := Line.code_of_print hLine hPrint hOutside
  have hSome := isSome_parseHead_print line.text rest
  rw [← hRest] at hSome
  obtain ⟨head, hHead⟩ := Option.isSome_iff_exists.mp hSome
  rw [ruleOn, headOf, hStart, if_pos rfl, hHead]
  exact ⟨_, List.mem_singleton_self _, rfl⟩

theorem isSome_parseHead_of_mem_ruleOn {rule : Rule} (h : rule ∈ s.ruleOn line) :
    (parseHead line.code).isSome = true ∧ rule.line = line.number := by
  rw [ruleOn, Option.mem_toList, Option.map_eq_some_iff] at h
  obtain ⟨head, hHead, rfl⟩ := h
  rw [headOf] at hHead
  split at hHead
  · rw [hHead]
    exact ⟨rfl, rfl⟩
  · cases hHead

end Scan

/-- A line that the scan of a module comes to is read. -/
theorem ComesTo.reads {dialect : Dialect} {lines before : List Line} {s u : Scan} {line : Line}
    (hComes : ComesTo dialect lines before s line)
    (hAll : Scan.ReadsAll dialect .empty lines u) : ∃ t, Scan.Reads dialect s line t := by
  obtain ⟨after, rfl⟩ := hComes.split
  obtain ⟨t, hBefore, hRest⟩ := Scan.readsAll_append_iff.mp hAll
  obtain rfl := hBefore.unique hComes.scan
  obtain _ | ⟨first, _⟩ := hRest
  exact ⟨_, first⟩

/-- On the line of the erased source that has the number of an erased line nothing is left. -/
theorem nothing_on_line_of_erased {m : Module} {line other : Line}
    (hLine : line ∈ Line.ofSource m.source.toList) (hPrint : isPrintLine line.text = true)
    (hOther : other ∈ Line.ofSource m.withoutPrints.source.toList)
    (hNumber : other.number = line.number) : parseHead other.code = none ∧
      ∀ r ∈ references other.code, r.isCalled = false ∧ r.isDocument = false := by
  apply Line.nothing_on_erased_print (Line.code_of_mem_ofSource hOther) _ hPrint
  rw [ofSource_withoutPrints] at hOther
  exact Line.text_of_erased hLine hOther hNumber

theorem ComesTo.mem {dialect : Dialect} {lines before : List Line} {s : Scan} {line : Line}
    (hComes : ComesTo dialect lines before s line) : line ∈ lines := by
  obtain ⟨after, rfl⟩ := hComes.split
  exact List.mem_append_right _ List.mem_cons_self

section OnlyPrints

variable {path source : String} {dialect : Dialect} {m : Module} {before : List Line} {s : Scan}
  {line : Line}

/-- An erased line begins no statement, for at the beginning of one it was the head of a rule. -/
theorem ErasureKeeps.notStart (hParse : Module.parse path source dialect = .ok m)
    (hKeeps : ErasureKeeps m)
    (hComes : ComesTo m.dialect (Line.ofSource m.source.toList) before s line)
    (hPrint : isPrintLine line.text = true) : s.atStart line = false := by
  obtain ⟨m', hParse', _, _, hRules, _⟩ := hKeeps
  obtain ⟨u, name, hAll, _, rfl⟩ := Module.parse_eq_ok_iff.mp hParse
  by_contra hStart
  rw [Bool.not_eq_false] at hStart
  obtain ⟨t, hReads⟩ := hComes.reads hAll
  obtain ⟨hIsCode, rule, hRule, hNumber⟩ :=
    Scan.ruleOn_of_print hReads (Line.code_of_mem_ofSource hComes.mem) hPrint hStart
  obtain ⟨after, hSplit⟩ := hComes.split
  have hHad : rule ∈ (u.toModule path source dialect name).rules :=
    (Module.mem_rules_iff hParse).mpr ⟨before, s, line, after, hSplit, hComes.scan, hIsCode, hRule⟩
  rw [← hRules, Module.mem_rules_iff hParse'] at hHad
  obtain ⟨before', s', line', after', hSplit', hReads', _, hRule'⟩ := hHad
  obtain ⟨hSome, hNumber'⟩ := Scan.isSome_parseHead_of_mem_ruleOn hRule'
  rw [(nothing_on_line_of_erased hComes.mem hPrint (ComesTo.mem ⟨⟨after', hSplit'⟩, hReads'⟩)
    (hNumber'.symm.trans hNumber)).1] at hSome
  cases hSome

/-- An erased line at the beginning of a statement was the head of a rule, and whatever it mentioned
is mentioned no longer. -/
theorem ErasureKeeps.onlyPrints (hParse : Module.parse path source dialect = .ok m)
    (hKeeps : ErasureKeeps m)
    (hComes : ComesTo m.dialect (Line.ofSource m.source.toList) before s line)
    (hPrint : isPrintLine line.text = true) :
    s.atStart line = false ∧ (s.readsCode line = true → OnlyPrints before s line) := by
  refine ⟨hKeeps.notStart hParse hComes hPrint, ?_⟩
  intro hReads r hr hRecorded
  by_contra hOther
  rw [not_or, Bool.not_eq_true, Bool.not_eq_true] at hOther
  obtain ⟨m', hParse', _, _, _, hMentioned⟩ := hKeeps
  obtain ⟨v, name', _, _, rfl⟩ := Module.parse_eq_ok_iff.mp hParse'
  obtain ⟨before', s', line', r', hMentions, hNumber, hPath, hCall⟩ :=
    hMentioned before s line r ⟨hComes, hReads, hr, hRecorded⟩ hOther.1 hOther.2
  obtain ⟨hCalled, hDocument⟩ :=
    (nothing_on_line_of_erased hComes.mem hPrint hMentions.comes.mem hNumber).2 r'
      (List.mem_of_mem_filter hMentions.found)
  have hRecorded' := hMentions.recorded
  rw [hCalled, hDocument] at hRecorded'
  cases hRecorded'

end OnlyPrints

end PolicyBundle.Policy
