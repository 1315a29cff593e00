import PolicyBundle.Proofs.Policy.Erasing
import PolicyBundle.Proofs.Policy.RuleHeads

/-! What a module keeps when its print statements are erased. Everything is kept if every erased line
is a print statement and nothing else; and every other line that is erased loses something, in the
module itself or in a module that goes on differently behind that line. -/

namespace PolicyBundle.Policy

/-- Whether the text in front of a parenthesis, given backwards, ends with the name `print`. -/
def endsWithPrint (before : List Char) : Bool :=
  "print".toList.reverse.isPrefixOf before && endsName (before.drop "print".length).head?

/-- The brackets that are open behind a text, the innermost first, each with whether the arguments
of a call of `print` stand in it. Some are open in front of the text already; `before` is what the
line has in front of the text, backwards. -/
def openArguments (opened : List Bool) (before : List Char) : List Char → List Bool
  | [] => opened
  | c :: rest =>
    let opened :=
      if c = '(' then endsWithPrint before :: opened
      else if c = '\x7b' || c = '[' then false :: opened
      else if c = ')' || c = '\x7d' || c = ']' then opened.tail
      else opened
    openArguments opened (c :: before) rest

/-- The brackets that statements have opened before a line. -/
def argumentsBefore (imports : List Import) (before : List Line) : List Bool :=
  (statementLines imports before).foldl (fun opened line => openArguments opened [] line.code) []

/-- Whether a reference stands inside the argument list of a call of `print`. -/
def isPrintArgument (imports : List Import) (before : List Line) (line : Line) (r : Reference) :
    Bool :=
  (openArguments (argumentsBefore imports before) [] (line.code.take r.start)).contains true

namespace Reference

/-- Whether a reference is recorded as a document under `data`. -/
def isDocument (r : Reference) : Bool :=
  (Text.afterList? "data.".toList r.path).isSome

/-- Whether a reference is recorded as a call. -/
def isCalled (r : Reference) : Bool :=
  (Text.afterList? "data.".toList r.path).isNone && r.call && isCallable r.path

/-- Whether a reference is a call of `print`. -/
def isPrint (r : Reference) : Bool :=
  r.call && r.path = "print".toList

end Reference

/-- The scan of some lines comes, behind the lines before it, to a line. -/
structure ComesTo (dialect : Dialect) (lines before : List Line) (s : Scan) (line : Line) :
    Prop where
  split : ∃ after, lines = before ++ line :: after
  scan : Scan.ReadsAll dialect .empty before s

/-- A call or a document that a module mentions on a line. -/
structure Mentions (m : Module) (before : List Line) (s : Scan) (line : Line) (r : Reference) :
    Prop where
  comes : ComesTo m.dialect (Line.ofSource m.source.toList) before s line
  code : s.readsCode line = true
  found : r ∈ s.mentions line
  recorded : (r.isCalled || r.isDocument) = true

/-- The calls of a module are those it mentions. -/
theorem mem_calls_iff {path source : String} {dialect : Dialect} {m : Module}
    (hParse : Module.parse path source dialect = .ok m) (call : Call) :
    call ∈ m.calls ↔ ∃ before s line r, Mentions m before s line r ∧ r.isCalled = true ∧
      call = ⟨String.ofList r.path, line.number⟩ := by
  obtain ⟨u, name, hAll, hName, rfl⟩ := Module.parse_eq_ok_iff.mp hParse
  have hMem := hAll.mem_iff Scan.calls Scan.callsOn
    (fun _ _ _ hReads => hReads.found.2.1) call
  rw [show (u.toModule path source dialect name).calls = u.calls from rfl, hMem]
  constructor
  · rintro (hNone | ⟨before, s, line, after, hLines, hBefore, hCode, hOn⟩)
    · exact absurd hNone List.not_mem_nil
    obtain ⟨r, hr, hCall⟩ := List.mem_filterMap.mp hOn
    split at hCall
    · rename_i hCalled
      cases hCall
      have hCalled : r.isCalled = true := hCalled
      exact ⟨before, s, line, r, ⟨⟨⟨after, hLines⟩, hBefore⟩, hCode, hr, by rw [hCalled]; rfl⟩,
        hCalled, rfl⟩
    · cases hCall
  · rintro ⟨before, s, line, r, hMentions, hCalled, rfl⟩
    obtain ⟨after, hLines⟩ := hMentions.comes.split
    refine Or.inr ⟨before, s, line, after, hLines, hMentions.comes.scan, hMentions.code, ?_⟩
    exact List.mem_filterMap.mpr ⟨r, hMentions.found, if_pos hCalled⟩

/-- The documents of a module are those it mentions. -/
theorem mem_dataRefs_iff {path source : String} {dialect : Dialect} {m : Module}
    (hParse : Module.parse path source dialect = .ok m) (document : String) :
    document ∈ m.dataRefs ↔ ∃ before s line r, Mentions m before s line r ∧
      Text.afterList? "data.".toList r.path = some document.toList := by
  obtain ⟨u, name, hAll, hName, rfl⟩ := Module.parse_eq_ok_iff.mp hParse
  have hMem := hAll.mem_iff Scan.dataRefs Scan.documentsOn
    (fun _ _ _ hReads => hReads.found.2.2) document
  rw [show (u.toModule path source dialect name).dataRefs = u.dataRefs from rfl, hMem]
  constructor
  · rintro (hNone | ⟨before, s, line, after, hLines, hBefore, hCode, hOn⟩)
    · exact absurd hNone List.not_mem_nil
    obtain ⟨r, hr, hDocument⟩ := List.mem_filterMap.mp hOn
    obtain ⟨rest, hRest, rfl⟩ := Option.map_eq_some_iff.mp hDocument
    have hIs : r.isDocument = true := by rw [Reference.isDocument, hRest]; rfl
    exact ⟨before, s, line, r, ⟨⟨⟨after, hLines⟩, hBefore⟩, hCode, hr, by rw [hIs, Bool.or_true]⟩,
      by rw [hRest, String.toList_ofList]⟩
  · rintro ⟨before, s, line, r, hMentions, hDocument⟩
    obtain ⟨after, hLines⟩ := hMentions.comes.split
    refine Or.inr ⟨before, s, line, after, hLines, hMentions.comes.scan, hMentions.code, ?_⟩
    exact List.mem_filterMap.mpr ⟨r, hMentions.found, by rw [hDocument]; simp⟩

/-- The erasure of print statements takes nothing else from a module: the source that is left is a
module again, with the same package, imports and rules, and every call and document beside the calls
of `print` and their arguments is mentioned on the line where it was. -/
def ErasureKeeps (m : Module) : Prop :=
  ∃ m', Module.parse m.path m.withoutPrints.source m.dialect = .ok m' ∧
    m'.package = m.package ∧ m'.imports = m.imports ∧ m'.rules = m.rules ∧
    ∀ before s line r, Mentions m before s line r → r.isPrint = false →
      isPrintArgument s.imports before line r = false →
      ∃ before' s' line' r', Mentions m' before' s' line' r' ∧ line'.number = line.number ∧
        r'.path = r.path ∧ r'.call = r.call

/-- All that a line mentions is calls of `print` and their arguments. -/
def OnlyPrints (before : List Line) (s : Scan) (line : Line) : Prop :=
  ∀ r ∈ s.mentions line, (r.isCalled || r.isDocument) = true →
    r.isPrint = true ∨ isPrintArgument s.imports before line r = true

/-- No line of a module does harm when its print statements are erased: an erased line mentions
nothing but calls of `print` and their arguments and leaves the scan as `true` does, and no carriage
return hides a head from the scan of the module. -/
structure Harmless (m : Module) : Prop where
  keeps : ∀ before s line, ComesTo m.dialect (Line.ofSource m.source.toList) before s line →
    s.KeepsScan line
  prints : ∀ before s line, ComesTo m.dialect (Line.ofSource m.source.toList) before s line →
    isPrintLine line.text = true → s.readsCode line = true → OnlyPrints before s line

/-- Lines that keep the scan leave lines that can be read as well. -/
theorem exists_erased_scan {dialect : Dialect} {texts : List (List Char)} {s : Scan}
    (hKeeps : ∀ before between line, ComesTo dialect (Line.numbered 1 false texts) before between
      line → between.KeepsScan line)
    (hReads : Scan.ReadsAll dialect .empty (Line.numbered 1 false texts) s) :
    s.Quiet (Line.endsInString false texts) ∧
      Line.numbered 1 false (texts.map erasedText) =
        (Line.numbered 1 false texts).map Line.erased ∧
      Line.endsInString false (texts.map erasedText) = Line.endsInString false texts ∧
      ∃ t, Scan.ReadsAll dialect .empty ((Line.numbered 1 false texts).map Line.erased) t ∧
        s.Alike t :=
  (Scan.alike_refl .empty).steps Scan.quiet_empty
    (fun before between line after hLines hBefore => hKeeps before between line
      ⟨⟨after, hLines⟩, hBefore⟩) hReads

theorem ofSource_withoutPrints (m : Module) : Line.ofSource m.withoutPrints.source.toList =
    Line.numbered 1 false ((Text.lines m.source.toList).map erasedText) := by
  rw [Line.ofSource, lines_withoutPrints]

/-- Where no line does harm, nothing but print statements is lost. -/
theorem erasureKeeps_of_harmless {path source : String} {dialect : Dialect} {m : Module}
    (hParse : Module.parse path source dialect = .ok m) (hHarmless : Harmless m) :
    ErasureKeeps m := by
  obtain ⟨u, name, hAll, hName, rfl⟩ := Module.parse_eq_ok_iff.mp hParse
  obtain ⟨_, hLines, _, v, hErased, hAlike⟩ := exists_erased_scan hHarmless.keeps hAll
  have hSource := ofSource_withoutPrints (u.toModule path source dialect name)
  rw [hLines] at hSource
  refine ⟨_, Module.parse_eq_ok_iff.mpr ⟨v, name, by rw [hSource]; exact hErased,
    hAlike.package.trans hName, rfl⟩, rfl, hAlike.imports, hAlike.rules, ?_⟩
  intro before s line r hMentions hPrint hArgument
  obtain ⟨⟨after, hSplit⟩, hBefore⟩ := hMentions.comes
  obtain ⟨done, text, rest, hTexts, rfl, hLine⟩ := Line.numbered_eq_append_cons hSplit
  -- The lines before this one keep the scan as well.
  have hKept := exists_erased_scan (fun before' between line' hComes =>
    hHarmless.keeps before' between line' ⟨by
      obtain ⟨after', hAfter⟩ := hComes.split
      exact ⟨after' ++ line :: after, by rw [hSplit, hAfter, List.append_assoc]; rfl⟩,
      hComes.scan⟩) hBefore
  obtain ⟨_, _, _, t, hDone, hAlikeHere⟩ := hKept
  have hCode : line.code = (strip line.mode line.text).1 := by
    rw [hLine]
    rfl
  have hKept : isPrintLine line.text = false := by
    rw [Bool.eq_false_iff]
    intro hErase
    rcases hHarmless.prints _ s line hMentions.comes hErase hMentions.code r hMentions.found
      hMentions.recorded with hIs | hIs
    · rw [hPrint] at hIs
      cases hIs
    · rw [hArgument] at hIs
      cases hIs
  have hSame := Line.readsAs_erased hCode hKept
  have hHead := (hHarmless.keeps _ s line hMentions.comes).kept hKept hMentions.code
  refine ⟨_, t, line.erased, r, ⟨⟨⟨after.map Line.erased, ?_⟩, hDone⟩, ?_, ?_, hMentions.recorded⟩,
    rfl, rfl, rfl⟩
  · exact hSource.trans ((congrArg (List.map Line.erased) hSplit).trans List.map_append)
  · rw [Scan.readsCode, hSame.hasCode, hAlikeHere.package, hAlikeHere.readsImport hSame]
    exact hMentions.code
  · rw [hAlikeHere.mentions hSame hHead]
    exact hMentions.found

end PolicyBundle.Policy
