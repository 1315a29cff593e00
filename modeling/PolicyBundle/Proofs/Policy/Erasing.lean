import PolicyBundle.Policy.Erasure
import PolicyBundle.Proofs.Policy.Lexing
import PolicyBundle.Proofs.Policy.Returns
import PolicyBundle.Proofs.Policy.Scanning
import Mathlib.Data.List.TakeWhile

/-! The lines of a source without its print statements, and how the scan of these lines runs beside
the scan of the source. The two scans stay alike as long as every erased line leaves the scan as the
word `true` does in its place. -/

namespace PolicyBundle.Policy

/-- A line as the source without print statements has it. -/
def erasedText (text : List Char) : List Char :=
  Text.dropReturn (erasePrint text)

/-- The same for a line with its number, read in the mode in which the line is read. -/
def Line.erased (line : Line) : Line :=
  Line.single line.number line.inString (erasedText line.text)

theorem strip_code_append {start : List Char}
    (hStart : ∀ c ∈ start, c ≠ '#' ∧ c ≠ '"' ∧ c ≠ '`') (text : List Char) :
    strip .code (start ++ text) = (start ++ (strip .code text).1, (strip .code text).2) := by
  induction start with
  | nil => rfl
  | cons c start ih =>
      obtain ⟨hHash, hDouble, hBack⟩ := hStart c List.mem_cons_self
      have hRest := ih fun d hd => hStart d (List.mem_cons_of_mem _ hd)
      rw [List.cons_append, strip, if_neg hHash]
      simp only [if_neg hDouble, if_neg hBack, hRest, List.cons_append]

/-- Text without a mark that opens a string or a comment is code throughout. -/
theorem strip_code_of_plain {text : List Char} (hText : ∀ c ∈ text, c ≠ '#' ∧ c ≠ '"' ∧ c ≠ '`') :
    strip .code text = (text, false) := by
  have hStrip := strip_code_append hText []
  rwa [List.append_nil, show strip .code [] = ([], false) from rfl, List.append_nil] at hStrip

theorem strip_raw_of_not_mem {text : List Char} (hText : '`' ∉ text) :
    strip .raw text = ([], true) := by
  induction text with
  | nil => rfl
  | cons c rest ih =>
      have hOther : c ≠ '`' := fun h => hText (h ▸ List.mem_cons_self)
      rw [strip, if_neg hOther]
      exact ih fun h => hText (List.mem_cons_of_mem _ h)

theorem isBlank_indent (text : List Char) :
    ∀ c ∈ text.takeWhile Text.isBlank, Text.isBlank c = true :=
  fun _ h => List.mem_takeWhile_imp h

theorem ne_of_isBlank {c d : Char} (hBlank : Text.isBlank c = true)
    (hOther : Text.isBlank d = false) : c ≠ d := by
  rintro rfl
  rw [hBlank] at hOther
  cases hOther

/-- Blanks and a word in front of a line of code are code. -/
theorem strip_indent (text word : List Char)
    (hWord : ∀ c ∈ word, c ≠ '#' ∧ c ≠ '"' ∧ c ≠ '`') (more : List Char) :
    strip .code (text.takeWhile Text.isBlank ++ word ++ more) =
      (text.takeWhile Text.isBlank ++ word ++ (strip .code more).1, (strip .code more).2) := by
  apply strip_code_append
  intro c hc
  rcases List.mem_append.mp hc with hc | hc
  · have hBlank := isBlank_indent text c hc
    exact ⟨ne_of_isBlank hBlank rfl, ne_of_isBlank hBlank rfl, ne_of_isBlank hBlank rfl⟩
  · exact hWord c hc

theorem isPrintLine_iff_exists {text : List Char} (h : isPrintLine text = true) :
    ∃ more, text = text.takeWhile Text.isBlank ++ "print(".toList ++ more := by
  simp only [isPrintLine, Bool.and_eq_true] at h
  have hTrim : Text.trim text <+: text.dropWhile Text.isBlank := by
    rw [Text.trim, Text.dropEnds, ← List.reverse_suffix, List.reverse_reverse]
    exact List.dropWhile_suffix _
  obtain ⟨more, hMore⟩ := (List.isPrefixOf_iff_prefix.mp h.1).trans hTrim
  refine ⟨more, ?_⟩
  rw [List.append_assoc, hMore, List.takeWhile_append_dropWhile]

theorem erasedText_of_print {text : List Char} (hPrint : isPrintLine text = true) :
    erasedText text = text.takeWhile Text.isBlank ++ "true".toList := by
  rw [erasedText, erasePrint, if_pos hPrint]
  apply Text.dropReturn_of_getLast?
  rw [List.getLast?_append, show "true".toList.getLast? = some 'e' from rfl, Option.some_or]
  decide

theorem erasedText_of_kept {text : List Char} (hKept : isPrintLine text = false) :
    erasedText text = Text.dropReturn text := by
  rw [erasedText, erasePrint, if_neg (by rw [hKept]; exact Bool.false_ne_true)]

theorem not_mem_erasePrint {text : List Char} (hText : '\n' ∉ text) : '\n' ∉ erasePrint text := by
  rw [erasePrint]
  split
  · rw [List.mem_append, not_or]
    exact ⟨fun h => hText ((List.takeWhile_prefix _).mem h), by decide⟩
  · exact hText

/-- The source without print statements has the lines of the source, each erased or kept. -/
theorem lines_withoutPrints (m : Module) :
    Text.lines m.withoutPrints.source.toList = (Text.lines m.source.toList).map erasedText := by
  have hParts : ∀ text ∈ (Text.lines m.source.toList).map erasePrint, '\n' ∉ text := by
    intro text hText
    obtain ⟨line, hLine, rfl⟩ := List.mem_map.mp hText
    exact not_mem_erasePrint (Text.not_mem_of_mem_lines hLine)
  have hLines := Text.lines_flatMap_feed hParts
  rw [List.flatMap_map, List.map_map] at hLines
  rw [Module.withoutPrints, String.toList_ofList, hLines]
  rfl

namespace Line

variable {line : Line}

theorem mode_of_outside (hOutside : line.inString = false) : line.mode = .code := by
  rw [mode, hOutside]
  rfl

/-- A line that is kept has the same code, but for a carriage return at its end. -/
theorem erased_of_kept (hLine : line.code = (strip line.mode line.text).1)
    (hKept : isPrintLine line.text = false) :
    (line.code = line.erased.code ∨ line.code = line.erased.code ++ ['\r']) ∧
      line.erased.leavesString = line.leavesString := by
  have hErased : line.erased.code = (strip line.mode (Text.dropReturn line.text)).1 := by
    rw [erased, single, erasedText_of_kept hKept]
    rfl
  have hLeaves : line.erased.leavesString =
      (strip line.mode (Text.dropReturn line.text)).2 := by
    rw [erased, leavesString, single, erasedText_of_kept hKept]
    rfl
  rw [hErased, hLeaves, hLine, leavesString]
  rcases Text.eq_dropReturn_or line.text with hSame | hReturn
  · rw [← hSame]
    exact ⟨Or.inl rfl, rfl⟩
  · obtain ⟨tail, hTail, hStrip⟩ := strip_concat_return line.mode (Text.dropReturn line.text)
    rw [← hReturn] at hStrip
    rw [hStrip]
    refine ⟨?_, rfl⟩
    rcases hTail with rfl | rfl
    · exact Or.inl (List.append_nil _)
    · exact Or.inr rfl

/-- A print statement in code begins with its call. -/
theorem code_of_print (hLine : line.code = (strip line.mode line.text).1)
    (hPrint : isPrintLine line.text = true) (hOutside : line.inString = false) :
    ∃ more, line.code = line.text.takeWhile Text.isBlank ++ "print(".toList ++ more := by
  obtain ⟨more, hMore⟩ := isPrintLine_iff_exists hPrint
  refine ⟨(strip .code more).1, ?_⟩
  rw [hLine, mode_of_outside hOutside]
  nth_rewrite 1 [hMore]
  rw [strip_indent line.text "print(".toList (by simp)]

/-- In its place stands the word `true`, and the line ends outside strings. -/
theorem erased_of_print_outside (hPrint : isPrintLine line.text = true)
    (hOutside : line.inString = false) :
    line.erased.code = line.text.takeWhile Text.isBlank ++ "true".toList ∧
      line.erased.leavesString = false := by
  have hStrip := strip_indent line.text "true".toList (by simp) []
  rw [show (strip .code []).1 = [] from rfl, List.append_nil] at hStrip
  rw [erased, leavesString, mode, single, erasedText_of_print hPrint, hOutside]
  exact ⟨congrArg Prod.fst hStrip, congrArg Prod.snd hStrip⟩

/-- Inside a raw string the word is part of the string. -/
theorem erased_of_print_inString (hPrint : isPrintLine line.text = true)
    (hString : line.inString = true) :
    line.erased.code = [] ∧ line.erased.leavesString = true := by
  have hQuote : '`' ∉ line.text.takeWhile Text.isBlank ++ "true".toList := by
    rw [List.mem_append, not_or]
    exact ⟨fun h => ne_of_isBlank (isBlank_indent line.text _ h) rfl rfl, by decide⟩
  have hStrip := strip_raw_of_not_mem hQuote
  rw [erased, leavesString, mode, single, erasedText_of_print hPrint, hString]
  exact ⟨congrArg Prod.fst hStrip, congrArg Prod.snd hStrip⟩

/-- What a scan looks at in a line is the same in another one. -/
structure ReadsAs (line other : Line) : Prop where
  number : other.number = line.number
  inString : other.inString = line.inString
  hasCode : other.hasCode = line.hasCode
  comment : commentBody? other.text = commentBody? line.text
  trim : Text.trim other.code = Text.trim line.code
  balance : bracketBalance false other.code = bracketBalance false line.code
  references : references other.code = references line.code
  fault : ∀ dialect imports,
    ruleFault? dialect imports other.code = ruleFault? dialect imports line.code

/-- A kept line reads as it did. -/
theorem readsAs_erased (hLine : line.code = (strip line.mode line.text).1)
    (hKept : isPrintLine line.text = false) : ReadsAs line line.erased := by
  have hComment : commentBody? line.erased.text = commentBody? line.text := by
    rw [erased, single, erasedText_of_kept hKept, commentBody?, commentBody?]
    rcases Text.eq_dropReturn_or line.text with hSame | hReturn
    · rw [← hSame]
    · rw [hReturn, Text.trim_concat_return, Text.dropReturn_concat_return]
  rcases (erased_of_kept hLine hKept).1 with hCode | hCode
  · exact ⟨rfl, rfl, by rw [hasCode, hasCode, hCode], hComment, by rw [hCode], by rw [hCode],
      by rw [hCode], fun _ _ => by rw [hCode]⟩
  · refine ⟨rfl, rfl, ?_, hComment, ?_, ?_, ?_, ?_⟩
    · rw [hasCode, hasCode, hCode, Text.blank_concat_return]
    · rw [hCode, Text.trim_concat_return]
    · rw [hCode, bracketBalance_concat_return]
    · rw [hCode, references_concat_return]
    · intro dialect imports
      rw [hCode, ruleFault?_concat_return]

end Line

namespace Scan

/-- One scan is the other, but for calls and references, and for the continuation where it does not
matter because brackets are open. -/
structure Alike (s t : Scan) : Prop where
  same : ∃ calls dataRefs continued,
    t = { s with calls := calls, dataRefs := dataRefs, continued := continued }
  continued : s.depth = 0 → t.continued = s.continued

/-- What is known of a scan from whether the next line begins inside a raw string. -/
structure Quiet (s : Scan) (inString : Bool) : Prop where
  package : inString = true → s.package.isSome = true
  continued : inString = true ∨ s.package = none → s.continued = false

/-- A line leaves the scan as the word `true` in its place does. -/
structure PassesAsTrue (s : Scan) (line : Line) : Prop where
  notStart : s.atStart line = false
  balanced : bracketBalance false line.code = 0
  sameString : line.leavesString = line.inString
  notContinuing : s.depth = 0 → continues (Text.trim line.code) = false

/-- No carriage return at the end of the line hides the head of a rule. -/
def ShowsHead (s : Scan) (line : Line) : Prop :=
  s.readsCode line = true → s.atStart line = true →
    parseHead line.erased.code = parseHead line.code

/-- A line and what is left of it leave the scan alike. -/
structure KeepsScan (s : Scan) (line : Line) : Prop where
  erased : isPrintLine line.text = true → PassesAsTrue s line
  kept : isPrintLine line.text = false → ShowsHead s line

variable {dialect : Dialect} {s t u v : Scan} {line other : Line}

theorem alike_refl (s : Scan) : Alike s s :=
  ⟨⟨s.calls, s.dataRefs, s.continued, rfl⟩, fun _ => rfl⟩

theorem quiet_empty : Quiet empty false :=
  ⟨fun hString => absurd hString Bool.false_ne_true, fun _ => rfl⟩

theorem Alike.atStart (hAlike : Alike s t) (hString : other.inString = line.inString) :
    t.atStart other = s.atStart line := by
  obtain ⟨⟨calls, dataRefs, continued, rfl⟩, hContinued⟩ := hAlike
  rw [Scan.atStart, Scan.atStart, hString]
  by_cases hDepth : s.depth = 0
  · rw [show continued = s.continued from hContinued hDepth]
  · simp [hDepth]

theorem Alike.package (hAlike : Alike s t) : t.package = s.package := by
  obtain ⟨⟨calls, dataRefs, continued, rfl⟩, _⟩ := hAlike
  rfl

theorem Alike.imports (hAlike : Alike s t) : t.imports = s.imports := by
  obtain ⟨⟨calls, dataRefs, continued, rfl⟩, _⟩ := hAlike
  rfl

theorem Alike.rules (hAlike : Alike s t) : t.rules = s.rules := by
  obtain ⟨⟨calls, dataRefs, continued, rfl⟩, _⟩ := hAlike
  rfl

theorem Alike.depth (hAlike : Alike s t) : t.depth = s.depth := by
  obtain ⟨⟨calls, dataRefs, continued, rfl⟩, _⟩ := hAlike
  rfl

theorem Alike.readsImport (hAlike : Alike s t) (hOther : line.ReadsAs other) :
    t.readsImport other = s.readsImport line := by
  rw [Scan.readsImport, Scan.readsImport, hAlike.atStart hOther.inString, hOther.trim]

theorem Alike.passOver (hAlike : Alike s t) (hOther : line.ReadsAs other) :
    Alike (s.passOver line) (t.passOver other) := by
  obtain ⟨⟨calls, dataRefs, continued, rfl⟩, hContinued⟩ := hAlike
  constructor
  · refine ⟨calls, dataRefs, continued, ?_⟩
    simp only [Scan.passOver, hOther.inString, hOther.comment]
    split
    · split
      · rfl
      · split <;> rfl
    · rfl
  · rw [passOver_eq, passOver_eq _ other]
    exact hContinued

theorem Alike.headOf (hAlike : Alike s t) (hString : other.inString = line.inString)
    (hHead : s.atStart line = true → parseHead other.code = parseHead line.code) :
    t.headOf other = s.headOf line := by
  rw [Scan.headOf, Scan.headOf, hAlike.atStart hString]
  cases hStart : s.atStart line with
  | true => rw [if_pos rfl, if_pos rfl, hHead hStart]
  | false => rw [if_neg Bool.false_ne_true, if_neg Bool.false_ne_true]

theorem Alike.mentions (hAlike : Alike s t) (hOther : line.ReadsAs other)
    (hHead : s.atStart line = true → parseHead other.code = parseHead line.code) :
    t.mentions other = s.mentions line := by
  rw [Scan.mentions, Scan.mentions, hAlike.headOf hOther.inString hHead, hOther.references]

theorem Alike.headFault? (hAlike : Alike s t) (hOther : line.ReadsAs other)
    (hHead : s.atStart line = true → parseHead other.code = parseHead line.code) :
    t.headFault? dialect other = s.headFault? dialect line := by
  rw [Scan.headFault?, Scan.headFault?, hAlike.headOf hOther.inString hHead, hAlike.imports,
    hOther.fault]

theorem Alike.afterCode (hAlike : Alike s t) (hOther : line.ReadsAs other)
    (hHead : s.atStart line = true → parseHead other.code = parseHead line.code) :
    Alike (s.afterCode line) (t.afterCode other) := by
  have hHeads := hAlike.headOf hOther.inString hHead
  have hMentions := hAlike.mentions hOther hHead
  have hStart := hAlike.atStart hOther.inString
  refine ⟨⟨(t.afterCode other).calls, (t.afterCode other).dataRefs, (t.afterCode other).continued,
    ?_⟩, fun _ => ?_⟩
  · obtain ⟨⟨calls, dataRefs, continued, rfl⟩, _⟩ := hAlike
    rw [Scan.afterCode, Scan.afterCode, hHeads, hMentions, hStart, hOther.balance, hOther.trim,
      hOther.number]
    cases s.headOf line <;> rfl
  · rw [afterCode_continued, afterCode_continued, hOther.trim]

theorem Alike.outsideMetadata (hAlike : Alike s t) :
    Alike { s with inMetadata := false } { t with inMetadata := false } := by
  obtain ⟨⟨calls, dataRefs, continued, rfl⟩, hContinued⟩ := hAlike
  exact ⟨⟨calls, dataRefs, continued, rfl⟩, hContinued⟩

/-- A line that reads as before keeps the scans alike. -/
theorem Alike.step_same (hAlike : Alike s t) (hOther : line.ReadsAs other)
    (hHead : s.readsCode line = true → s.atStart line = true →
      parseHead other.code = parseHead line.code)
    (hReads : Reads dialect s line u) : ∃ v, Reads dialect t other v ∧ Alike u v := by
  cases hReads with
  | blank hBlank =>
      exact ⟨_, .blank (hOther.hasCode.trans hBlank), hAlike.passOver hOther⟩
  | package hCode hFirst hName =>
      refine ⟨_, .package (hOther.hasCode.trans hCode) (hAlike.package.trans hFirst)
        (by rwa [hOther.trim]), ?_⟩
      obtain ⟨⟨calls, dataRefs, continued, rfl⟩, hContinued⟩ := hAlike
      exact ⟨⟨calls, dataRefs, continued, rfl⟩, hContinued⟩
  | importLine hCode hPackage hImport hFound =>
      refine ⟨_, .importLine (hOther.hasCode.trans hCode) (by rwa [hAlike.package])
        ((hAlike.readsImport hOther).trans hImport) (by rwa [hOther.trim, hOther.number]), ?_⟩
      obtain ⟨⟨calls, dataRefs, continued, rfl⟩, _⟩ := hAlike
      exact ⟨⟨calls, dataRefs, false, rfl⟩, fun _ => rfl⟩
  | code hCode hPackage hImport hFault =>
      have hStatement := hHead (by rw [readsCode, hCode, hPackage, hImport]; rfl)
      refine ⟨_, .code (hOther.hasCode.trans hCode) (by rwa [hAlike.package])
        ((hAlike.readsImport hOther).trans hImport)
        ((hAlike.headFault? hOther hStatement).trans hFault), ?_⟩
      exact hAlike.outsideMetadata.afterCode hOther hStatement

/-- Away from the beginning of a statement, code only adds calls and references. -/
theorem afterCode_of_notStart (hStart : s.atStart line = false) : ∃ calls dataRefs,
    s.afterCode line = { s with
      calls := calls
      dataRefs := dataRefs
      depth := s.depth + bracketBalance false line.code
      continued := continues (Text.trim line.code) } := by
  refine ⟨(s.afterCode line).calls, (s.afterCode line).dataRefs, ?_⟩
  have hHead : s.headOf line = none := by
    rw [headOf, hStart, if_neg Bool.false_ne_true]
  rw [afterCode, hHead, hStart]
  rfl

theorem headFault?_of_notStart (hStart : s.atStart line = false) :
    s.headFault? dialect line = none := by
  rw [headFault?, headOf, hStart, if_neg Bool.false_ne_true]
  rfl

theorem readsImport_of_notStart (hStart : s.atStart line = false) :
    s.readsImport line = false := by
  rw [readsImport, hStart, Bool.false_and]

theorem atStart_of_inString (hString : line.inString = true) : s.atStart line = false := by
  rw [atStart, hString, Bool.not_true, Bool.and_false]

theorem passOver_of_inString (hString : line.inString = true) :
    s.passOver line = { s with inMetadata := false } := by
  rw [passOver, hString]
  rfl

/-- The code of a print statement outside strings, and what stands in its place. -/
theorem trim_code_of_print (hLine : line.code = (strip line.mode line.text).1)
    (hPrint : isPrintLine line.text = true) (hOutside : line.inString = false) :
    ∃ more, Text.trim line.code = "print(".toList ++ more := by
  obtain ⟨more, hCode⟩ := Line.code_of_print hLine hPrint hOutside
  rw [hCode, List.append_assoc, Text.trim_indent (isBlank_indent line.text)]
  obtain ⟨rest, hTrim, -⟩ :=
    Text.trim_append "print(".toList (by decide) (by decide) (by decide) more
  exact ⟨rest, hTrim⟩

theorem trim_erased_of_print (hPrint : isPrintLine line.text = true)
    (hOutside : line.inString = false) : Text.trim line.erased.code = "true".toList := by
  rw [(Line.erased_of_print_outside hPrint hOutside).1,
    Text.trim_indent (isBlank_indent line.text)]
  decide

theorem bracketBalance_indent {indent : List Char} (hIndent : ∀ c ∈ indent, Text.isBlank c = true)
    (text : List Char) : bracketBalance false (indent ++ text) = bracketBalance false text := by
  induction indent with
  | nil => rfl
  | cons c indent ih =>
      have hBlank := hIndent c List.mem_cons_self
      have hRest := ih fun d hd => hIndent d (List.mem_cons_of_mem _ hd)
      have hOpen : c ≠ '\x7b' ∧ c ≠ '[' ∧ c ≠ '(' :=
        ⟨ne_of_isBlank hBlank rfl, ne_of_isBlank hBlank rfl, ne_of_isBlank hBlank rfl⟩
      have hClose : c ≠ '\x7d' ∧ c ≠ ']' ∧ c ≠ ')' :=
        ⟨ne_of_isBlank hBlank rfl, ne_of_isBlank hBlank rfl, ne_of_isBlank hBlank rfl⟩
      rw [List.cons_append, bracketBalance_cons (ne_of_isBlank hBlank rfl)
        (ne_of_isBlank hBlank rfl), hRest]
      simp [hOpen, hClose]

theorem hasCode_of_trim (hTrim : Text.trim line.code ≠ []) : line.hasCode = true := by
  rw [Line.hasCode, Bool.not_eq_true', Text.blank, Bool.eq_false_iff]
  intro hBlank
  have hNil := Text.trim_indent (List.all_eq_true.mp hBlank) []
  rw [List.append_nil] at hNil
  exact hTrim hNil

/-- A print statement is no package line. -/
theorem not_parsePackage_print (more : List Char) (name : String) :
    parsePackage ("print(".toList ++ more) ≠ .ok name := by
  have hNone : Text.afterList? "package".toList ("print(".toList ++ more) = none := rfl
  rw [parsePackage, hNone]
  rintro ⟨⟩

/-- Away from statements, a print statement outside strings is read as code. -/
theorem Reads.afterCode_of_print (hReads : Reads dialect s line u)
    (hLine : line.code = (strip line.mode line.text).1) (hPrint : isPrintLine line.text = true)
    (hOutside : line.inString = false) (hImport : s.readsImport line = false) :
    s.package.isSome = true ∧ u = afterCode { s with inMetadata := false } line := by
  obtain ⟨more, hTrim⟩ := trim_code_of_print hLine hPrint hOutside
  have hCode : line.hasCode = true := hasCode_of_trim (by rw [hTrim]; exact List.cons_ne_nil _ _)
  cases hReads with
  | blank hBlank =>
      rw [hCode] at hBlank
      cases hBlank
  | package _ _ hName =>
      rw [hTrim] at hName
      exact absurd hName (not_parsePackage_print more _)
  | importLine _ _ hOther _ =>
      rw [hImport] at hOther
      cases hOther
  | code _ hPackage _ _ => exact ⟨hPackage, rfl⟩

/-- The word `true` in the place of an erased line that begins in code keeps the scans alike. -/
theorem Alike.step_erased_outside (hAlike : Alike s t)
    (hLine : line.code = (strip line.mode line.text).1) (hPrint : isPrintLine line.text = true)
    (hPass : PassesAsTrue s line) (hReads : Reads dialect s line u)
    (hOutside : line.inString = false) : ∃ v, Reads dialect t line.erased v ∧ Alike u v := by
  have hStart : t.atStart line.erased = false := (hAlike.atStart rfl).trans hPass.notStart
  obtain ⟨hPackage, rfl⟩ := hReads.afterCode_of_print hLine hPrint hOutside
    (readsImport_of_notStart hPass.notStart)
  have hTrue := trim_erased_of_print hPrint hOutside
  have hBalance : bracketBalance false line.erased.code = 0 := by
    rw [(Line.erased_of_print_outside hPrint hOutside).1,
      bracketBalance_indent (isBlank_indent line.text)]
    rfl
  refine ⟨_, .code (hasCode_of_trim (by rw [hTrue]; decide))
    (by rwa [hAlike.package]) (readsImport_of_notStart hStart)
    (headFault?_of_notStart hStart), ?_⟩
  obtain ⟨calls, dataRefs, hOld⟩ :=
    afterCode_of_notStart (s := { s with inMetadata := false }) hPass.notStart
  obtain ⟨calls', dataRefs', hNew⟩ :=
    afterCode_of_notStart (s := { t with inMetadata := false }) hStart
  rw [hOld, hNew, hTrue, hBalance, hPass.balanced]
  obtain ⟨⟨_, _, _, rfl⟩, _⟩ := hAlike
  refine ⟨⟨calls', dataRefs', _, rfl⟩, ?_⟩
  intro hDepth
  exact (hPass.notContinuing ((Int.add_zero s.depth).symm.trans hDepth)).symm

/-- Nothing is left of an erased line that begins inside a raw string, and that keeps the scans
alike. -/
theorem Alike.step_erased_inString (hAlike : Alike s t) (hQuiet : Quiet s line.inString)
    (hPrint : isPrintLine line.text = true) (hPass : PassesAsTrue s line)
    (hReads : Reads dialect s line u) (hString : line.inString = true) :
    ∃ v, Reads dialect t line.erased v ∧ Alike u v := by
  have hImport := readsImport_of_notStart hPass.notStart
  have hBlank : line.erased.hasCode = false := by
    rw [Line.hasCode, (Line.erased_of_print_inString hPrint hString).1]
    rfl
  refine ⟨_, .blank hBlank, ?_⟩
  rw [show t.passOver line.erased = _ from passOver_of_inString hString]
  have hNotAsked : s.continued = false := hQuiet.continued (Or.inl hString)
  cases hReads with
  | blank _ =>
      rw [passOver_of_inString hString]
      exact hAlike.outsideMetadata
  | package _ hFirst _ =>
      have hPackage := hQuiet.package hString
      rw [hFirst] at hPackage
      cases hPackage
  | importLine _ _ hOther _ =>
      rw [hImport] at hOther
      cases hOther
  | code _ _ _ _ =>
      obtain ⟨calls, dataRefs, hOld⟩ :=
        afterCode_of_notStart (s := { s with inMetadata := false }) hPass.notStart
      rw [hOld, hPass.balanced]
      obtain ⟨⟨calls', dataRefs', continued', rfl⟩, hContinued⟩ := hAlike
      refine ⟨⟨calls', dataRefs', continued', ?_⟩, ?_⟩
      · simp
      · intro hDepth
        have hZero : s.depth = 0 := (Int.add_zero s.depth).symm.trans hDepth
        exact ((hContinued hZero).trans hNotAsked).trans (hPass.notContinuing hZero).symm

/-- What is left of an erased line keeps the scans alike. -/
theorem Alike.step_erased (hAlike : Alike s t) (hQuiet : Quiet s line.inString)
    (hLine : line.code = (strip line.mode line.text).1) (hPrint : isPrintLine line.text = true)
    (hPass : PassesAsTrue s line) (hReads : Reads dialect s line u) :
    ∃ v, Reads dialect t line.erased v ∧ Alike u v := by
  cases hString : line.inString with
  | false => exact hAlike.step_erased_outside hLine hPrint hPass hReads hString
  | true => exact hAlike.step_erased_inString hQuiet hPrint hPass hReads hString

/-- A line that keeps the scan keeps the scans alike. -/
theorem Alike.step (hAlike : Alike s t) (hQuiet : Quiet s line.inString)
    (hLine : line.code = (strip line.mode line.text).1) (hKeeps : KeepsScan s line)
    (hReads : Reads dialect s line u) : ∃ v, Reads dialect t line.erased v ∧ Alike u v := by
  cases hPrint : isPrintLine line.text with
  | true => exact hAlike.step_erased hQuiet hLine hPrint (hKeeps.erased hPrint) hReads
  | false =>
      exact hAlike.step_same (Line.readsAs_erased hLine hPrint) (hKeeps.kept hPrint) hReads

/-- It also ends in the same mode. -/
theorem KeepsScan.leavesString (hKeeps : KeepsScan s line)
    (hLine : line.code = (strip line.mode line.text).1) :
    line.erased.leavesString = line.leavesString := by
  cases hPrint : isPrintLine line.text with
  | false => exact (Line.erased_of_kept hLine hPrint).2
  | true =>
      rw [(hKeeps.erased hPrint).sameString]
      cases hString : line.inString with
      | false => exact (Line.erased_of_print_outside hPrint hString).2
      | true => exact (Line.erased_of_print_inString hPrint hString).2

/-- A line that goes on as a raw string asks for nothing more, and it stands behind the package. -/
theorem Quiet.step (hQuiet : Quiet s line.inString)
    (hLine : line.code = (strip line.mode line.text).1) (hReads : Reads dialect s line u) :
    Quiet u line.leavesString := by
  -- A line without code inside a string is inside it from its beginning on.
  have hInside (hLeaves : line.leavesString = true) (hBlank : line.hasCode = false) :
      line.inString = true := by
    rcases getLast?_strip hLeaves with hLast | ⟨hMode, _⟩
    · rw [← hLine] at hLast
      rw [Line.hasCode, Bool.not_eq_false', Text.blank, List.all_eq_true] at hBlank
      exact absurd (hBlank _ (List.mem_of_getLast? hLast)) (by decide)
    · by_contra hOutside
      rw [Line.mode_of_outside (by simpa using hOutside)] at hMode
      cases hMode
  cases hReads with
  | blank hBlank =>
      rw [passOver_eq]
      exact ⟨fun hLeaves => hQuiet.package (hInside hLeaves hBlank),
        fun h => hQuiet.continued (h.imp_left fun hLeaves => hInside hLeaves hBlank)⟩
  | package _ hFirst _ =>
      exact ⟨fun _ => rfl, fun _ => hQuiet.continued (Or.inr hFirst)⟩
  | importLine _ hPackage _ _ => exact ⟨fun _ => hPackage, fun _ => rfl⟩
  | code hCode hPackage _ _ =>
      refine ⟨fun _ => by rw [afterCode_package]; exact hPackage, ?_⟩
      rintro (hLeaves | hNone)
      · rcases getLast?_strip hLeaves with hLast | ⟨_, hNil⟩
        · rw [← hLine] at hLast
          rw [afterCode_continued, continues, Text.getLast?_trim hLast (by decide)]
          decide
        · rw [Line.hasCode, hLine, hNil] at hCode
          cases hCode
      · rw [afterCode_package] at hNone
        rw [show s.package = none from hNone] at hPackage
        cases hPackage

/-- A run over lines that keep the scan. Behind it the scans are alike, and the lines that are left
stand in the same modes as the lines they are left of. -/
theorem Alike.steps {number : Nat} {inString : Bool} {texts : List (List Char)}
    (hAlike : Alike s t) (hQuiet : Quiet s inString)
    (hKeeps : ∀ before between line after,
      Line.numbered number inString texts = before ++ line :: after →
        ReadsAll dialect s before between → KeepsScan between line)
    (hReads : ReadsAll dialect s (Line.numbered number inString texts) u) :
    Quiet u (Line.endsInString inString texts) ∧
      Line.numbered number inString (texts.map erasedText) =
        (Line.numbered number inString texts).map Line.erased ∧
      Line.endsInString inString (texts.map erasedText) = Line.endsInString inString texts ∧
      ∃ v, ReadsAll dialect t ((Line.numbered number inString texts).map Line.erased) v ∧
        Alike u v := by
  induction texts generalizing number inString s t with
  | nil =>
      cases hReads
      exact ⟨hQuiet, rfl, rfl, t, .nil t, hAlike⟩
  | cons text rest ih =>
      rw [Line.numbered_cons] at hReads hKeeps ⊢
      obtain _ | ⟨first, others⟩ := hReads
      rename_i next
      have hHere : KeepsScan s (Line.single number inString text) :=
        hKeeps [] s _ _ rfl (.nil s)
      obtain ⟨between, hFirst, hBetween⟩ := hAlike.step hQuiet rfl hHere first
      have hLeaves := hHere.leavesString rfl
      have hRest := ih hBetween (hQuiet.step rfl first)
        (fun before between line after hLines hBefore =>
          hKeeps (_ :: before) between line after (by rw [hLines]; rfl) (.cons first hBefore))
        others
      obtain ⟨hEnd, hLines, hMode, v, hOthers, hAlike'⟩ := hRest
      have hErased : Line.single number inString (erasedText text) =
          (Line.single number inString text).erased := rfl
      refine ⟨hEnd, ?_, ?_, v, .cons hFirst hOthers, hAlike'⟩
      · rw [List.map_cons, Line.numbered_cons, hErased, hLeaves, hLines, List.map_cons]
      · rw [List.map_cons, Line.endsInString_cons number, hErased, hLeaves, hMode,
          Line.endsInString_cons number inString text]

end Scan

end PolicyBundle.Policy
