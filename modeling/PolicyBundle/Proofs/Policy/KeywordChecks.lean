import PolicyBundle.Proofs.Policy.PrintErasure
import PolicyBundle.Proofs.Text.Pieces

/-! Which rules are refused for their keywords. Keywords belong to the head of a rule, which ends at
the first brace that no bracket of its line encloses. The scan looks further: for words on the whole
line, and for any first brace. -/

namespace PolicyBundle.Policy

/-- Whether no word reaches over this place. -/
def separates (c : Option Char) : Bool :=
  c.all fun c => !isIdentChar c

/-- A word stands in a text, and what follows it there. -/
structure StandsIn (word text after : List Char) : Prop where
  split : ∃ before, text = before ++ (word ++ after) ∧ separates before.getLast? = true
  ends : separates after.head? = true

/-- A text has a word. -/
def HasWord (word text : List Char) : Prop :=
  ∃ after, StandsIn word text after

/-- A text has a word with no parenthesis directly behind it. -/
def HasBareWord (word text : List Char) : Prop :=
  ∃ after, StandsIn word text after ∧ after.head? ≠ some '('

/-- Where the body of a rule begins on its line: at the first brace that no bracket encloses. -/
def bodyStart? (code : List Char) : Option Nat :=
  (List.range code.length).find? fun i =>
    code[i]? = some '\x7b' && bracketBalance false (code.take i) = 0

/-- The head of a rule: its line up to the body. -/
def headPart (code : List Char) : List Char :=
  code.take ((bodyStart? code).getD code.length)

/-- The head of a rule has a keyword of later versions. The word `contains` in front of a parenthesis
is a function. -/
def HeadHasKeyword (code : List Char) : Prop :=
  HasWord "if".toList (headPart code) ∨ HasBareWord "contains".toList (headPart code)

/-- A body follows a head with neither an `if` nor an equals sign. -/
def HeadLacksIf (code : List Char) : Prop :=
  (bodyStart? code).isSome = true ∧ ¬HasWord "if".toList (headPart code) ∧ '=' ∉ headPart code

/-- One of the keywords stands on the line. -/
def LineHasKeyword (code : List Char) : Prop :=
  ∃ keyword ∈ ["if", "contains"], HasWord keyword.toList code

/-- There is a brace on the line, and neither an `if` nor an equals sign in front of the first. -/
def BraceLacksIf (code : List Char) : Prop :=
  ∃ before after, code = before ++ '\x7b' :: after ∧ '\x7b' ∉ before ∧
    ¬HasWord "if".toList before ∧ '=' ∉ before

section Words

variable {word text rest after : List Char}

/-- A text in which a word ends is as good as one in which it goes on without it. -/
theorem HasWord.append (hWord : HasWord word text) (hRest : separates rest.head? = true) :
    HasWord word (text ++ rest) := by
  obtain ⟨after, ⟨before, rfl, hBefore⟩, hAfter⟩ := hWord
  refine ⟨after ++ rest, ⟨before, by simp, hBefore⟩, ?_⟩
  cases after with
  | nil => exact hRest
  | cons c after => exact hAfter

theorem HasBareWord.hasWord (h : HasBareWord word text) : HasWord word text := by
  obtain ⟨after, hStands, -⟩ := h
  exact ⟨after, hStands⟩

theorem splitOnP_append_separator {c : Char} (hSeparates : separates (some c) = true)
    (front rest : List Char) : ((front ++ c :: rest).splitOnP fun c => !isIdentChar c) =
      (front.splitOnP fun c => !isIdentChar c) ++ rest.splitOnP fun c => !isIdentChar c :=
  List.splitOnP_append_cons (p := fun c => !isIdentChar c) front rest hSeparates

theorem mem_splitOnP_of_word (hWord : ∀ c ∈ word, isIdentChar c = true)
    (hAfter : separates after.head? = true) :
    word ∈ (word ++ after).splitOnP fun c => !isIdentChar c := by
  have hNone : ∀ c ∈ word, (!isIdentChar c) = false := by
    intro c hc
    rw [hWord c hc]
    rfl
  cases after with
  | nil =>
      rw [List.append_nil, List.splitOnP_eq_singleton hNone]
      exact List.mem_singleton_self _
  | cons c after =>
      rw [splitOnP_append_separator hAfter, List.splitOnP_eq_singleton hNone]
      exact List.mem_append_left _ (List.mem_singleton_self _)

/-- The pieces between separators stand in a text as words do. -/
theorem hasWord_of_mem_splitOnP (h : word ∈ text.splitOnP fun c => !isIdentChar c) :
    HasWord word text := by
  induction hLength : text.length using Nat.strong_induction_on generalizing text with
  | h n ih =>
      have hText : text.takeWhile isIdentChar ++ text.dropWhile isIdentChar = text :=
        List.takeWhile_append_dropWhile
      have hFirst : ∀ c ∈ text.takeWhile isIdentChar, (!isIdentChar c) = false := by
        intro c hc
        rw [List.mem_takeWhile_imp hc]
        rfl
      cases hRest : text.dropWhile isIdentChar with
      | nil =>
          rw [hRest, List.append_nil] at hText
          rw [← hText, List.splitOnP_eq_singleton hFirst, List.mem_singleton, hText] at h
          exact ⟨[], ⟨[], by rw [h, List.append_nil, List.nil_append], rfl⟩, rfl⟩
      | cons c rest =>
          have hSeparates : separates (some c) = true := by
            have hHead := List.head?_dropWhile_not isIdentChar text
            rw [hRest] at hHead
            simpa [separates] using hHead
          rw [hRest] at hText
          rw [← hText, splitOnP_append_separator hSeparates, List.splitOnP_eq_singleton hFirst,
            List.mem_append, List.mem_singleton] at h
          rcases h with rfl | h
          · exact ⟨c :: rest, ⟨[], hText.symm, rfl⟩, hSeparates⟩
          · have hShorter : rest.length < n := by
              rw [← hLength, ← hText, List.length_append, List.length_cons]
              omega
            obtain ⟨after, ⟨before, hBefore, hBegins⟩, hEnds⟩ := ih _ hShorter h rfl
            refine ⟨after, ⟨text.takeWhile isIdentChar ++ c :: before, ?_, ?_⟩, hEnds⟩
            · rw [List.append_assoc, List.cons_append, ← hBefore, hText]
            · rw [List.getLast?_append, List.getLast?_cons]
              cases hLast : before.getLast? with
              | none => exact hSeparates
              | some d =>
                  rw [hLast] at hBegins
                  exact hBegins

/-- The words of a text are the identifiers in it that are no part of longer ones. -/
theorem mem_words_iff (hSome : word ≠ []) (hWord : word.all isIdentChar = true) :
    word ∈ words text ↔ HasWord word text := by
  rw [List.all_eq_true] at hWord
  rw [words, List.mem_filter]
  constructor
  · rintro ⟨hMem, -⟩
    exact hasWord_of_mem_splitOnP hMem
  · rintro ⟨after, ⟨before, rfl, hBefore⟩, hAfter⟩
    refine ⟨?_, by simpa using hSome⟩
    rcases List.eq_nil_or_concat before with rfl | ⟨before, c, rfl⟩
    · exact mem_splitOnP_of_word hWord hAfter
    · rw [List.concat_eq_append, List.getLast?_concat] at hBefore
      rw [List.concat_eq_append, List.append_assoc, List.singleton_append,
        splitOnP_append_separator hBefore]
      exact List.mem_append_right _ (mem_splitOnP_of_word hWord hAfter)

theorem mem_words_keyword_iff {keyword : String} (hKeyword : keyword ∈ ["if", "contains"]) :
    keyword.toList ∈ words text ↔ HasWord keyword.toList text := by
  rw [List.mem_cons, List.mem_singleton] at hKeyword
  rcases hKeyword with rfl | rfl
  · exact mem_words_iff (List.cons_ne_nil _ _) rfl
  · exact mem_words_iff (List.cons_ne_nil _ _) rfl

end Words

section Heads

variable {code : List Char} {imports : List Import} {dialect : Dialect}

/-- The head is the whole line, or a brace follows it. -/
theorem exists_headPart (code : List Char) : ∃ rest, code = headPart code ++ rest ∧
    separates rest.head? = true ∧
      ((bodyStart? code).isSome = true → ∃ after, rest = '\x7b' :: after) := by
  cases hBody : bodyStart? code with
  | none =>
      refine ⟨[], ?_, rfl, fun h => by cases h⟩
      rw [headPart, hBody, Option.getD_none, List.take_length, List.append_nil]
  | some i =>
      have hBrace := List.find?_some hBody
      rw [Bool.and_eq_true, decide_eq_true_eq] at hBrace
      obtain ⟨hInside, hHere⟩ := List.getElem?_eq_some_iff.mp hBrace.1
      have hRest : code.drop i = '\x7b' :: code.drop (i + 1) := by
        rw [List.drop_eq_getElem_cons hInside, hHere]
      refine ⟨code.drop i, ?_, ?_, fun _ => ⟨_, hRest⟩⟩
      · rw [headPart, hBody, Option.getD_some, List.take_append_drop]
      · rw [hRest]
        rfl

/-- What the head has the line has. -/
theorem HasWord.of_headPart {word : List Char} (h : HasWord word (headPart code)) :
    HasWord word code := by
  obtain ⟨rest, hCode, hRest, -⟩ := exists_headPart code
  rw [hCode]
  exact h.append hRest

theorem HeadHasKeyword.lineHasKeyword (h : HeadHasKeyword code) : LineHasKeyword code := by
  rcases h with hIf | hContains
  · exact ⟨"if", by simp, hIf.of_headPart⟩
  · exact ⟨"contains", by simp, hContains.hasWord.of_headPart⟩

/-- The first brace of a line stands at the end of the head or inside of it. -/
theorem HeadLacksIf.braceLacksIf (h : HeadLacksIf code) : BraceLacksIf code := by
  obtain ⟨hBody, hNoIf, hNoEquals⟩ := h
  obtain ⟨rest, hCode, -, hBrace⟩ := exists_headPart code
  obtain ⟨after, rfl⟩ := hBrace hBody
  have hHead : (headPart code).takeWhile (· ≠ '\x7b') ++ (headPart code).dropWhile (· ≠ '\x7b') =
      headPart code := List.takeWhile_append_dropWhile
  have hNone : '\x7b' ∉ (headPart code).takeWhile (· ≠ '\x7b') := by
    intro hMem
    simpa using List.mem_takeWhile_imp hMem
  have hMore : separates ((headPart code).dropWhile (· ≠ '\x7b')).head? = true ∧
      ∃ behind, (headPart code).dropWhile (· ≠ '\x7b') ++ '\x7b' :: after = '\x7b' :: behind := by
    cases hDrop : (headPart code).dropWhile (· ≠ '\x7b') with
    | nil => exact ⟨rfl, _, rfl⟩
    | cons c more =>
        have hFirst := List.head?_dropWhile_not (· ≠ '\x7b') (headPart code)
        rw [hDrop] at hFirst
        obtain rfl : c = '\x7b' := by simpa using hFirst
        exact ⟨rfl, _, rfl⟩
  obtain ⟨hSeparates, behind, hBehind⟩ := hMore
  refine ⟨(headPart code).takeWhile (· ≠ '\x7b'), behind, ?_, hNone, ?_, ?_⟩
  · rw [← hBehind, ← List.append_assoc, hHead]
    exact hCode
  · intro hIf
    apply hNoIf
    rw [← hHead]
    exact hIf.append hSeparates
  · intro hEquals
    exact hNoEquals ((List.takeWhile_prefix _).mem hEquals)

theorem isSome_ruleFault?_of_v1 (hV1 : appliesV1 dialect imports = true) :
    (ruleFault? dialect imports code).isSome = true ↔ BraceLacksIf code := by
  have hIf (before : List Char) : (words before).contains "if".toList = true ↔
      HasWord "if".toList before := by
    rw [List.contains_iff_mem]
    exact mem_words_keyword_iff List.mem_cons_self
  rw [ruleFault?, if_pos hV1]
  constructor
  · intro hFault
    cases hCut : Text.cutFirst? '\x7b' code with
    | none =>
        rw [hCut] at hFault
        cases hFault
    | some cut =>
        obtain ⟨before, after⟩ := cut
        obtain ⟨hCode, hNone⟩ := Text.cutFirst?_eq_some_iff.mp hCut
        simp only [hCut] at hFault
        split at hFault
        · cases hFault
        · rename_i hLacks
          rw [Bool.or_eq_true, not_or, hIf, List.contains_iff_mem] at hLacks
          exact ⟨before, after, hCode, hNone, hLacks⟩
  · rintro ⟨before, after, hCode, hNone, hLacks⟩
    have hCut := Text.cutFirst?_eq_some_iff.mpr ⟨hCode, hNone⟩
    rw [← hIf, ← List.contains_iff_mem (a := '='), ← not_or, ← Bool.or_eq_true] at hLacks
    simp only [hCut]
    rw [if_neg hLacks]
    rfl

theorem isSome_ruleFault?_of_v0 (hV0 : appliesV1 dialect imports = false) :
    (ruleFault? dialect imports code).isSome = true ↔ ∃ keyword ∈ ["if", "contains"],
      HasWord keyword.toList code ∧ keywordImported imports keyword = false := by
  rw [ruleFault?, hV0, if_neg Bool.false_ne_true, Option.isSome_map, List.find?_isSome]
  refine exists_congr fun keyword => and_congr_right fun hKeyword => ?_
  rw [Bool.and_eq_true, List.contains_iff_mem, Bool.not_eq_true',
    mem_words_keyword_iff hKeyword]

end Heads

/-- The scan of some lines comes to a line on which it finds the head of a rule. -/
structure ComesToHead (dialect : Dialect) (lines before : List Line) (s : Scan) (line : Line) : Prop
    extends ComesTo dialect lines before s line where
  code : s.readsCode line = true
  head : (s.headOf line).isSome = true

/-- A source is no module because of a line. -/
def Refused (path source : String) (dialect : Dialect) (line : Line) : Prop :=
  ∃ fault, Module.parse path source dialect = .error ⟨path, line.number, fault⟩

section Refusals

variable {path source : String} {dialect : Dialect} {before : List Line} {s : Scan} {line : Line}

theorem Module.parse_of_ofSource_eq_error {e : ParseError}
    (h : Scan.ofSource path dialect source.toList = .error e) :
    Module.parse path source dialect = .error e := by
  rw [Module.parse, h]
  rfl

/-- Behind its first lines a source is scanned as the others are. -/
theorem Scan.ofSource_eq_of_split (path : String) {after : List Line}
    (hSplit : Line.ofSource source.toList = before ++ line :: after)
    (hReads : Scan.ReadsAll dialect .empty before s) :
    Scan.ofSource path dialect source.toList =
      s.addLine path dialect line >>= after.foldlM (Scan.addLine path dialect) := by
  have hFront : before.foldlM (Scan.addLine path dialect) .empty = .ok s :=
    (Scan.foldlM_addLine_eq_ok_iff path).mpr hReads
  rw [Scan.ofSource, hSplit, List.foldlM_append, hFront, ← List.foldlM_cons]
  rfl

/-- A line that cannot be read is what a source is refused for. -/
theorem refused_of_addLine {fault : Fault}
    (hComes : ComesTo dialect (Line.ofSource source.toList) before s line)
    (hFault : s.addLine path dialect line = .error ⟨path, line.number, fault⟩) :
    Refused path source dialect line := by
  obtain ⟨after, hSplit⟩ := hComes.split
  have hRun := Scan.ofSource_eq_of_split path hSplit hComes.scan
  rw [hFault] at hRun
  exact ⟨fault, Module.parse_of_ofSource_eq_error hRun⟩

/-- A line that is read behind the package line is not what a source is refused for. -/
theorem not_refused_of_reads {t : Scan}
    (hComes : ComesTo dialect (Line.ofSource source.toList) before s line)
    (hReads : Scan.Reads dialect s line t) (hPackage : t.package.isSome = true) :
    ¬Refused path source dialect line := by
  rintro ⟨fault, hParse⟩
  obtain ⟨after, hSplit⟩ := hComes.split
  have hRun := Scan.ofSource_eq_of_split path hSplit hComes.scan
  rw [(Scan.addLine_eq_ok_iff path).mpr hReads] at hRun
  cases hRest : after.foldlM (Scan.addLine path dialect) t with
  | error e =>
      -- The error is one of a line below.
      obtain ⟨l, hl, hNumber⟩ := Scan.exists_line_of_foldlM_error hRest
      have hOrder := Line.pairwise_ofSource source.toList
      rw [hSplit, List.pairwise_append, List.pairwise_cons] at hOrder
      have hBelow := hOrder.2.1.1 l hl
      rw [Module.parse_of_ofSource_eq_error (hRun.trans hRest)] at hParse
      cases hParse
      exact absurd hNumber (Nat.ne_of_lt hBelow)
  | ok u =>
      have hDeclared : u.package = t.package :=
        ((Scan.foldlM_addLine_eq_ok_iff path).mp hRest).package_eq hPackage
      obtain ⟨name, hName⟩ := Option.isSome_iff_exists.mp hPackage
      rw [Module.parse, hRun.trans hRest] at hParse
      simp only [bind, Except.bind, hDeclared, hName] at hParse
      cases hParse

/-- A line with the head of a rule is refused for the fault of the rule and for nothing else. -/
theorem refused_iff
    (hComes : ComesToHead dialect (Line.ofSource source.toList) before s line) :
    Refused path source dialect line ↔
      (ruleFault? dialect s.imports line.code).isSome = true := by
  have hHeadFault : s.headFault? dialect line = ruleFault? dialect s.imports line.code := by
    rw [Scan.headFault?, hComes.head, if_pos rfl]
  have hCode := hComes.code
  rw [Scan.readsCode, Bool.and_eq_true, Bool.and_eq_true, Bool.not_eq_true'] at hCode
  obtain ⟨⟨hInk, hPackage⟩, hNoImport⟩ := hCode
  cases hFault : ruleFault? dialect s.imports line.code with
  | some fault =>
      have hHere : s.addLine path dialect line = .error ⟨path, line.number, fault⟩ := by
        have hSame : Scan.headFault? dialect { s with inMetadata := false } line = some fault :=
          hHeadFault.trans hFault
        rw [Scan.addLine_of_behind hInk hPackage,
          Scan.addCode_of_code (s := { s with inMetadata := false }) hNoImport, hSame]
        rfl
      exact iff_of_true (refused_of_addLine hComes.toComesTo hHere) rfl
  | none =>
      have hRead := Scan.Reads.code hInk hPackage hNoImport (hHeadFault.trans hFault)
      exact iff_of_false (not_refused_of_reads hComes.toComesTo hRead (by simpa using hPackage))
        Bool.false_ne_true

end Refusals

/-- None of the keywords is imported. -/
def NoKeywordImported (imports : List Import) : Prop :=
  ∀ keyword ∈ ["if", "contains"], keywordImported imports keyword = false

/-- Rules are refused for what their heads say: in version 0 for a keyword in the head, when none is
imported, and in version 1 for a body behind a head that does not announce it. -/
def HeadsJudgedAlone (path source : String) (dialect : Dialect) : Prop :=
  ∀ before s line, ComesToHead dialect (Line.ofSource source.toList) before s line →
    (appliesV1 dialect s.imports = true →
      (Refused path source dialect line ↔ HeadLacksIf line.code)) ∧
    (appliesV1 dialect s.imports = false → NoKeywordImported s.imports →
      (Refused path source dialect line ↔ HeadHasKeyword line.code))

/-- In version 1 a rule is refused for the first brace on its line, enclosed or not, and in version 0
for a keyword anywhere on its line that is not imported. That refuses all that the heads alone would.
So rules are refused for their heads alone exactly in sources where no rule has such a brace or such
a keyword on its line unless its head would be refused. -/
theorem headsJudgedAlone_iff (path source : String) (dialect : Dialect) :
    (∀ before s line, ComesToHead dialect (Line.ofSource source.toList) before s line →
      (appliesV1 dialect s.imports = true →
        (Refused path source dialect line ↔ BraceLacksIf line.code)) ∧
      (appliesV1 dialect s.imports = false →
        (Refused path source dialect line ↔ ∃ keyword ∈ ["if", "contains"],
          HasWord keyword.toList line.code ∧ keywordImported s.imports keyword = false))) ∧
    (∀ code, (HeadLacksIf code → BraceLacksIf code) ∧ (HeadHasKeyword code → LineHasKeyword code)) ∧
    (HeadsJudgedAlone path source dialect ↔
      ∀ before s line, ComesToHead dialect (Line.ofSource source.toList) before s line →
        (appliesV1 dialect s.imports = true → BraceLacksIf line.code → HeadLacksIf line.code) ∧
        (appliesV1 dialect s.imports = false → NoKeywordImported s.imports →
          LineHasKeyword line.code → HeadHasKeyword line.code)) := by
  refine ⟨?_, fun code => ⟨HeadLacksIf.braceLacksIf, HeadHasKeyword.lineHasKeyword⟩, ?_⟩
  · intro before s line hComes
    rw [refused_iff hComes]
    exact ⟨isSome_ruleFault?_of_v1, isSome_ruleFault?_of_v0⟩
  · refine forall₃_congr fun before s line => forall_congr' fun hComes => ?_
    rw [refused_iff hComes]
    refine and_congr ?_ ?_
    · refine forall_congr' fun hV1 => ?_
      rw [isSome_ruleFault?_of_v1 hV1]
      exact ⟨Iff.mp, fun h => ⟨h, HeadLacksIf.braceLacksIf⟩⟩
    · refine forall₂_congr fun hV0 hNone => ?_
      have hFault : (ruleFault? dialect s.imports line.code).isSome = true ↔
          LineHasKeyword line.code := by
        rw [isSome_ruleFault?_of_v0 hV0]
        refine exists_congr fun keyword => and_congr_right fun hKeyword => ?_
        simp [hNone keyword hKeyword]
      rw [hFault]
      exact ⟨Iff.mp, fun h => ⟨h, HeadHasKeyword.lineHasKeyword⟩⟩

/-- An object among the arguments of a function, whose body is announced behind it. -/
def objectArgument : String :=
  "package p\nf(\x7b\"a\": x\x7d) if x\n"

/-- A call of the function `contains` in the body of a rule. -/
def callOfContains : String :=
  "package p\nallow \x7b contains(input.x, \"a\") \x7d\n"

/-- The lines of both rules have what a head may not have, in a place that is none of their heads. -/
theorem not_headsJudgedAlone :
    ¬HeadsJudgedAlone "policy.rego" objectArgument .v1 ∧
      ¬HeadsJudgedAlone "policy.rego" callOfContains .v0 := by
  let s : Scan := { Scan.empty with package := some "p" }
  constructor
  · intro hHeads
    let line : Line := ⟨2, "f(\x7b\"a\": x\x7d) if x".toList, "f(\x7b\"\": x\x7d) if x".toList, false⟩
    let before := (Line.ofSource objectArgument.toList).take 1
    have hReads : Scan.ReadsAll .v1 .empty before s :=
      (Scan.foldlM_addLine_eq_ok_iff "policy.rego").mp rfl
    have hComes : ComesToHead .v1 (Line.ofSource objectArgument.toList) before s line :=
      ⟨⟨⟨[], rfl⟩, hReads⟩, by decide, by decide⟩
    have hLacks := ((hHeads before s line hComes).1 rfl).mp ⟨.ifRequired, rfl⟩
    have hNoBody : bodyStart? line.code = none := by decide
    rw [HeadLacksIf, hNoBody] at hLacks
    cases hLacks.1
  · intro hHeads
    let line : Line := ⟨2, "allow \x7b contains(input.x, \"a\") \x7d".toList,
      "allow \x7b contains(input.x, \"\") \x7d".toList, false⟩
    let before := (Line.ofSource callOfContains.toList).take 1
    have hReads : Scan.ReadsAll .v0 .empty before s :=
      (Scan.foldlM_addLine_eq_ok_iff "policy.rego").mp rfl
    have hComes : ComesToHead .v0 (Line.ofSource callOfContains.toList) before s line :=
      ⟨⟨⟨[], rfl⟩, hReads⟩, by decide, by decide⟩
    have hKeyword := ((hHeads before s line hComes).2 rfl fun _ _ => rfl).mp
      ⟨.keywordNotImported "contains", rfl⟩
    have hWords : words (headPart line.code) = ["allow".toList] := by decide
    have hNoWord : ∀ keyword ∈ ["if", "contains"],
        ¬HasWord keyword.toList (headPart line.code) := by
      intro keyword hMem
      rw [← mem_words_keyword_iff hMem, hWords, List.mem_singleton, String.toList_inj]
      rintro rfl
      simp at hMem
    rcases hKeyword with hIf | hContains
    · exact hNoWord "if" (by simp) hIf
    · exact hNoWord "contains" (by simp) hContains.hasWord

end PolicyBundle.Policy
