import PolicyBundle.Proofs.Policy.Calls
import PolicyBundle.Proofs.Policy.Returns
import Mathlib.Logic.Relation

/-! What a scan does not see: the contents of strings, and comments on lines that have code. A change
at one such place changes the text of one line, but neither the code that is left of the line nor how
the next line begins. -/

namespace PolicyBundle.Policy

/-- How a line is read from its first character on. -/
def Mode.first (inString : Bool) : Mode :=
  if inString then .raw else .code

/-- How a source is read behind one more character; none in a comment. A line feed ends comments and
strings, but for raw strings. -/
def Mode.readOn (mode : Option Mode) (c : Char) : Option Mode :=
  if c = '\n' then some (Mode.first (mode = some .raw)) else mode.bind (·.next c)

/-- How a source is read behind the text at its beginning; none if that ends in a comment. -/
def readBehind (text : List Char) : Option Mode :=
  text.foldl Mode.readOn (some .code)

/-- Whether a character stands for nothing but itself, in a string of either kind. -/
def isPlain (c : Char) : Bool :=
  c ≠ '\n' && c ≠ '"' && c ≠ '`' && c ≠ '\\'

/-- A source is changed at one place, where nothing but a string or a comment is. -/
inductive Rewords : List Char → List Char → Prop where
  /-- A character of a string is replaced. -/
  | content {before after : List Char} {mode : Mode} {old new : Char}
      (hMode : readBehind before = some mode) (hString : mode ≠ .code)
      (hOld : isPlain old = true) (hNew : isPlain new = true) :
      Rewords (before ++ old :: after) (before ++ new :: after)
  /-- The text of a comment is replaced that has code in front of it on its line. -/
  | comment {before front old new after : List Char}
      (hMode : readBehind (before ++ front) = some .code)
      (hLine : '\n' ∉ front) (hCode : Text.blank front = false)
      (hOld : '\n' ∉ old) (hNew : '\n' ∉ new) :
      Rewords (before ++ front ++ '#' :: (old ++ after)) (before ++ front ++ '#' :: (new ++ after))

section Stripping

variable {mode next : Mode} {front first second : List Char}

theorem Mode.behind_cons (mode : Mode) (c : Char) (rest : List Char) :
    mode.behind (c :: rest) = (mode.next c).bind (·.behind rest) := rfl

/-- Only a number sign in code begins a comment. -/
theorem next_eq_none {c : Char} (h : mode.next c = none) : mode = .code ∧ c = '#' := by
  cases mode with
  | code =>
      rw [Mode.next] at h
      split_ifs at h with hHash
      exact ⟨rfl, hHash⟩
  | string =>
      rw [Mode.next] at h
      split_ifs at h
  | escape => cases h
  | raw =>
      rw [Mode.next] at h
      split_ifs at h

/-- A line ends inside a string that goes on if it is read so behind its last character. -/
theorem strip_leaves (mode : Mode) (text : List Char) :
    (strip mode text).2 = decide (mode.behind text = some .raw) := by
  induction text generalizing mode with
  | nil => cases mode <;> rfl
  | cons c rest ih =>
      rw [Mode.behind_cons]
      cases hNext : mode.next c with
      | some next =>
          rw [strip_cons_leaves hNext, ih]
          rfl
      | none =>
          obtain ⟨rfl, rfl⟩ := next_eq_none hNext
          rfl

theorem strip_congr (hFront : mode.behind front = some next)
    (hSame : strip next first = strip next second) :
    strip mode (front ++ first) = strip mode (front ++ second) := by
  induction front generalizing mode with
  | nil =>
      cases hFront
      exact hSame
  | cons c front ih =>
      obtain ⟨middle, hNext, hBehind⟩ := behind_cons_eq_some hFront
      rw [List.cons_append, List.cons_append]
      rw [strip_eq_of_next hNext, strip_eq_of_next hNext, ih hBehind]

/-- In a string, all plain characters are read the same, and as nothing. -/
theorem exists_strip_plain (hString : mode ≠ .code) : ∃ next : Mode,
    strip mode [] = strip next [] ∧
      ∀ c, isPlain c = true → ∀ rest, strip mode (c :: rest) = strip next rest := by
  have hOther {c : Char} (hPlain : isPlain c = true) : c ≠ '"' ∧ c ≠ '`' ∧ c ≠ '\\' := by
    simp only [isPlain, Bool.and_eq_true, decide_eq_true_eq] at hPlain
    exact ⟨hPlain.1.1.2, hPlain.1.2, hPlain.2⟩
  cases mode with
  | code => exact absurd rfl hString
  | string =>
      refine ⟨.string, rfl, ?_⟩
      intro c hPlain rest
      obtain ⟨hDouble, _, hSlash⟩ := hOther hPlain
      rw [strip, if_neg hSlash, if_neg hDouble]
  | escape => exact ⟨.string, rfl, fun _ _ _ => rfl⟩
  | raw =>
      refine ⟨.raw, rfl, ?_⟩
      intro c hPlain rest
      rw [strip, if_neg (hOther hPlain).2.1]

theorem strip_content {old new : Char} {rest kept other : List Char} (hString : mode ≠ .code)
    (hOld : isPlain old = true) (hNew : isPlain new = true)
    (hKept : Text.EndsAs [old] rest kept) (hOther : Text.EndsAs [new] rest other) :
    strip mode kept = strip mode other := by
  obtain ⟨next, hNil, hCons⟩ := exists_strip_plain hString
  have hEnd {c : Char} {text : List Char} (hPlain : isPlain c = true)
      (hText : Text.EndsAs [c] rest text) : strip mode text = strip next rest := by
    rcases hText with rfl | ⟨rfl, hReturn⟩
    · exact hCons c hPlain rest
    · have hNone : text = [] := by simpa using (congrArg List.dropLast hReturn).symm
      rw [hNone]
      exact hNil
  rw [hEnd hOld hKept, hEnd hNew hOther]

theorem strip_comment {text rest kept : List Char} (hKept : Text.EndsAs ('#' :: text) rest kept) :
    strip .code kept = ([], false) := by
  rcases hKept with rfl | ⟨_, hReturn⟩
  · rfl
  · cases kept with
    | nil => simp at hReturn
    | cons c kept =>
        rw [List.cons_append, List.cons.injEq] at hReturn
        rw [← hReturn.1]
        rfl

theorem next_of_isBlank {c : Char} (hBlank : Text.isBlank c = true) :
    Mode.code.next c = some .code := by
  have hOther (d : Char) (hInk : Text.isBlank d = false) : c ≠ d := by
    intro hSame
    rw [hSame, hInk] at hBlank
    cases hBlank
  rw [Mode.next, if_neg (hOther _ (by decide)), if_neg (hOther _ (by decide)),
    if_neg (hOther _ (by decide))]

theorem behind_of_blank (hBlank : Text.blank front = true) :
    Mode.code.behind front = some .code := by
  induction front with
  | nil => rfl
  | cons c front ih =>
      rw [Text.blank, List.all_cons, Bool.and_eq_true] at hBlank
      rw [Mode.behind_cons, next_of_isBlank hBlank.1]
      exact ih hBlank.2

/-- The first character of a line that is no blank is code, if no comment begins there. -/
theorem blank_strip (hFront : Mode.code.behind front = some mode)
    (hInk : Text.blank front = false) (rest : List Char) :
    Text.blank (strip .code (front ++ rest)).1 = false := by
  induction front with
  | nil => cases hInk
  | cons c front ih =>
      obtain ⟨next, hNext, hBehind⟩ := behind_cons_eq_some hFront
      rw [List.cons_append, strip_cons hNext]
      simp only [decide_true, Bool.true_or, if_true]
      cases hHere : Text.isBlank c with
      | false => rw [Text.blank, List.all_cons, hHere, Bool.false_and]
      | true =>
          obtain rfl : .code = next :=
            Option.some.inj ((next_of_isBlank hHere).symm.trans hNext)
          rw [Text.blank, List.all_cons, hHere, Bool.true_and] at hInk ⊢
          exact ih hBehind hInk

end Stripping

section Sources

variable {parts : List (List Char)} {front : List Char}

theorem foldl_readOn (hFront : '\n' ∉ front) (mode : Option Mode) :
    front.foldl Mode.readOn mode = mode.bind (·.behind front) := by
  induction front generalizing mode with
  | nil => cases mode <;> rfl
  | cons c front ih =>
      have hFirst : c ≠ '\n' := fun h => hFront (h ▸ List.mem_cons_self)
      have hRest : '\n' ∉ front := fun h => hFront (List.mem_cons_of_mem _ h)
      rw [List.foldl_cons, ih hRest, Mode.readOn, if_neg hFirst, Option.bind_assoc]
      rfl

/-- Behind a line feed a source is read as the line there begins. -/
theorem foldl_readOn_lines (hParts : ∀ p ∈ parts, '\n' ∉ p) (inString : Bool) :
    (parts.flatMap fun p => p ++ ['\n']).foldl Mode.readOn (some (Mode.first inString)) =
      some (Mode.first (Line.endsInString inString (parts.map Text.dropReturn))) := by
  induction parts generalizing inString with
  | nil => rfl
  | cons p parts ih =>
      obtain ⟨hHere, hLater⟩ := List.forall_mem_cons.mp hParts
      -- A return in front of the feed is no part of the line, and no quote.
      have hReturn : (strip (Mode.first inString) (Text.dropReturn p)).2 =
          (strip (Mode.first inString) p).2 := by
        rcases Text.eq_dropReturn_or p with hSame | hSame
        · rw [← hSame]
        · obtain ⟨tail, _, hStrip⟩ := strip_concat_return (Mode.first inString) (Text.dropReturn p)
          rw [← hSame] at hStrip
          rw [hStrip]
      rw [List.flatMap_cons, List.foldl_append, List.foldl_append, foldl_readOn hHere,
        List.foldl_cons, List.foldl_nil, Mode.readOn, if_pos rfl, ih hLater, List.map_cons,
        Line.endsInString_cons 0, Option.bind_some]
      rw [← strip_leaves, ← hReturn]
      rfl

/-- A place in a source is a place on a line, which is read so from its first character on. -/
theorem exists_line {before more : List Char} {mode : Mode} (hMore : '\n' ∉ more)
    (hMode : readBehind (before ++ more) = some mode) :
    ∃ (parts : List (List Char)) (front : List Char),
      before = (parts.flatMap fun p => p ++ ['\n']) ++ front ∧ (∀ p ∈ parts, '\n' ∉ p) ∧
        '\n' ∉ front ∧
        (Mode.first (Line.endsInString false (parts.map Text.dropReturn))).behind (front ++ more) =
          some mode := by
  obtain ⟨parts, front, hBefore, hParts, hFront⟩ := Text.exists_parts before
  have hBehind : '\n' ∉ front ++ more := by
    simp [hFront, hMore]
  refine ⟨parts, front, hBefore, hParts, hFront, ?_⟩
  rw [hBefore, readBehind, List.append_assoc, List.foldl_append] at hMode
  have hLines := foldl_readOn_lines hParts false
  rw [show Mode.first false = .code from rfl] at hLines
  rw [hLines, foldl_readOn hBehind] at hMode
  exact hMode

theorem Line.single_eq (number : Nat) (inString : Bool) (text : List Char) :
    Line.single number inString text =
      ⟨number, text, (strip (Mode.first inString) text).1, inString⟩ := rfl

/-- A scan reads the text of a line only if nothing of it is code and it begins outside strings. -/
theorem Scan.addLine_text (file : String) (dialect : Dialect) (s : Scan) (line : Line)
    (text : List Char) (hSeen : line.inString = true ∨ line.hasCode = true) :
    s.addLine file dialect { line with text := text } = s.addLine file dialect line := by
  cases hCode : line.hasCode with
  | false =>
      have hString : line.inString = true := hSeen.resolve_right (by rw [hCode]; simp)
      have hOther : Line.hasCode { line with text := text } = false := hCode
      have hInside : Line.inString { line with text := text } = true := hString
      rw [addLine_of_blank hCode, addLine_of_blank hOther, passOver_of_inString hString,
        passOver_of_inString hInside]
  | true =>
      rw [Line.hasCode, Bool.not_eq_true'] at hCode
      have hInk : ¬Text.blank line.code = true := by
        rw [hCode]
        exact Bool.false_ne_true
      rw [addLine, addLine, if_neg hInk, if_neg hInk]
      rfl

/-- Two texts of a line, one in the place of the other, of which the same code is left. -/
theorem Scan.foldlM_change (file : String) (dialect : Dialect) {above below : List (List Char)}
    {first second : List Char}
    (hSame : strip (Mode.first (Line.endsInString false above)) first =
      strip (Mode.first (Line.endsInString false above)) second)
    (hSeen : Line.endsInString false above = true ∨
      Text.blank (strip (Mode.first (Line.endsInString false above)) first).1 = false) :
    (Line.numbered 1 false (above ++ second :: below)).foldlM (Scan.addLine file dialect) .empty =
      (Line.numbered 1 false (above ++ first :: below)).foldlM (Scan.addLine file dialect)
        .empty := by
  generalize hString : Line.endsInString false above = inString at hSame hSeen
  have hLine (number : Nat) : Line.single number inString second =
      { Line.single number inString first with text := second } := by
    rw [Line.single_eq, ← hSame]
    rfl
  have hLeaves (number : Nat) : (Line.single number inString second).leavesString =
      (Line.single number inString first).leavesString :=
    congrArg Prod.snd hSame.symm
  rw [Line.numbered_append, Line.numbered_append, Line.numbered_cons, Line.numbered_cons, hString,
    hLeaves, List.foldlM_append, List.foldlM_append]
  congr 1
  funext s
  rw [List.foldlM_cons, List.foldlM_cons, hLine, Scan.addLine_text]
  apply hSeen.imp_right
  intro hBlank
  rw [Line.hasCode, Line.single_eq, hBlank]
  rfl

/-- One change at a place that is read as a string, or on a line that has code before it. -/
theorem Scan.ofSource_change (file : String) (dialect : Dialect)
    {before more old new : List Char} {mode : Mode} (after : List Char) (hMore : '\n' ∉ more)
    (hMode : readBehind (before ++ more) = some mode)
    (hSeen : mode ≠ .code ∨ Text.blank more = false)
    (hOld : old ≠ [] ∧ '\n' ∉ old) (hNew : new ≠ [] ∧ '\n' ∉ new)
    (hSame : ∀ {rest kept other : List Char}, Text.EndsAs old rest kept →
      Text.EndsAs new rest other → strip mode kept = strip mode other) :
    Scan.ofSource file dialect (before ++ more ++ (new ++ after)) =
      Scan.ofSource file dialect (before ++ more ++ (old ++ after)) := by
  obtain ⟨parts, front, rfl, hParts, hFront, hBehind⟩ := exists_line hMore hMode
  obtain ⟨rest, below, hLines⟩ := Text.exists_lines_behind after
  have hPlace : '\n' ∉ front ++ more := by
    simp [hFront, hMore]
  obtain ⟨kept, hKept, hFirst⟩ := hLines (front ++ more) old hOld.1 hPlace hOld.2
  obtain ⟨other, hOther, hSecond⟩ := hLines (front ++ more) new hNew.1 hPlace hNew.2
  have hSource {text line : List Char}
      (h : Text.lines (front ++ more ++ (text ++ after)) = (front ++ more ++ line) :: below) :
      Line.ofSource ((parts.flatMap fun p => p ++ ['\n']) ++ front ++ more ++ (text ++ after)) =
        Line.numbered 1 false
          (parts.map Text.dropReturn ++ (front ++ more ++ line) :: below) := by
    rw [Line.ofSource, ← h, ← Text.lines_flatMap_append hParts]
    simp only [List.append_assoc]
  rw [Scan.ofSource, Scan.ofSource, hSource hFirst, hSource hSecond]
  apply Scan.foldlM_change
  · exact strip_congr hBehind (hSame hKept hOther)
  · cases hString : Line.endsInString false (parts.map Text.dropReturn) with
    | true => exact Or.inl rfl
    | false =>
        right
        rw [hString] at hBehind
        apply blank_strip hBehind
        rw [Bool.eq_false_iff]
        intro hBlank
        rcases hSeen with hInside | hInk
        · -- A front of blanks would end in code.
          rw [show Mode.first false = .code from rfl, behind_of_blank hBlank] at hBehind
          exact hInside (Option.some.inj hBehind).symm
        · rw [Text.blank, List.all_append, Bool.and_eq_true] at hBlank
          rw [Text.blank, hBlank.2] at hInk
          cases hInk

theorem Rewords.ofSource_eq {first second : List Char} (h : Rewords first second)
    (file : String) (dialect : Dialect) :
    Scan.ofSource file dialect second = Scan.ofSource file dialect first := by
  cases h with
  | @content before after mode old new hMode hString hOld hNew =>
      have hFeed {c : Char} (hPlain : isPlain c = true) : '\n' ∉ [c] := by
        rw [List.mem_singleton]
        rintro rfl
        cases hPlain
      have hPlace : readBehind (before ++ []) = some mode := by
        rw [List.append_nil]
        exact hMode
      have hChange := Scan.ofSource_change file dialect after List.not_mem_nil hPlace
        (Or.inl hString) ⟨List.cons_ne_nil old [], hFeed hOld⟩ ⟨List.cons_ne_nil new [], hFeed hNew⟩
        (strip_content hString hOld hNew)
      simpa only [List.append_nil, List.singleton_append] using hChange
  | @comment before front old new after hMode hLine hCode hOld hNew =>
      have hFeed {text : List Char} (hText : '\n' ∉ text) : '\n' ∉ '#' :: text := by
        simpa using hText
      exact Scan.ofSource_change file dialect after hLine hMode (Or.inr hCode)
        ⟨List.cons_ne_nil '#' old, hFeed hOld⟩ ⟨List.cons_ne_nil '#' new, hFeed hNew⟩
        fun hKept hOther => (strip_comment hKept).trans (strip_comment hOther).symm

/-- Any number of changes, one after the other, leave the scan as it is. -/
theorem ofSource_eq_of_rewords {first second : List Char}
    (h : Relation.ReflTransGen Rewords first second) (file : String) (dialect : Dialect) :
    Scan.ofSource file dialect second = Scan.ofSource file dialect first := by
  induction h with
  | refl => rfl
  | tail _ hStep ih => exact (hStep.ofSource_eq file dialect).trans ih

/-- What stands in strings, and in comments behind code, is not seen. Sources that differ only there
are no modules for the same fault, or they are the same module but for the source kept with it. -/
theorem parse_eq_of_rewords {first second : String}
    (h : Relation.ReflTransGen Rewords first.toList second.toList) (path : String)
    (dialect : Dialect) :
    Module.parse path second dialect =
      (Module.parse path first dialect).map fun m => { m with source := second } := by
  rw [Module.parse, Module.parse, ofSource_eq_of_rewords h]
  cases Scan.ofSource path dialect first.toList with
  | error e => rfl
  | ok s => cases hPackage : s.package <;> simp [bind, Except.bind, Except.map, hPackage]

/-- A module with a text of two lines and a comment behind the text. -/
def versesSource : String :=
  "package p\nx := `a\nb` # c\n"

/-- The same module with a bracket in its text and another comment. -/
def rewordedSource : String :=
  "package p\nx := `a\n(` # \x7b x(\n"

theorem parse_eq_of_rewords_verses :
    Relation.ReflTransGen Rewords versesSource.toList rewordedSource.toList ∧
      Module.parse "p.rego" rewordedSource .v1 =
        (Module.parse "p.rego" versesSource .v1).map fun m =>
          { m with source := rewordedSource } := by
  have hText : Rewords ("package p\nx := `a\n".toList ++ 'b' :: "` # c\n".toList)
      ("package p\nx := `a\n".toList ++ '(' :: "` # c\n".toList) := by
    have hMode : readBehind "package p\nx := `a\n".toList = some .raw := by decide +kernel
    exact .content hMode (by decide) (by decide) (by decide)
  have hComment : Rewords
      ("package p\nx := `a\n".toList ++ "(` ".toList ++ '#' :: (" c".toList ++ "\n".toList))
      ("package p\nx := `a\n".toList ++ "(` ".toList ++
        '#' :: (" \x7b x(".toList ++ "\n".toList)) := by
    apply Rewords.comment <;> decide +kernel
  have hAll : Relation.ReflTransGen Rewords versesSource.toList rewordedSource.toList :=
    (Relation.ReflTransGen.single hText).tail hComment
  exact ⟨hAll, parse_eq_of_rewords hAll "p.rego" .v1⟩

end Sources

end PolicyBundle.Policy
