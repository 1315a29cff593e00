import PolicyBundle.Proofs.Policy.ErasureHarm
import PolicyBundle.Proofs.Text.Pieces

/-! The calls that a reader of a source sees, and that the scanner records them. A call is a dotted
name directly in front of a parenthesis. Where its line is code is told character by character; the
scanner instead looks for names in what is left of the line. -/

namespace PolicyBundle.Policy

/-- How a line is read behind one more character; none in a comment. -/
def Mode.next : Mode → Char → Option Mode
  | .code, c =>
    if c = '#' then none
    else if c = '"' then some .string
    else if c = '`' then some .raw
    else some .code
  | .string, c =>
    if c = '\\' then some .escape
    else if c = '"' then some .code
    else some .string
  | .escape, _ => some .string
  | .raw, c => if c = '`' then some .code else some .raw

/-- How a line is read behind a text; none if a comment begins in the text. -/
def Mode.behind (mode : Mode) (text : List Char) : Option Mode :=
  text.foldlM Mode.next mode

/-- Whether a text is a dotted name: identifiers with dots between them. -/
def IsDottedName (name : List Char) : Prop :=
  ∀ segment ∈ name.splitOn '.', ∃ c rest, segment = c :: rest ∧ isIdentStart c = true ∧
    ∀ d ∈ rest, isIdentChar d = true

/-- Whether a text is an identifier. -/
def isIdentifier : List Char → Bool
  | [] => false
  | c :: rest => isIdentStart c && rest.all isIdentChar

theorem isDottedName_iff (name : List Char) :
    IsDottedName name ↔ ∀ segment ∈ name.splitOn '.', isIdentifier segment = true := by
  refine forall₂_congr fun segment _ => ?_
  cases segment with
  | nil => simp [isIdentifier]
  | cons c rest => simp [isIdentifier, and_assoc]

instance (name : List Char) : Decidable (IsDottedName name) :=
  decidable_of_iff _ (isDottedName_iff name).symm

/-- Whether a text goes on with the dotted name that stands before it. -/
def continuesName : List Char → Bool
  | [] => false
  | c :: rest => isIdentChar c || (c = '.' && rest.head?.any isIdentStart)

/-- A dotted name on a line: outside strings and comments, and neither going on with what stands
before it nor gone on with by what follows. -/
structure NamedAt (line : Line) (before name : List Char) : Prop where
  split : ∃ after, line.text = before ++ (name ++ after) ∧ continuesName after = false
  outside : line.mode.behind before = some .code
  begins : endsName before.getLast? = true
  dotted : IsDottedName name

/-- A call on a line: outside strings and comments, directly in front of a parenthesis, stands a
dotted name that does not continue what stands before it. -/
structure CallsAt (line : Line) (before name : List Char) : Prop where
  split : ∃ after, line.text = before ++ (name ++ '(' :: after)
  outside : line.mode.behind before = some .code
  begins : endsName before.getLast? = true
  dotted : IsDottedName name

theorem CallsAt.namedAt {line : Line} {before name : List Char} (h : CallsAt line before name) :
    NamedAt line before name := by
  obtain ⟨after, hText⟩ := h.split
  exact ⟨⟨_, hText, rfl⟩, h.outside, h.begins, h.dotted⟩

/-- Whether a name is that of a rule whose head is recorded: the rule is on the line, and there is
nothing in front of the name but the word `default`. -/
def IsHeadName (m : Module) (line : Line) (before name : List Char) : Prop :=
  (∃ rule ∈ m.rules, rule.line = line.number ∧ rule.name = String.ofList name) ∧
    (Text.trim before = [] ∨ Text.trim before = "default".toList)

/-- A call that a module makes: on a line of its statements, apart from the names of rule heads. -/
def MakesCall (m : Module) (line : Line) (name : String) : Prop :=
  ∃ above before, IsStatementLine m above line ∧ CallsAt line before name.toList ∧
    ¬IsHeadName m line before name.toList

/-- Whether a dotted name is that of a document: `data`, `input`, or anything below them. -/
def IsDocument (name : String) : Prop :=
  Text.firstPiece '.' name = "data" ∨ Text.firstPiece '.' name = "input"

instance (name : String) : Decidable (IsDocument name) :=
  inferInstanceAs (Decidable (_ ∨ _))

section Lexing

variable {mode next : Mode} {c : Char} {before : List Char}

theorem behind_cons_eq_some {last : Mode} {rest : List Char}
    (h : mode.behind (c :: rest) = some last) :
    ∃ next, mode.next c = some next ∧ next.behind rest = some last := by
  rw [Mode.behind, List.foldlM_cons] at h
  exact Option.bind_eq_some_iff.mp h

/-- One character more is code where the line is code, or where a string ends with it. -/
theorem strip_eq_of_next (h : mode.next c = some next) (rest : List Char) :
    strip mode (c :: rest) =
      (if mode = .code || next = .code then c :: (strip next rest).1 else (strip next rest).1,
        (strip next rest).2) := by
  cases mode with
  | code =>
      rw [Mode.next] at h
      split at h
      · cases h
      · rename_i hComment
        simp only [strip, if_neg hComment, decide_true, Bool.true_or, if_true]
        split at h
        · cases h
          simp [*]
        · split at h
          · cases h
            simp [*]
          · cases h
            simp [*]
  | string =>
      rw [Mode.next] at h
      split at h
      · cases h
        simp [strip, *]
      · split at h
        · cases h
          simp [strip, *]
        · cases h
          simp [strip, *]
  | escape =>
      cases h
      simp [strip]
  | raw =>
      rw [Mode.next] at h
      split at h
      · cases h
        simp [strip, *]
      · cases h
        simp [strip, *]

theorem strip_cons (h : mode.next c = some next) (rest : List Char) :
    (strip mode (c :: rest)).1 =
      if mode = .code || next = .code then c :: (strip next rest).1 else (strip next rest).1 := by
  rw [strip_eq_of_next h]

theorem strip_cons_leaves (h : mode.next c = some next) (rest : List Char) :
    (strip mode (c :: rest)).2 = (strip next rest).2 := by
  rw [strip_eq_of_next h]

/-- What is left of a line begins with what is left of its front, where that ends in code. -/
theorem strip_append (h : mode.behind before = some .code) (rest : List Char) :
    (strip mode (before ++ rest)).1 = (strip mode before).1 ++ (strip .code rest).1 := by
  induction before generalizing mode with
  | nil =>
      cases h
      rfl
  | cons c before ih =>
      obtain ⟨next, hNext, hBehind⟩ := behind_cons_eq_some h
      rw [List.cons_append, strip_cons hNext, strip_cons hNext, ih hBehind]
      split <;> rfl

/-- What is left of a text that ends in code ends with the same character. -/
theorem getLast?_strip_front (h : mode.behind before = some .code) :
    (strip mode before).1.getLast? = before.getLast? := by
  induction before generalizing mode with
  | nil =>
      cases h
      rfl
  | cons c before ih =>
      obtain ⟨next, hNext, hBehind⟩ := behind_cons_eq_some h
      rw [strip_cons hNext, List.getLast?_cons, ← ih hBehind]
      split
      · rw [List.getLast?_cons]
      · rename_i hInside
        cases before with
        | nil =>
            cases hBehind
            simp at hInside
        | cons d before =>
            rw [ih hBehind, List.getLast?_cons]
            rfl

/-- A text that ends in code and of which no quote is left is all code. -/
theorem strip_front_eq_self (h : mode.behind before = some .code)
    (hQuotes : ∀ c ∈ (strip mode before).1, c ≠ '"' ∧ c ≠ '`') (hMode : mode = .code) :
    (strip mode before).1 = before := by
  subst hMode
  induction before with
  | nil => rfl
  | cons c before ih =>
      obtain ⟨next, hNext, hBehind⟩ := behind_cons_eq_some h
      rw [strip_cons hNext] at hQuotes ⊢
      simp only [decide_true, Bool.true_or, if_true] at hQuotes ⊢
      obtain ⟨⟨hDouble, hBack⟩, hRest⟩ := List.forall_mem_cons.mp hQuotes
      have hCode : next = .code := by
        simp only [Mode.next, if_neg hDouble, if_neg hBack] at hNext
        split at hNext
        · cases hNext
        · exact (Option.some.inj hNext).symm
      subst hCode
      rw [ih hBehind hRest]

end Lexing

section Names

theorem isIdentChar_of_isIdentStart {c : Char} (h : isIdentStart c = true) :
    isIdentChar c = true := by
  simp only [isIdentStart, isIdentChar, Char.isAlphanum, Bool.or_eq_true] at h ⊢
  rcases h with h | h
  · exact Or.inl (Or.inl h)
  · exact Or.inr h

theorem nameTail_append_ident {front : List Char} (hFront : ∀ c ∈ front, isIdentChar c = true)
    (rest : List Char) :
    nameTail (front ++ rest) = (front ++ (nameTail rest).1, (nameTail rest).2) := by
  induction front with
  | nil => rfl
  | cons c front ih =>
      obtain ⟨hHere, hLater⟩ := List.forall_mem_cons.mp hFront
      rw [List.cons_append, nameTail.eq_def]
      simp [hHere, ih hLater]

theorem nameTail_dot {c : Char} (hStart : isIdentStart c = true) (rest : List Char) :
    nameTail ('.' :: c :: rest) =
      ('.' :: (nameTail (c :: rest)).1, (nameTail (c :: rest)).2) := by
  rw [nameTail]
  simp [hStart]

theorem nameTail_of_not_continuesName {after : List Char} (h : continuesName after = false) :
    nameTail after = ([], after) := by
  cases after with
  | nil => rfl
  | cons c rest => cases rest <;> simp_all [continuesName, nameTail]

/-- The segments behind the first one are read as the rest of the name, with what goes on behind
them. -/
theorem nameTail_segments {segments : List (List Char)} (after : List Char)
    (hSegments : ∀ segment ∈ segments, ∃ c rest, segment = c :: rest ∧ isIdentStart c = true ∧
      ∀ d ∈ rest, isIdentChar d = true) :
    nameTail (segments.flatMap ('.' :: ·) ++ after) =
      (segments.flatMap ('.' :: ·) ++ (nameTail after).1, (nameTail after).2) := by
  induction segments with
  | nil => rfl
  | cons segment segments ih =>
      obtain ⟨⟨c, rest, rfl, hStart, hRest⟩, hLater⟩ := List.forall_mem_cons.mp hSegments
      have hIdent : ∀ d ∈ c :: rest, isIdentChar d = true :=
        List.forall_mem_cons.mpr ⟨isIdentChar_of_isIdentStart hStart, hRest⟩
      have hName := nameTail_append_ident hIdent (segments.flatMap ('.' :: ·) ++ after)
      rw [ih hLater] at hName
      rw [List.flatMap_cons, List.append_assoc, List.cons_append, List.cons_append,
        nameTail_dot hStart, ← List.cons_append, hName]
      simp

/-- A dotted name is read as a whole, with what goes on behind it. -/
theorem dottedName_append_of_isDottedName {name : List Char} (h : IsDottedName name)
    (after : List Char) :
    dottedName (name ++ after) = (name ++ (nameTail after).1, (nameTail after).2) ∧
      ∃ c rest, name = c :: rest ∧ isIdentStart c = true := by
  obtain ⟨first, segments, hPieces⟩ :=
    List.exists_cons_of_ne_nil (List.splitOn_ne_nil '.' name)
  have hName : name = first ++ segments.flatMap ('.' :: ·) := by
    rw [← Text.intercalate_cons, ← hPieces, List.intercalate_splitOn]
  rw [IsDottedName, hPieces] at h
  obtain ⟨⟨c, rest, rfl, hStart, hRest⟩, hSegments⟩ := List.forall_mem_cons.mp h
  have hTail := nameTail_append_ident hRest (segments.flatMap ('.' :: ·) ++ after)
  rw [nameTail_segments after hSegments] at hTail
  subst hName
  refine ⟨?_, c, _, rfl, hStart⟩
  rw [List.append_assoc, List.cons_append, dottedName, if_pos hStart, hTail]
  simp

/-- Nothing more than the name is read where what follows does not go on with it. -/
theorem dottedName_of_isDottedName {name after : List Char} (h : IsDottedName name)
    (hAfter : continuesName after = false) :
    dottedName (name ++ after) = (name, after) ∧
      ∃ c rest, name = c :: rest ∧ isIdentStart c = true := by
  obtain ⟨hRead, hStarts⟩ := dottedName_append_of_isDottedName h after
  rw [nameTail_of_not_continuesName hAfter, List.append_nil] at hRead
  exact ⟨hRead, hStarts⟩

theorem mem_referencesFrom_append {r : Reference} {rest : List Char} (front : List Char)
    (previous : Option Char) (start : Nat)
    (h : r ∈ referencesFrom (front.getLast?.or previous) (start + front.length) rest) :
    r ∈ referencesFrom previous start (front ++ rest) := by
  induction front generalizing previous start with
  | nil => exact h
  | cons c front ih =>
      have hLater : r ∈ referencesFrom (some c) (start + 1) (front ++ rest) := by
        apply ih
        rw [List.length_cons, List.getLast?_cons] at h
        have hStart : start + (front.length + 1) = start + 1 + front.length := by omega
        rw [hStart] at h
        cases hLast : front.getLast? with
        | none => simpa [hLast] using h
        | some d => simpa [hLast] using h
      rw [List.cons_append, referencesFrom]
      split
      · exact List.mem_cons_of_mem _ hLater
      · exact hLater

/-- A dotted name is a reference, and a call if a parenthesis follows. -/
theorem mem_references_of_isDottedName {front name after : List Char} (hName : IsDottedName name)
    (hBegins : endsName front.getLast? = true) (hAfter : continuesName after = false) :
    ⟨name, after.head? = some '(', front.length⟩ ∈ references (front ++ (name ++ after)) := by
  obtain ⟨hRead, c, rest, rfl, hStart⟩ := dottedName_of_isDottedName hName hAfter
  apply mem_referencesFrom_append
  rw [Option.or_none, Nat.zero_add, List.cons_append, referencesFrom, hBegins, hStart]
  rw [List.cons_append] at hRead
  simp only [Bool.and_self, if_true, hRead]
  exact List.mem_cons_self

theorem mem_isDottedName {name : List Char} (h : IsDottedName name) {c : Char} (hc : c ∈ name) :
    isIdentChar c = true ∨ c = '.' := by
  have hName : ['.'].intercalate (name.splitOn '.') = name := List.intercalate_splitOn '.'
  rw [← hName] at hc
  obtain ⟨first, segments, hPieces⟩ :=
    List.exists_cons_of_ne_nil (List.splitOn_ne_nil '.' name)
  rw [hPieces, Text.intercalate_cons] at hc
  rw [IsDottedName, hPieces] at h
  have hIdent {segment : List Char} (hSegment : segment ∈ first :: segments) (hMem : c ∈ segment) :
      isIdentChar c = true := by
    obtain ⟨d, rest, rfl, hStart, hRest⟩ := h segment hSegment
    rcases List.mem_cons.mp hMem with rfl | hMem
    · exact isIdentChar_of_isIdentStart hStart
    · exact hRest c hMem
  rcases List.mem_append.mp hc with hc | hc
  · exact Or.inl (hIdent List.mem_cons_self hc)
  · obtain ⟨segment, hSegment, hMem⟩ := List.mem_flatMap.mp hc
    rcases List.mem_cons.mp hMem with rfl | hMem
    · exact Or.inr rfl
    · exact Or.inl (hIdent (List.mem_cons_of_mem _ hSegment) hMem)

end Names

section Heads

theorem trim_eq_nil {text : List Char} (h : ∀ c ∈ text, Text.isBlank c = true) :
    Text.trim text = [] := by
  rw [Text.trim, Text.dropEnds, List.dropWhile_eq_nil_iff.mpr h]
  rfl

theorem trim_default {left right : List Char} (hLeft : ∀ c ∈ left, Text.isBlank c = true)
    (hRight : ∀ c ∈ right, Text.isBlank c = true) :
    Text.trim (left ++ ("default".toList ++ right)) = "default".toList :=
  Text.dropEnds_around hLeft hRight (by rintro c ⟨⟩; decide) (by rintro c ⟨⟩; decide)

theorem nameStart_eq (code : List Char) :
    nameStart code =
      if (dottedName (Text.trimStart code)).1 = "default".toList then
        (code.length - (Text.trimStart (dottedName (Text.trimStart code)).2).length,
          Text.trimStart (dottedName (Text.trimStart code)).2)
      else (code.length - (Text.trimStart code).length, Text.trimStart code) := by
  simp only [nameStart]
  split <;> rfl

/-- What stands in front of the name in the head of a rule. -/
theorem parseHead_eq_some {code : List Char} {head : Head} (h : parseHead code = some head) :
    ∃ front rest, code = front ++ rest ∧ head.start = front.length ∧
      head.name = (dottedName rest).1 ∧
        (∀ c ∈ front, Text.isBlank c = true ∨ c ∈ "default".toList) ∧
          (Text.trim front = [] ∨ Text.trim front = "default".toList) := by
  have hName : head.start = (nameStart code).1 ∧ head.name = (dottedName (nameStart code).2).1 := by
    simp only [parseHead] at h
    split at h
    · cases h
    · split at h
      · cases h
        exact ⟨rfl, rfl⟩
      · cases h
  rw [hName.1, hName.2]
  have hCode : code.takeWhile Text.isBlank ++ Text.trimStart code = code :=
    List.takeWhile_append_dropWhile
  have hIndent := isBlank_indent code
  rw [nameStart_eq]
  split
  · rename_i hDefault
    have hRest := dottedName_append (Text.trimStart code)
    rw [hDefault] at hRest
    generalize (dottedName (Text.trimStart code)).2 = after at *
    have hAfter : after.takeWhile Text.isBlank ++ Text.trimStart after = after :=
      List.takeWhile_append_dropWhile
    rw [← hRest, ← hAfter, ← List.append_assoc "default".toList, ← List.append_assoc] at hCode
    refine ⟨_, Text.trimStart after, hCode.symm, ?_, rfl, ?_,
      Or.inr (trim_default hIndent (isBlank_indent after))⟩
    · have hLength := congrArg List.length hCode
      rw [List.length_append] at hLength
      omega
    · intro c hc
      rw [List.mem_append, List.mem_append] at hc
      exact (hc.imp_right fun hc => hc.imp_right (isBlank_indent after c)).elim
        (fun hc => Or.inl (hIndent c hc)) Or.symm
  · refine ⟨_, Text.trimStart code, hCode.symm, ?_, rfl, fun c hc => Or.inl (hIndent c hc),
      Or.inl (trim_eq_nil hIndent)⟩
    have hLength := congrArg List.length hCode
    rw [List.length_append] at hLength
    omega

end Heads

section Recording

variable {path source : String} {dialect : Dialect} {m : Module} {above : List Line} {line : Line}

/-- A line of statements is read as code, and the rule that is found on it is recorded. -/
theorem IsStatementLine.readsCode (hParse : Module.parse path source dialect = .ok m)
    (hLine : IsStatementLine m above line) :
    ∃ s : Scan, ComesTo m.dialect (Line.ofSource m.source.toList) above s line ∧
      s.readsCode line = true ∧ ∀ rule ∈ s.ruleOn line, rule ∈ m.rules := by
  obtain ⟨s, after, hSplit, hReads, hCode, -⟩ := hLine.exists_readsCode hParse
  refine ⟨s, ?_, hCode, fun rule hRule => (Module.mem_rules_iff hParse).mpr
    ⟨above, s, line, after, hSplit, hReads, hCode, hRule⟩⟩
  obtain ⟨u, name, -, -, rfl⟩ := Module.parse_eq_ok_iff.mp hParse
  exact ⟨⟨after, hSplit⟩, hReads⟩

theorem continuesName_strip {after : List Char} (h : continuesName after = false) :
    continuesName (strip .code after).1 = false := by
  cases after with
  | nil => rfl
  | cons c rest =>
      rw [strip]
      split
      · rfl
      · rw [continuesName, Bool.or_eq_false_iff] at h ⊢
        refine ⟨h.1, ?_⟩
        by_cases hDot : c = '.'
        · subst hDot
          cases rest with
          | nil => rfl
          | cons d rest =>
              have hNext : isIdentStart d = false := by simpa using h.2
              by_cases hComment : d = '#'
              · simp [strip, hComment]
              · simp [strip, hComment, hNext]
        · simp [hDot]

/-- The code of a line has a name on it as it is. -/
theorem code_eq_of_named (hCode : line.code = (strip line.mode line.text).1)
    {before name after : List Char} (hText : line.text = before ++ (name ++ after))
    (hOutside : line.mode.behind before = some .code) (hDotted : IsDottedName name) :
    line.code = (strip line.mode before).1 ++ (name ++ (strip .code after).1) := by
  have hPlain : ∀ c ∈ name, c ≠ '#' ∧ c ≠ '"' ∧ c ≠ '`' := by
    intro c hc
    have hKind := mem_isDottedName hDotted hc
    refine ⟨?_, ?_, ?_⟩ <;> rintro rfl <;> exact absurd hKind (by decide)
  rw [hCode, hText, strip_append hOutside, strip_code_append hPlain]

theorem NamedAt.code_eq (hCode : line.code = (strip line.mode line.text).1)
    {before name : List Char} (hName : NamedAt line before name) :
    ∃ more, line.code = (strip line.mode before).1 ++ (name ++ more) ∧
      continuesName more = false := by
  obtain ⟨after, hText, hAfter⟩ := hName.split
  exact ⟨_, code_eq_of_named hCode hText hName.outside hName.dotted, continuesName_strip hAfter⟩

theorem CallsAt.code_eq (hCode : line.code = (strip line.mode line.text).1)
    {before name : List Char} (hCall : CallsAt line before name) :
    ∃ more, line.code = (strip line.mode before).1 ++ (name ++ '(' :: more) := by
  obtain ⟨after, hText⟩ := hCall.split
  exact ⟨_, code_eq_of_named hCode hText hCall.outside hCall.dotted⟩

/-- A name that is not mentioned is that of a head. -/
theorem isHeadName_of_start {s : Scan} (hCode : line.code = (strip line.mode line.text).1)
    {before name : List Char} (hName : NamedAt line before name)
    (hRules : ∀ rule ∈ s.ruleOn line, rule ∈ m.rules)
    (hStart : (s.headOf line).map (·.start) = some (strip line.mode before).1.length) :
    IsHeadName m line before name := by
  obtain ⟨head, hHead, hLength⟩ := Option.map_eq_some_iff.mp hStart
  obtain ⟨-, -, hString, -⟩ := Scan.isSome_headOf_iff.mp (Option.isSome_iff_exists.mpr ⟨head, hHead⟩)
  have hMode : line.mode = .code := Line.mode_of_outside hString
  have hParsed : parseHead line.code = some head := by
    rw [Scan.headOf] at hHead
    split at hHead
    · exact hHead
    · cases hHead
  obtain ⟨front, rest, hFront, hFrontLength, hHeadName, hChars, hTrim⟩ := parseHead_eq_some hParsed
  obtain ⟨more, hMore, hAfter⟩ := hName.code_eq hCode
  rw [hFront] at hMore
  obtain ⟨hSame, hRest⟩ := List.append_inj hMore (hFrontLength.symm.trans hLength)
  rw [hRest, (dottedName_of_isDottedName hName.dotted hAfter).1] at hHeadName
  have hQuotes : ∀ c ∈ (strip line.mode before).1, c ≠ '"' ∧ c ≠ '`' := by
    intro c hc
    rw [← hSame] at hc
    constructor <;> rintro rfl <;> exact absurd (hChars _ hc) (by decide)
  rw [hSame, strip_front_eq_self hName.outside hQuotes hMode] at hTrim
  refine ⟨⟨⟨String.ofList head.name, head.isFunction, s.pendingEntrypoint, line.number⟩,
    hRules _ ?_, rfl, congrArg String.ofList hHeadName⟩, hTrim⟩
  rw [Scan.ruleOn, Option.mem_toList, Option.map_eq_some_iff]
  exact ⟨head, hHead, rfl⟩

theorem isDocument_of_begins {name rest : List Char}
    (h : name = "data.".toList ++ rest ∨ name = "input.".toList ++ rest) :
    IsDocument (String.ofList name) := by
  rcases h with rfl | rfl
  · left
    rw [Text.firstPiece, String.toList_ofList]
    rfl
  · right
    rw [Text.firstPiece, String.toList_ofList]
    rfl

/-- A call of what is no document and no reserved word counts as one. -/
theorem isCalled_of_callable {name : List Char} (start : Nat)
    (hDocument : ¬IsDocument (String.ofList name)) (hWord : name ∉ keywords) :
    (⟨name, true, start⟩ : Reference).isCalled = true := by
  have hData : Text.afterList? "data.".toList name = none := by
    cases hRest : Text.afterList? "data.".toList name with
    | none => rfl
    | some rest =>
        exact absurd (isDocument_of_begins (Or.inl (Text.afterList?_eq_some_iff.mp hRest)))
          hDocument
  have hInput : "input.".toList.isPrefixOf name = false := by
    rw [Bool.eq_false_iff, ne_eq, List.isPrefixOf_iff_prefix]
    rintro ⟨rest, hRest⟩
    exact hDocument (isDocument_of_begins (Or.inr hRest.symm))
  have hNotInput : name ≠ "input".toList := by
    rintro rfl
    exact hDocument (by decide)
  have hNotData : name ≠ "data".toList := by
    rintro rfl
    exact hDocument (by decide)
  have hNotWord : keywords.contains name = false := by
    rwa [Bool.eq_false_iff, ne_eq, List.contains_iff_mem]
  simp only [Reference.isCalled, isCallable, hData, hInput, hNotWord, hNotInput, hNotData,
    Option.isNone_none, ne_eq, not_false_eq_true, decide_true, Bool.not_false, Bool.and_self]

/-- Every call that a module makes is recorded, unless it calls a document or has the name of a
reserved word. -/
theorem mem_calls_of_makesCall (hParse : Module.parse path source dialect = .ok m) {name : String}
    (hCall : MakesCall m line name) (hDocument : ¬IsDocument name)
    (hWord : name.toList ∉ keywords) : ⟨name, line.number⟩ ∈ m.calls := by
  obtain ⟨above, before, hLine, hAt, hHead⟩ := hCall
  obtain ⟨s, hComes, hCode, hRules⟩ := hLine.readsCode hParse
  obtain ⟨after, hSource⟩ := hLine.source
  have hStrip : line.code = (strip line.mode line.text).1 :=
    Line.code_of_mem_ofSource (hSource ▸ List.mem_append_right _ List.mem_cons_self)
  obtain ⟨more, hMore⟩ := hAt.code_eq hStrip
  have hBegins : endsName (strip line.mode before).1.getLast? = true := by
    rw [getLast?_strip_front hAt.outside]
    exact hAt.begins
  have hEnds : continuesName ('(' :: more) = false := rfl
  have hFound := mem_references_of_isDottedName hAt.dotted hBegins hEnds
  rw [← hMore] at hFound
  have hMention : ⟨name.toList, true, (strip line.mode before).1.length⟩ ∈ s.mentions line := by
    refine List.mem_filter.mpr ⟨hFound, ?_⟩
    rw [decide_eq_true_eq]
    exact fun hStart => hHead (isHeadName_of_start hStrip hAt.namedAt hRules hStart)
  have hCalled := isCalled_of_callable (strip line.mode before).1.length
    (by rwa [String.ofList_toList]) hWord
  refine (mem_calls_iff hParse _).mpr ⟨above, s, line, _, ⟨hComes, hCode, hMention, ?_⟩, hCalled, ?_⟩
  · rw [hCalled, Bool.true_or]
  · rw [String.ofList_toList]

end Recording

end PolicyBundle.Policy
