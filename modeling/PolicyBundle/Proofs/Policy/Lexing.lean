import PolicyBundle.Policy.Line
import Mathlib.Data.List.Count

/-! Which characters of a line are code, and what the count of brackets makes of the line. The count
runs over the code with the quotes in it. Behind the end of a raw string that began on an earlier
line the one quote that is left turns the count off instead of on. -/

namespace PolicyBundle.Policy

/-- The characters of a line that stand outside strings, raw strings and comments. -/
def outside : Mode → List Char → List Char
  | _, [] => []
  | .code, c :: rest =>
    if c = '#' then []
    else if c = '"' then outside .string rest
    else if c = '`' then outside .raw rest
    else c :: outside .code rest
  | .string, c :: rest =>
    if c = '\\' then outside .escape rest
    else if c = '"' then outside .code rest
    else outside .string rest
  | .escape, _ :: rest => outside .string rest
  | .raw, c :: rest => if c = '`' then outside .code rest else outside .raw rest

/-- How many brackets are opened in a text less those that are closed. -/
def openBrackets (text : List Char) : Int :=
  text.countP (['\x7b', '[', '('].contains ·) - text.countP (['\x7d', ']', ')'].contains ·)

@[simp] theorem openBrackets_nil : openBrackets [] = 0 := rfl

theorem openBrackets_cons (c : Char) (rest : List Char) :
    openBrackets (c :: rest) =
      (if c = '\x7b' || c = '[' || c = '(' then 1
        else if c = '\x7d' || c = ']' || c = ')' then -1 else 0) + openBrackets rest := by
  simp only [openBrackets, List.countP_cons, List.contains_cons, List.contains_nil, Bool.or_false]
  by_cases hOpen : c = '\x7b' ∨ c = '[' ∨ c = '('
  · rcases hOpen with rfl | rfl | rfl <;> simp <;> omega
  · by_cases hClose : c = '\x7d' ∨ c = ']' ∨ c = ')'
    · rcases hClose with rfl | rfl | rfl <;> simp <;> omega
    · simp only [not_or] at hOpen hClose
      simp [hOpen, hClose]

theorem bracketBalance_quote {c : Char} (hQuote : c = '"' ∨ c = '`') (inString : Bool)
    (rest : List Char) : bracketBalance inString (c :: rest) = bracketBalance (!inString) rest := by
  rcases hQuote with rfl | rfl <;> simp [bracketBalance]

theorem bracketBalance_cons {c : Char} (hDouble : c ≠ '"') (hBack : c ≠ '`') (inString : Bool)
    (rest : List Char) : bracketBalance inString (c :: rest) =
      (if inString then 0
        else if c = '\x7b' || c = '[' || c = '(' then 1
        else if c = '\x7d' || c = ']' || c = ')' then -1 else 0) + bracketBalance inString rest := by
  simp [bracketBalance, hDouble, hBack]

/-- The count of a line's code is right if it starts with the flag of the line's mode. If it starts
with the other one, every character outside strings meets the flag of a string. -/
theorem bracketBalance_strip (mode : Mode) (text : List Char) :
    bracketBalance (mode ≠ .code) (strip mode text).1 = openBrackets (outside mode text) ∧
      bracketBalance (mode = .code) (strip mode text).1 = 0 := by
  induction text generalizing mode with
  | nil => cases mode <;> exact ⟨rfl, rfl⟩
  | cons c rest ih =>
      have hCode := ih .code
      have hString := ih .string
      have hEscape := ih .escape
      have hRaw := ih .raw
      simp only [ne_eq, reduceCtorEq, not_true_eq_false, not_false_eq_true, decide_true,
        decide_false] at hCode hString hEscape hRaw
      cases mode with
      | code =>
          simp only [strip, outside, ne_eq, not_true_eq_false, decide_true, decide_false]
          by_cases hHash : c = '#'
          · simp [hHash, bracketBalance]
          by_cases hDouble : c = '"'
          · simp [hDouble, bracketBalance_quote, hString]
          by_cases hBack : c = '`'
          · simp [hBack, bracketBalance_quote, hRaw]
          · simp [hHash, hDouble, hBack, bracketBalance_cons, openBrackets_cons, hCode]
      | string =>
          simp only [strip, outside, ne_eq, reduceCtorEq, not_false_eq_true, decide_true,
            decide_false]
          by_cases hSlash : c = '\\'
          · simpa [hSlash] using hEscape
          by_cases hDouble : c = '"'
          · simp [hDouble, bracketBalance_quote, hCode]
          · simpa [hSlash, hDouble] using hString
      | escape => simpa [strip, outside] using hString
      | raw =>
          simp only [strip, outside, ne_eq, reduceCtorEq, not_false_eq_true, decide_true,
            decide_false]
          by_cases hBack : c = '`'
          · simp [hBack, bracketBalance_quote, hCode]
          · simpa [hBack] using hRaw

namespace Line

/-- The mode in which a line is read from its first character on. -/
def mode (line : Line) : Mode :=
  if line.inString then .raw else .code

/-- How many brackets of a line are opened less those that are closed, all outside strings, raw
strings and comments. -/
def openBrackets (line : Line) : Int :=
  Policy.openBrackets (outside line.mode line.text)

/-- The code of a line is what is left of its text. -/
theorem code_of_mem_numbered {number : Nat} {inString : Bool} {texts : List (List Char)}
    {line : Line} (h : line ∈ numbered number inString texts) :
    line.code = (strip line.mode line.text).1 := by
  induction texts generalizing number inString with
  | nil => cases h
  | cons text rest ih =>
      rw [numbered] at h
      rcases List.mem_cons.mp h with rfl | h
      · rfl
      · exact ih h

theorem code_of_mem_ofSource {source : List Char} {line : Line} (h : line ∈ ofSource source) :
    line.code = (strip line.mode line.text).1 :=
  code_of_mem_numbered h

/-- The count takes no notice of a line that begins inside a raw string. -/
theorem bracketBalance_code {line : Line} (hLine : line.code = (strip line.mode line.text).1) :
    bracketBalance false line.code = if line.inString then 0 else line.openBrackets := by
  obtain ⟨hRight, hWrong⟩ := bracketBalance_strip line.mode line.text
  rw [← hLine] at hRight hWrong
  cases hIn : line.inString with
  | false =>
      rw [show line.mode = .code by rw [mode, hIn]; rfl] at hRight
      rw [if_neg Bool.false_ne_true, openBrackets, mode, hIn]
      exact hRight
  | true =>
      rw [show line.mode = .raw by rw [mode, hIn]; rfl] at hWrong
      rw [if_pos rfl]
      exact hWrong

/-- Whether a line ends inside a raw string. -/
def leavesString (line : Line) : Bool :=
  (strip line.mode line.text).2

/-- Whether lines end inside a raw string, when they begin inside one or not. -/
def endsInString (inString : Bool) (texts : List (List Char)) : Bool :=
  texts.foldl (fun inString text => (strip (if inString then .raw else .code) text).2) inString

/-- A line by itself. -/
def single (number : Nat) (inString : Bool) (text : List Char) : Line :=
  ⟨number, text, (strip (if inString then .raw else .code) text).1, inString⟩

theorem numbered_cons (number : Nat) (inString : Bool) (text : List Char)
    (rest : List (List Char)) : numbered number inString (text :: rest) =
      single number inString text ::
        numbered (number + 1) (single number inString text).leavesString rest := rfl

theorem endsInString_cons (number : Nat) (inString : Bool) (text : List Char)
    (rest : List (List Char)) : endsInString inString (text :: rest) =
      endsInString (single number inString text).leavesString rest := rfl

theorem numbered_append (number : Nat) (inString : Bool) (done rest : List (List Char)) :
    numbered number inString (done ++ rest) = numbered number inString done ++
      numbered (number + done.length) (endsInString inString done) rest := by
  induction done generalizing number inString with
  | nil => rfl
  | cons text done ih =>
      rw [List.cons_append, numbered_cons, ih, numbered_cons, List.length_cons, Nat.add_assoc,
        Nat.add_comm 1, List.cons_append]
      rfl

/-- A line among others is preceded by the lines of the texts before it. -/
theorem numbered_eq_append_cons {number : Nat} {inString : Bool} {texts : List (List Char)}
    {before after : List Line} {line : Line}
    (h : numbered number inString texts = before ++ line :: after) :
    ∃ done text rest, texts = done ++ text :: rest ∧ before = numbered number inString done ∧
      line = single (number + done.length) (endsInString inString done) text := by
  induction before generalizing number inString texts with
  | nil =>
      cases texts with
      | nil => cases h
      | cons text rest =>
          rw [numbered_cons, List.nil_append, List.cons.injEq] at h
          exact ⟨[], text, rest, rfl, rfl, h.1.symm⟩
  | cons first before ih =>
      cases texts with
      | nil => cases h
      | cons text rest =>
          rw [numbered_cons, List.cons_append, List.cons.injEq] at h
          obtain ⟨done, next, others, hTexts, hBefore, hLine⟩ := ih h.2
          refine ⟨text :: done, next, others, by rw [hTexts]; rfl, ?_, ?_⟩
          · rw [numbered_cons, ← hBefore, h.1]
          · rw [hLine, List.length_cons, Nat.add_assoc, Nat.add_comm 1]
            rfl

end Line

/-- A line that ends inside a raw string has a quote as the last of its code, or it stands inside
the string as a whole. -/
theorem getLast?_strip {mode : Mode} {text : List Char} (hLeaves : (strip mode text).2 = true) :
    (strip mode text).1.getLast? = some '`' ∨ mode = .raw ∧ (strip mode text).1 = [] := by
  induction text generalizing mode with
  | nil =>
      cases mode with
      | code => cases hLeaves
      | string => cases hLeaves
      | escape => cases hLeaves
      | raw => exact Or.inr ⟨rfl, rfl⟩
  | cons c rest ih =>
      -- One more character of code in front does not change the last one.
      have hCons (next : Mode) (hNext : (strip next rest).2 = true)
          (hQuote : next = .raw → c = '`') :
          (c :: (strip next rest).1).getLast? = some '`' := by
        rcases ih hNext with hLast | ⟨hRaw, hNil⟩
        · rw [List.getLast?_cons, hLast]
          rfl
        · rw [hNil, hQuote hRaw]
          rfl
      cases mode with
      | code =>
          rw [strip] at hLeaves ⊢
          by_cases hHash : c = '#'
          · rw [if_pos hHash] at hLeaves
            cases hLeaves
          · rw [if_neg hHash] at hLeaves ⊢
            left
            refine hCons _ hLeaves ?_
            intro hRaw
            by_contra hOther
            rw [if_neg hOther] at hRaw
            split at hRaw <;> cases hRaw
      | string =>
          rw [strip] at hLeaves ⊢
          by_cases hSlash : c = '\\'
          · rw [if_pos hSlash] at hLeaves ⊢
            exact Or.inl ((ih hLeaves).resolve_right (by rintro ⟨⟨⟩, _⟩))
          by_cases hQuote : c = '"'
          · rw [if_neg hSlash, if_pos hQuote] at hLeaves ⊢
            subst hQuote
            exact Or.inl (hCons .code hLeaves (by rintro ⟨⟩))
          · rw [if_neg hSlash, if_neg hQuote] at hLeaves ⊢
            exact Or.inl ((ih hLeaves).resolve_right (by rintro ⟨⟨⟩, _⟩))
      | escape =>
          rw [strip] at hLeaves ⊢
          exact Or.inl ((ih hLeaves).resolve_right (by rintro ⟨⟨⟩, _⟩))
      | raw =>
          rw [strip] at hLeaves ⊢
          by_cases hQuote : c = '`'
          · rw [if_pos hQuote] at hLeaves ⊢
            subst hQuote
            exact Or.inl (hCons .code hLeaves (by rintro ⟨⟩))
          · rw [if_neg hQuote] at hLeaves ⊢
            exact (ih hLeaves).imp_right fun hNil => ⟨rfl, hNil.2⟩

end PolicyBundle.Policy
