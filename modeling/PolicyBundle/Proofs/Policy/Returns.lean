import PolicyBundle.Policy.Scan
import PolicyBundle.Proofs.Text.LineEndings

/-! A carriage return at the end of a line of code is read as nothing, with one exception: behind a
head that ends with `if` it hides the head. -/

namespace PolicyBundle.Policy

/-- The return is code itself, or it belongs to a comment or to the contents of a string. -/
theorem strip_concat_return (mode : Mode) (text : List Char) :
    ∃ tail, (tail = [] ∨ tail = ['\r']) ∧
      strip mode (text ++ ['\r']) = ((strip mode text).1 ++ tail, (strip mode text).2) := by
  induction text generalizing mode with
  | nil =>
      cases mode with
      | code => exact ⟨['\r'], Or.inr rfl, rfl⟩
      | string => exact ⟨[], Or.inl rfl, rfl⟩
      | escape => exact ⟨[], Or.inl rfl, rfl⟩
      | raw => exact ⟨[], Or.inl rfl, rfl⟩
  | cons c rest ih =>
      cases mode with
      | code =>
          rw [List.cons_append, strip, strip]
          by_cases hHash : c = '#'
          · simp only [if_pos hHash]
            exact ⟨[], Or.inl rfl, rfl⟩
          · simp only [if_neg hHash]
            obtain ⟨tail, hTail, hStrip⟩ := ih (if c = '"' then Mode.string
              else if c = '`' then Mode.raw else Mode.code)
            exact ⟨tail, hTail, by rw [hStrip]; rfl⟩
      | string =>
          rw [List.cons_append, strip, strip]
          by_cases hSlash : c = '\\'
          · simp only [if_pos hSlash]
            exact ih .escape
          by_cases hQuote : c = '"'
          · simp only [if_neg hSlash, if_pos hQuote]
            obtain ⟨tail, hTail, hStrip⟩ := ih .code
            exact ⟨tail, hTail, by rw [hStrip]; rfl⟩
          · simp only [if_neg hSlash, if_neg hQuote]
            exact ih .string
      | escape =>
          rw [List.cons_append, strip, strip]
          exact ih .string
      | raw =>
          rw [List.cons_append, strip, strip]
          by_cases hQuote : c = '`'
          · simp only [if_pos hQuote]
            obtain ⟨tail, hTail, hStrip⟩ := ih .code
            exact ⟨tail, hTail, by rw [hStrip]; rfl⟩
          · simp only [if_neg hQuote]
            exact ih .raw

theorem bracketBalance_concat_return (inString : Bool) (code : List Char) :
    bracketBalance inString (code ++ ['\r']) = bracketBalance inString code := by
  induction code generalizing inString with
  | nil => cases inString <;> rfl
  | cons c rest ih =>
      simp only [List.cons_append, bracketBalance, ih]

theorem nameTail_concat_return (text : List Char) :
    nameTail (text ++ ['\r']) = ((nameTail text).1, (nameTail text).2 ++ ['\r']) := by
  induction text with
  | nil => rfl
  | cons c rest ih =>
      have hStart : isIdentStart '\r' = false := by decide
      cases rest with
      | nil =>
          cases hChar : isIdentChar c <;> simp [nameTail, hStart, hChar]
          decide
      | cons d rest =>
          rw [List.cons_append] at ih ⊢
          rw [List.cons_append, nameTail, ih]
          rw [nameTail]
          split <;> rfl

theorem dottedName_concat_return (text : List Char) :
    dottedName (text ++ ['\r']) = ((dottedName text).1, (dottedName text).2 ++ ['\r']) := by
  cases text with
  | nil => rfl
  | cons c rest =>
      simp only [List.cons_append, dottedName, nameTail_concat_return]
      split <;> rfl

theorem head?_concat_return {text : List Char} {c : Char} (hOther : c ≠ '\r') :
    (text ++ ['\r']).head? = some c ↔ text.head? = some c := by
  cases text with
  | nil => simpa using hOther.symm
  | cons d rest => rfl

theorem referencesFrom_concat_return (previous : Option Char) (start : Nat) (code : List Char) :
    referencesFrom previous start (code ++ ['\r']) = referencesFrom previous start code := by
  induction code generalizing previous start with
  | nil => simp [referencesFrom, show isIdentStart '\r' = false by decide]
  | cons c rest ih =>
      have hName := dottedName_concat_return (c :: rest)
      rw [List.cons_append] at hName
      simp only [List.cons_append, referencesFrom, ih, hName,
        head?_concat_return (show '(' ≠ '\r' by decide)]

theorem references_concat_return (code : List Char) :
    references (code ++ ['\r']) = references code :=
  referencesFrom_concat_return none 0 code

theorem words_concat_return (code : List Char) : words (code ++ ['\r']) = words code := by
  have hReturn : (!isIdentChar '\r') = true := by decide
  rw [words, List.splitOnP_append_cons code [] hReturn, List.splitOnP_nil, List.filter_append,
    words]
  exact List.append_nil _

theorem cutFirst?_concat_return {separator : Char} (hOther : separator ≠ '\r')
    (code : List Char) :
    Text.cutFirst? separator (code ++ ['\r']) =
      (Text.cutFirst? separator code).map fun (before, after) => (before, after ++ ['\r']) := by
  induction code with
  | nil => simp [Text.cutFirst?, hOther.symm]
  | cons c rest ih =>
      rw [List.cons_append, Text.cutFirst?, Text.cutFirst?]
      by_cases hHere : c = separator
      · simp [hHere]
      · rw [if_neg hHere, if_neg hHere, ih]
        cases Text.cutFirst? separator rest <;> rfl

theorem ruleFault?_concat_return (dialect : Dialect) (imports : List Import) (code : List Char) :
    ruleFault? dialect imports (code ++ ['\r']) = ruleFault? dialect imports code := by
  rw [ruleFault?, ruleFault?, words_concat_return,
    cutFirst?_concat_return (show '\x7b' ≠ '\r' by decide)]
  cases Text.cutFirst? '\x7b' code <;> rfl

theorem isPrefixOf_concat_return {start : List Char} (hStart : '\r' ∉ start) (text : List Char) :
    start.isPrefixOf (text ++ ['\r']) = start.isPrefixOf text := by
  rw [Bool.eq_iff_iff, List.isPrefixOf_iff_prefix, List.isPrefixOf_iff_prefix,
    List.prefix_concat_iff]
  constructor
  · rintro (rfl | h)
    · simp at hStart
    · exact h
  · exact Or.inr

theorem trimStart_concat_return (text : List Char) :
    Text.trimStart (text ++ ['\r']) =
      if Text.trimStart text = [] then [] else Text.trimStart text ++ ['\r'] := by
  rw [Text.trimStart, List.dropWhile_append]
  simp only [List.isEmpty_iff, Text.trimStart]
  rfl

/-- The return stays behind a name, unless there is none. -/
theorem nameStart_concat_return (code : List Char) :
    ((nameStart code).2 = [] ∧ (nameStart (code ++ ['\r'])).2 = []) ∨
      nameStart (code ++ ['\r']) = ((nameStart code).1, (nameStart code).2 ++ ['\r']) := by
  simp only [nameStart, trimStart_concat_return]
  by_cases hBlank : Text.trimStart code = []
  · left
    simp [hBlank, dottedName]
  · simp only [if_neg hBlank, dottedName_concat_return]
    by_cases hDefault : (dottedName (Text.trimStart code)).1 = "default".toList
    · simp only [if_pos hDefault, trimStart_concat_return]
      by_cases hEnd : Text.trimStart (dottedName (Text.trimStart code)).2 = []
      · simp [hEnd]
      · right
        simp [hEnd]
    · right
      simp only [if_neg hDefault]
      simp

theorem mayFollowName_of_concat_return {rest : List Char}
    (h : mayFollowName (rest ++ ['\r']) = true) : mayFollowName rest = true := by
  simp only [mayFollowName, trimStart_concat_return] at h ⊢
  cases hTrim : Text.trimStart rest with
  | nil => rfl
  | cons c text =>
      have hIf : "if ".toList.isPrefixOf (c :: text ++ ['\r']) = "if ".toList.isPrefixOf (c :: text) :=
        isPrefixOf_concat_return (by decide) (c :: text)
      have hContains : "contains ".toList.isPrefixOf (c :: text ++ ['\r']) =
          "contains ".toList.isPrefixOf (c :: text) :=
        isPrefixOf_concat_return (by decide) (c :: text)
      have hEquals : "==".toList.isPrefixOf (c :: text ++ ['\r']) = "==".toList.isPrefixOf (c :: text) :=
        isPrefixOf_concat_return (by decide) (c :: text)
      have hOther : c :: text ++ ['\r'] ≠ "if".toList := by
        intro hEq
        have hLast := congrArg List.getLast? hEq
        rw [List.getLast?_concat] at hLast
        revert hLast
        decide
      rw [hTrim, if_neg (List.cons_ne_nil c text), hEquals, Bool.and_eq_true] at h
      rw [Bool.and_eq_true]
      refine ⟨?_, h.2⟩
      have hHead := h.1
      rw [List.cons_append] at hIf hContains hOther
      simp only [List.cons_append, hIf, hContains, hOther, decide_false, Bool.or_false] at hHead
      simp only [Bool.or_eq_true] at hHead ⊢
      rcases hHead with (hChar | hPrefix) | hPrefix
      · exact Or.inl (Or.inl (Or.inl hChar))
      · exact Or.inl (Or.inl (Or.inr hPrefix))
      · exact Or.inr hPrefix

/-- The return changes a head only by hiding it. -/
theorem parseHead_concat_return (code : List Char) :
    parseHead (code ++ ['\r']) = parseHead code ∨
      parseHead (code ++ ['\r']) = none ∧ (parseHead code).isSome = true := by
  rcases nameStart_concat_return code with ⟨hNone, hNone'⟩ | hStart
  · left
    simp [parseHead, hNone, hNone', dottedName]
  · simp only [parseHead, hStart, dottedName_concat_return]
    generalize dottedName (nameStart code).2 = found
    obtain ⟨name, after⟩ := found
    have hCall : (after ++ ['\r']).head? = some '(' ↔ after.head? = some '(' :=
      head?_concat_return (by decide)
    by_cases hName : name.isEmpty || keywords.contains (name.takeWhile (· ≠ '.'))
    · left
      simp only [if_pos hName]
    · simp only [if_neg hName, hCall]
      cases hReturn : mayFollowName (after ++ ['\r']) with
      | true =>
          left
          rw [mayFollowName_of_concat_return hReturn]
      | false =>
          cases mayFollowName after with
          | false => exact Or.inl rfl
          | true => exact Or.inr ⟨rfl, rfl⟩

end PolicyBundle.Policy
