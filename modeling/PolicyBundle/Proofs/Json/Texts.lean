import PolicyBundle.Proofs.Json.Typed
import PolicyBundle.Proofs.Log.Attempts

/-! A document that a reader takes is a text. Outside strings all its bytes are ASCII. In a string the
bytes between the escapes are text, since the string is read as text and an escape stands for a whole
character. -/

namespace PolicyBundle.Json

open Log Text

/-- What is taken from the front of the input is text. -/
def TakesText (input rest : Bytes) : Prop :=
  ∃ front, input = front ++ rest ∧ IsText front

/-- A reader that takes text. -/
def Textual {α : Type} (reader : Reader α) : Prop :=
  ∀ input x rest, reader input = .ok (x, rest) → TakesText input rest

theorem TakesText.refl (input : Bytes) : TakesText input input :=
  ⟨[], rfl, isText_nil⟩

theorem TakesText.trans {input middle rest : Bytes} (hFirst : TakesText input middle)
    (hSecond : TakesText middle rest) : TakesText input rest := by
  obtain ⟨front, rfl, hFront⟩ := hFirst
  obtain ⟨next, rfl, hNext⟩ := hSecond
  exact ⟨front ++ next, (List.append_assoc ..).symm, hFront.append hNext⟩

theorem takesText_cons {b : UInt8} (hLow : b < 0x80) (rest : Bytes) : TakesText (b :: rest) rest :=
  ⟨[b], rfl, isText_of_ascii (List.forall_mem_singleton.mpr hLow)⟩

theorem takesText_dropWhile {class? : UInt8 → Bool} (hLow : ∀ b, class? b = true → b < 0x80)
    (input : Bytes) : TakesText input (input.dropWhile class?) :=
  ⟨input.takeWhile class?, List.takeWhile_append_dropWhile.symm,
    isText_of_ascii fun b hb => hLow b (List.mem_takeWhile_imp hb)⟩

theorem lt_of_isSpace (b : UInt8) (h : isSpace b = true) : b < 0x80 := by
  simp only [isSpace, Bool.or_eq_true, beq_iff_eq] at h
  rcases h with ((rfl | rfl) | rfl) | rfl <;> decide

theorem lt_of_isDigit (b : UInt8) (h : isDigit b = true) : b < 0x80 := by
  simp only [isDigit, Bool.and_eq_true, decide_eq_true_eq] at h
  exact UInt8.lt_of_le_of_lt h.2 (by decide)

theorem takesText_spaces (input : Bytes) : TakesText input (afterSpaces input) :=
  takesText_dropWhile lt_of_isSpace input

theorem takesText_digits (input : Bytes) : TakesText input (input.dropWhile isDigit) :=
  takesText_dropWhile lt_of_isDigit input

section Tokens

variable {input rest : Bytes} {b : UInt8}

/-- A token behind blanks. -/
theorem takesText_start (h : afterSpaces input = b :: rest) : TakesText input (b :: rest) :=
  h ▸ takesText_spaces input

theorem takesText_token (h : afterSpaces input = b :: rest) (hLow : b < 0x80) :
    TakesText input rest :=
  (takesText_start h).trans (takesText_cons hLow rest)

/-- A document ends in blanks. -/
theorem isText_of_takesText (h : TakesText input rest) (hEnd : afterSpaces rest = []) :
    IsText input := by
  obtain ⟨front, hInput, hFront⟩ := h.trans (hEnd ▸ takesText_spaces rest)
  rwa [hInput, List.append_nil]

theorem takesText_keyword {letters : List Char} (hLow : letters.all (byte · < 0x80) = true)
    (h : keyword letters input = .ok rest) : TakesText input rest := by
  induction letters generalizing input with
  | nil =>
      cases h
      exact .refl _
  | cons c letters ih =>
      cases input with
      | nil => cases h
      | cons b input =>
          simp only [keyword] at h
          split at h
          · rename_i hb
            rw [List.all_cons, Bool.and_eq_true, decide_eq_true_eq] at hLow
            exact (takesText_cons (hb ▸ hLow.1) input).trans (ih hLow.2 h)
          · cases h

end Tokens

section Numbers

variable {isNegative : Bool} {digits : Nat} {exponent : Int} {input rest : Bytes} {n : Number}

theorem takesText_exponentValue {start value : Nat} {isOver : Bool}
    (h : exponentValue start input = (value, isOver, rest)) : TakesText input rest := by
  induction input generalizing start with
  | nil =>
      cases h
      exact .refl []
  | cons d input ih =>
      simp only [exponentValue] at h
      split at h
      · rename_i hDigit
        have hFirst := takesText_cons (lt_of_isDigit d hDigit) input
        split at h
        · exact hFirst.trans (ih h)
        · cases h
          exact hFirst
      · cases h
        exact .refl _

theorem takesText_exponentDigits {below : Bool}
    (h : exponentDigits isNegative digits exponent below input = .ok (n, rest)) :
    TakesText input rest := by
  cases input with
  | nil => cases h
  | cons d input =>
      simp only [exponentDigits] at h
      split at h
      · rename_i hDigit
        have hFirst := takesText_cons (lt_of_isDigit d hDigit) input
        split at h
        · rename_i hValue
          obtain ⟨rfl, -⟩ := floating_eq_ok h
          exact hFirst.trans (takesText_exponentValue hValue)
        · rename_i hValue
          split at h
          · cases h
          · cases h
            exact (hFirst.trans (takesText_exponentValue hValue)).trans (takesText_digits _)
      · cases h

theorem takesText_exponentPart
    (h : exponentPart isNegative digits exponent input = .ok (n, rest)) : TakesText input rest := by
  cases input with
  | nil => cases h
  | cons b input =>
      rw [exponentPart_cons] at h
      split at h
      · rename_i hPlus
        exact (takesText_cons (hPlus ▸ by decide) input).trans (takesText_exponentDigits h)
      · split at h
        · rename_i hMinus
          exact (takesText_cons (hMinus ▸ by decide) input).trans (takesText_exponentDigits h)
        · exact takesText_exponentDigits h

theorem lt_of_letter {b : UInt8} (h : (b = byte 'e' || b = byte 'E') = true) : b < 0x80 := by
  simp only [Bool.or_eq_true, decide_eq_true_eq] at h
  rcases h with rfl | rfl <;> decide

theorem takesText_afterDigits
    (h : afterDigits isNegative digits exponent input = .ok (n, rest)) : TakesText input rest := by
  cases input with
  | nil =>
      obtain ⟨rfl, -⟩ := floating_eq_ok h
      exact .refl []
  | cons b input =>
      simp only [afterDigits] at h
      split at h
      · rename_i hLetter
        exact (takesText_cons (lt_of_letter hLetter) input).trans (takesText_exponentPart h)
      · obtain ⟨rfl, -⟩ := floating_eq_ok h
        exact .refl _

theorem takesText_fractionPart
    (h : fractionPart isNegative digits exponent input = .ok (n, rest)) : TakesText input rest := by
  simp only [fractionPart] at h
  split at h
  · cases h
  · exact (takesText_digits input).trans (takesText_afterDigits h)

theorem takesText_shortNumber (h : shortNumber isNegative digits input = .ok (n, rest)) :
    TakesText input rest := by
  cases input with
  | nil =>
      obtain ⟨rfl, -⟩ := wholeNumber_eq_ok isNegative digits h
      exact .refl []
  | cons b input =>
      rw [shortNumber_cons] at h
      split at h
      · rename_i hPoint
        exact (takesText_cons (hPoint ▸ by decide) input).trans (takesText_fractionPart h)
      · split at h
        · rename_i hLetter
          exact (takesText_cons (lt_of_letter hLetter) input).trans (takesText_exponentPart h)
        · obtain ⟨rfl, -⟩ := wholeNumber_eq_ok isNegative digits h
          exact .refl _

theorem takesText_longNumber {excess : Nat}
    (h : longNumber isNegative digits excess input = .ok (n, rest)) : TakesText input rest := by
  cases input with
  | nil =>
      obtain ⟨rfl, -⟩ := floating_eq_ok h
      exact .refl []
  | cons b input =>
      rw [longNumber_cons] at h
      split at h
      · rename_i hPoint
        exact (takesText_cons (hPoint ▸ by decide) input).trans (takesText_fractionPart h)
      · exact takesText_afterDigits h

theorem textual_readNumber (isNegative : Bool) : Textual (readNumber isNegative) := by
  intro input n rest h
  cases input with
  | nil => cases h
  | cons d input =>
      simp only [readNumber] at h
      split at h
      · rename_i hZero
        have hFirst := takesText_cons (hZero ▸ by decide : d < 0x80) input
        split at h
        · split at h
          · cases h
          · exact hFirst.trans (takesText_shortNumber h)
        · exact hFirst.trans (takesText_shortNumber h)
      · split at h
        · split at h
          · exact (takesText_digits _).trans (takesText_shortNumber h)
          · exact (takesText_digits _).trans (takesText_longNumber h)
        · cases h

end Numbers

section Strings

variable {input rest : Bytes}

theorem lt_of_hexValue? {b : UInt8} {n : Nat} (h : hexValue? b = some n) : b < 0x80 := by
  have hLast {c : Char} (hc : byte c < 0x80) (hLe : b ≤ byte c) : b < 0x80 :=
    UInt8.lt_of_le_of_lt hLe hc
  simp only [hexValue?] at h
  split at h
  · rename_i hDigit
    exact lt_of_isDigit b hDigit
  · split at h
    · rename_i hLetter
      simp only [Bool.and_eq_true, decide_eq_true_eq] at hLetter
      exact hLast (by decide) hLetter.2
    · split at h
      · rename_i hLetter
        simp only [Bool.and_eq_true, decide_eq_true_eq] at hLetter
        exact hLast (by decide) hLetter.2
      · cases h

theorem takesText_hexEscape {n : Nat} (h : hexEscape input = .ok (n, rest)) :
    TakesText input rest := by
  match input with
  | [] | [_] | [_, _] | [_, _, _] => cases h
  | a :: b :: c :: d :: behind =>
      simp only [hexEscape] at h
      split at h
      · rename_i ha hb hc hd
        cases h
        refine ⟨[a, b, c, d], rfl, isText_of_ascii ?_⟩
        simp only [List.forall_mem_cons, List.not_mem_nil, false_implies, implies_true, and_true]
        exact ⟨lt_of_hexValue? ha, lt_of_hexValue? hb, lt_of_hexValue? hc, lt_of_hexValue? hd⟩
      · cases h

theorem takesText_pairByte {c : Char} (hLow : byte c < 0x80) (h : pairByte c input = .ok rest) :
    TakesText input rest := by
  cases input with
  | nil => cases h
  | cons b input =>
      simp only [pairByte] at h
      split at h
      · rename_i hb
        cases h
        exact takesText_cons (hb ▸ hLow) _
      · cases h

theorem textual_unicodeEscape : Textual unicodeEscape := by
  intro input c rest h
  obtain ⟨⟨n, behind⟩, hHigh, h⟩ := bind_eq_ok h
  have hFirst := takesText_hexEscape hHigh
  simp only at h
  split at h
  · cases h
  · split at h
    · cases h
      exact hFirst
    · obtain ⟨behindSlash, hSlash, h⟩ := bind_eq_ok h
      obtain ⟨behindLetter, hLetter, h⟩ := bind_eq_ok h
      obtain ⟨⟨low, last⟩, hLow, h⟩ := bind_eq_ok h
      have hPair := (takesText_pairByte (by decide) hSlash).trans
        (takesText_pairByte (by decide) hLetter)
      simp only at h
      split at h
      · cases h
      · obtain rfl : last = rest := congrArg Prod.snd (Except.ok.inj h)
        exact (hFirst.trans hPair).trans (takesText_hexEscape hLow)

theorem letterEscape?_eq_some {b value : UInt8} (h : letterEscape? b = some value) :
    b < 0x80 ∧ value < 0x80 := by
  simp only [letterEscape?] at h
  split_ifs at h with hSame hBack hFeed hLine hReturn hTab
  all_goals cases h
  · simp only [Bool.or_eq_true, decide_eq_true_eq] at hSame
    rcases hSame with (rfl | rfl) | rfl <;> decide
  · exact ⟨hBack ▸ by decide, by decide⟩
  · exact ⟨hFeed ▸ by decide, by decide⟩
  · exact ⟨hLine ▸ by decide, by decide⟩
  · exact ⟨hReturn ▸ by decide, by decide⟩
  · exact ⟨hTab ▸ by decide, by decide⟩

/-- An escape stands for one character. -/
theorem readEscape_eq_ok {bytes : Bytes} (h : readEscape input = .ok (bytes, rest)) :
    TakesText input rest ∧ ∃ c, bytes = encode [c] := by
  cases input with
  | nil => cases h
  | cons b input =>
      simp only [readEscape] at h
      split at h
      · rename_i hb
        obtain ⟨⟨c, behind⟩, hUnicode, h⟩ := bind_eq_ok h
        cases h
        refine ⟨(takesText_cons (hb ▸ by decide) input).trans
          (textual_unicodeEscape _ _ _ hUnicode), c, ?_⟩
        exact utf8_toString c
      · split at h
        · rename_i value hLetter
          cases h
          obtain ⟨hb, hValue⟩ := letterEscape?_eq_some hLetter
          exact ⟨takesText_cons hb _, _, (encode_ofUInt8 hValue).symm⟩
        · cases h

/-- The bytes of a string as they are written, and as they are read. -/
inductive Unescapes : Bytes → Bytes → Prop where
  | nil : Unescapes [] []
  | plain {written bytes : Bytes} (b : UInt8) (h : Unescapes written bytes) :
      Unescapes (b :: written) (b :: bytes)
  | escape {front written bytes : Bytes} (hFront : IsText front) (c : Char)
      (h : Unescapes written bytes) : Unescapes (front ++ written) (encode [c] ++ bytes)

/-- What is read as a text is written as one. `front` is the part of a character that was read. -/
theorem Unescapes.isText {written bytes : Bytes} (h : Unescapes written bytes) {front : Bytes}
    (hText : IsText (front ++ bytes)) : IsText (front ++ written) := by
  induction h generalizing front with
  | nil => exact hText
  | @plain written bytes b h ih =>
      have hMoved := @ih (front ++ [b]) (by simpa using hText)
      simpa using hMoved
  | @escape escaped written bytes hEscaped c h ih =>
      rw [← List.append_assoc] at hText
      obtain ⟨hFront, hBehind⟩ := hText.around c
      exact hFront.append (hEscaped.append (@ih [] hBehind))

theorem stringFrom_eq_ok {rounds : Nat} {done : Bytes} {text : Option String}
    (h : stringFrom rounds done input = .ok (text, rest)) :
    ∃ written bytes, input = written ++ byte '"' :: rest ∧ Unescapes written bytes ∧
      text = ofUtf8? (done.reverse ++ bytes) := by
  induction rounds generalizing done input with
  | zero => cases input <;> cases h
  | succ rounds ih =>
      cases input with
      | nil => cases h
      | cons b input =>
          simp only [stringFrom] at h
          split at h
          · rename_i hQuote
            cases h
            exact ⟨[], [], by rw [hQuote]; rfl, .nil, by rw [List.append_nil]⟩
          · split at h
            · rename_i hBackslash
              obtain ⟨⟨escaped, behind⟩, hEscape, h⟩ := bind_eq_ok h
              obtain ⟨⟨front, rfl, hFront⟩, c, rfl⟩ := readEscape_eq_ok hEscape
              obtain ⟨written, bytes, rfl, hUnescapes, hText⟩ := ih h
              have hWhole : IsText (b :: front) :=
                IsText.append (isText_of_ascii (List.forall_mem_singleton.mpr
                  (hBackslash ▸ by decide))) hFront
              refine ⟨b :: front ++ written, encode [c] ++ bytes, by simp,
                .escape hWhole c hUnescapes, ?_⟩
              simpa using hText
            · split at h
              · cases h
              · obtain ⟨written, bytes, rfl, hUnescapes, hText⟩ := ih h
                exact ⟨b :: written, b :: bytes, rfl, .plain b hUnescapes, by simpa using hText⟩

theorem textual_readString : Textual readString := by
  intro input text rest h
  simp only [readString] at h
  split at h
  · rename_i found hFound
    cases h
    obtain ⟨written, bytes, rfl, hUnescapes, hText⟩ := stringFrom_eq_ok hFound
    have hBytes : IsText bytes := isText_iff.mpr ⟨_, hText.symm⟩
    have hWritten : IsText written := @Unescapes.isText _ _ hUnescapes [] hBytes
    refine TakesText.trans ⟨written, rfl, hWritten⟩ (takesText_cons (by decide) _)
  · cases h
  · cases h

end Strings

section Containers

variable {α σ : Type} {input rest : Bytes}

theorem takesText_nextItem {item : Reader α} (hItem : Textual item) {first : Bool} {x : Option α}
    (h : nextItem item first input = .ok (x, rest)) : TakesText input rest := by
  rcases nextItem_cases h with
    ⟨-, rfl⟩ | ⟨y, start, -, hRead, rfl | ⟨behind, hComma, rfl⟩⟩
  · exact takesText_spaces input
  · exact (takesText_spaces input).trans (hItem _ _ _ hRead)
  · have hFirst := takesText_token hComma (by decide)
    exact (hFirst.trans (takesText_spaces behind)).trans (hItem _ _ _ hRead)

theorem textual_readItems {item : Reader α} (hItem : Textual item) (rounds : Nat) (first : Bool) :
    Textual (readItems item rounds first) := by
  intro input items rest h
  induction rounds generalizing first input items with
  | zero => cases h
  | succ rounds ih =>
      obtain ⟨⟨x, behind⟩, hNext, h⟩ := bind_eq_ok h
      have hFirst := takesText_nextItem hItem hNext
      cases x with
      | none =>
          cases h
          exact hFirst
      | some x =>
          obtain ⟨⟨xs, last⟩, hMore, h⟩ := bind_eq_ok h
          cases h
          exact hFirst.trans (ih false _ _ hMore)

theorem takesText_closeList (h : closeList input = .ok rest) : TakesText input rest := by
  simp only [closeList] at h
  split at h
  · cases h
  · rename_i b behind hToken
    split at h
    · rename_i hClosing
      cases h
      exact takesText_token hToken (hClosing ▸ by decide)
    · split at h
      · split at h <;> cases h
      · cases h

theorem takesText_colon (h : colon input = .ok rest) : TakesText input rest := by
  simp only [colon] at h
  split at h
  · cases h
  · rename_i b behind hToken
    split at h
    · rename_i hColon
      cases h
      exact takesText_token hToken (hColon ▸ by decide)
    · cases h

theorem takesText_closeObject (h : closeObject input = .ok rest) : TakesText input rest := by
  simp only [closeObject] at h
  split at h
  · cases h
  · rename_i b behind hToken
    split at h
    · rename_i hClosing
      cases h
      exact takesText_token hToken (hClosing ▸ by decide)
    · cases h

/-- The name of the next field, behind its quote, or the closing brace. -/
theorem takesText_nextName {first : Bool} {start : Option Bytes}
    (h : nextName first input = .ok (start, rest)) :
    TakesText input (start.getD rest) := by
  simp only [nextName] at h
  split at h
  · cases h
  · rename_i b behind hToken
    split_ifs at h with hClosing hFirst hQuote hComma
    · cases h
      exact takesText_start hToken
    · cases h
      exact takesText_token hToken (hQuote ▸ by decide)
    · split at h
      · cases h
      · rename_i next after hNext
        split_ifs at h with hQuote
        cases h
        exact (takesText_token hToken (hComma ▸ by decide)).trans
          (takesText_token hNext (hQuote ▸ by decide))

theorem textual_foldFields {field : σ → String → Reader σ}
    (hField : ∀ s name, Textual (field s name)) (rounds : Nat) (first : Bool) (s : σ) :
    Textual (foldFields field rounds first s) := by
  intro input last rest h
  induction rounds generalizing first s input with
  | zero => cases h
  | succ rounds ih =>
      obtain ⟨⟨start, behind⟩, hNext, h⟩ := bind_eq_ok h
      have hFirst := takesText_nextName hNext
      cases start with
      | none =>
          cases h
          exact hFirst
      | some start =>
          obtain ⟨⟨name, behindName⟩, hName, h⟩ := bind_eq_ok h
          obtain ⟨⟨next, behindField⟩, hRead, h⟩ := bind_eq_ok h
          have hRest := (hField _ _ _ _ _ hRead).trans (ih _ _ _ h)
          exact (hFirst.trans (textual_readString _ _ _ hName)).trans hRest

theorem textual_anyField {value : Reader Json} (hValue : Textual value) (fields : Fields)
    (name : String) : Textual (anyField value fields name) := by
  intro input next rest h
  obtain ⟨behind, hColon, h⟩ := bind_eq_ok h
  obtain ⟨⟨v, last⟩, hRead, h⟩ := bind_eq_ok h
  cases h
  exact (takesText_colon hColon).trans (hValue _ _ _ hRead)

end Containers

section Values

variable {α σ : Type}

theorem textual_valueWith {inner : Option (Reader Json)}
    (hInner : ∀ value, inner = some value → Textual value) : Textual (valueWith inner) := by
  intro input x rest h
  cases takesValue_of_valueWith h with
  | null hStart hKeyword =>
      exact (takesText_token hStart (by decide)).trans (takesText_keyword (by decide) hKeyword)
  | yes hStart hKeyword =>
      exact (takesText_token hStart (by decide)).trans (takesText_keyword (by decide) hKeyword)
  | no hStart hKeyword =>
      exact (takesText_token hStart (by decide)).trans (takesText_keyword (by decide) hKeyword)
  | negative hStart hNumber =>
      exact (takesText_token hStart (by decide)).trans (textual_readNumber _ _ _ _ hNumber)
  | positive hStart hNumber =>
      exact (takesText_start hStart).trans (textual_readNumber _ _ _ _ hNumber)
  | string hStart hString =>
      exact (takesText_token hStart (by decide)).trans (textual_readString _ _ _ hString)
  | array hSome hStart hItems hClose =>
      have hInside := textual_readItems (hInner _ hSome) _ _ _ _ _ hItems
      exact ((takesText_token hStart (by decide)).trans hInside).trans (takesText_closeList hClose)
  | object hSome hStart hFields hClose =>
      have hInside := textual_foldFields (textual_anyField (hInner _ hSome)) _ _ _ _ _ _ hFields
      exact ((takesText_token hStart (by decide)).trans hInside).trans (takesText_closeObject hClose)

theorem textual_readValue (depth : Nat) : Textual (readValue depth) := by
  induction depth with
  | zero => exact textual_valueWith fun _ hNone => by cases hNone
  | succ depth ih =>
      refine textual_valueWith fun value hValue => ?_
      cases hValue
      exact ih

/-- A document of a reader that takes text is a text. -/
theorem isText_of_runReader {reader : Reader α} (hReader : Textual reader) {input : Bytes} {x : α}
    (h : runReader reader input = .ok x) : IsText input := by
  obtain ⟨rest, hRead, hEnd⟩ := runReader_eq_ok h
  exact isText_of_takesText (hReader _ _ _ hRead) hEnd

/-- A document with a value is a text. -/
theorem isText_of_parse {input : Bytes} {value : Json} (h : parse input = .ok value) :
    IsText input :=
  isText_of_runReader (textual_readValue maxDepth) h

namespace Decoder

theorem textual_string (depth : Nat) : Textual (string depth) := by
  intro input text rest h
  simp only [string] at h
  split at h
  · rename_i b behind hToken
    split at h
    · rename_i hQuote
      exact (takesText_token hToken (hQuote ▸ by decide)).trans (textual_readString _ _ _ h)
    · cases h
  · cases h

theorem textual_natural (bound : Nat) (name : String) (depth : Nat) :
    Textual (natural bound name depth) := by
  intro input n rest h
  unfold natural at h
  extract_lets take at h
  have hTake {isNegative : Bool} {digits : Bytes} (h : take isNegative digits = .ok (n, rest)) :
      TakesText digits rest := by
    obtain ⟨⟨number, last⟩, hNumber, h⟩ := bind_eq_ok h
    have hFirst := textual_readNumber _ _ _ _ hNumber
    cases number with
    | integer m =>
        simp only at h
        split at h
        · cases h
          exact hFirst
        · cases h
    | float x => cases h
  split at h
  · rename_i b behind hToken
    split at h
    · rename_i hMinus
      exact (takesText_token hToken (hMinus ▸ by decide)).trans (hTake h)
    · split at h
      · exact (takesText_start hToken).trans (hTake h)
      · cases h
  · cases h

theorem textual_optional {value : Decoder α} {depth : Nat} (hValue : Textual (value depth)) :
    Textual (optional value depth) := by
  intro input x rest h
  simp only [optional] at h
  split at h
  · rename_i b behind hToken
    split at h
    · rename_i hb
      obtain ⟨last, hKeyword, h⟩ := bind_eq_ok h
      cases h
      exact (takesText_token hToken (hb ▸ by decide)).trans
        (takesText_keyword (by decide) hKeyword)
    · obtain ⟨⟨y, last⟩, hRead, h⟩ := bind_eq_ok h
      cases h
      exact (takesText_start hToken).trans (hValue _ _ _ hRead)
  · rename_i hEnd
    obtain ⟨⟨y, last⟩, hRead, h⟩ := bind_eq_ok h
    cases h
    exact (hEnd ▸ takesText_spaces input).trans (hValue _ _ _ hRead)

theorem textual_container {opening : Char} (hLow : byte opening < 0x80) (expected : String)
    {content : Decoder α} (hContent : ∀ depth, Textual (content depth)) (depth : Nat) :
    Textual (container opening expected content depth) := by
  intro input x rest h
  simp only [container] at h
  split at h
  · rename_i b behind hToken
    split at h
    · rename_i hOpening
      cases depth with
      | zero => cases h
      | succ depth =>
          exact (takesText_token hToken (hOpening ▸ hLow)).trans (hContent depth _ _ _ h)
    · cases h
  · cases h

theorem textual_list {item : Decoder α} (hItem : ∀ depth, Textual (item depth)) (depth : Nat) :
    Textual (list item depth) := by
  refine textual_container (by decide) "a sequence" (fun depth input items rest h => ?_) depth
  obtain ⟨⟨found, middle⟩, hItems, h⟩ := bind_eq_ok h
  obtain ⟨last, hClose, h⟩ := bind_eq_ok h
  cases h
  exact (textual_readItems (hItem depth) _ _ _ _ _ hItems).trans (takesText_closeList hClose)

theorem textual_map (depth : Nat) : Textual (map depth) := by
  refine textual_container (by decide) "a map" (fun depth input fields rest h => ?_) depth
  obtain ⟨⟨found, middle⟩, hFields, h⟩ := bind_eq_ok h
  obtain ⟨last, hClose, h⟩ := bind_eq_ok h
  cases h
  have hInside := textual_foldFields (textual_anyField (textual_readValue depth)) _ _ _ _ _ _
    hFields
  exact hInside.trans (takesText_closeObject hClose)

theorem textual_once {value : Decoder α} {depth : Nat} (hValue : Textual (value depth))
    (name : String) (seen : Option α) : Textual (once name seen value depth) := by
  intro input x rest h
  simp only [once] at h
  split at h
  · cases h
  · obtain ⟨behind, hColon, h⟩ := bind_eq_ok h
    obtain ⟨⟨y, last⟩, hRead, h⟩ := bind_eq_ok h
    cases h
    exact (takesText_colon hColon).trans (hValue _ _ _ hRead)

theorem textual_fields {initial : σ} {field : (depth : Nat) → σ → String → Reader σ}
    (hField : ∀ depth s name, Textual (field depth s name)) (build : σ → Except Cause α)
    (depth : Nat) : Textual (fields initial field build depth) := by
  intro input x rest h
  obtain ⟨⟨last, behind⟩, hFields, h⟩ := bind_eq_ok h
  simp only at h
  split at h
  · cases h
  · obtain ⟨behindClosing, hClose, h⟩ := bind_eq_ok h
    cases h
    exact (textual_foldFields (hField depth) _ _ _ _ _ _ hFields).trans
      (takesText_closeObject hClose)

end Decoder

end Values

end PolicyBundle.Json
