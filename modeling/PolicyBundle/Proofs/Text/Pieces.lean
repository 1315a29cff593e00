import PolicyBundle.Text.Basic
import Mathlib.Data.List.TakeWhile
import Mathlib.Logic.Function.Basic

/-! Beginnings and pieces of texts as facts about lists of characters. A text is the beginning of
another one piece by piece exactly if it is the whole of it or ends in front of a separator. -/

namespace PolicyBundle.Text

theorem startsWith_iff (text start : String) :
    startsWith text start = true ↔ start.toList <+: text.toList := by
  rw [startsWith, List.isPrefixOf_iff_prefix]

theorem endsWith_iff (text ending : String) :
    endsWith text ending = true ↔ ending.toList <:+ text.toList := by
  rw [endsWith, List.isSuffixOf_iff_suffix]

/-- A text has no two endings of which neither is the ending of the other. -/
theorem endsWith_eq_false {text ending other : String} (h : endsWith text ending = true)
    (hOver : endsWith ending other = false) (hUnder : endsWith other ending = false) :
    endsWith text other = false := by
  rw [Bool.eq_false_iff, ne_eq, endsWith_iff] at hOver hUnder ⊢
  intro hOther
  rcases List.suffix_or_suffix_of_suffix ((endsWith_iff text ending).mp h) hOther with hEnds | hEnds
  · exact hUnder hEnds
  · exact hOver hEnds

theorem afterList?_eq_some_iff {start text rest : List Char} :
    afterList? start text = some rest ↔ text = start ++ rest := by
  induction start generalizing text with
  | nil => simp [afterList?]
  | cons c start ih =>
      cases text with
      | nil => simp [afterList?]
      | cons d text =>
          by_cases hEq : c = d
          · subst hEq
            simp [afterList?, ih]
          · have hNe : ¬d = c := fun h => hEq h.symm
            simp [afterList?, hEq, hNe]

/-- What follows the beginning of a text is the text without it. -/
theorem after?_eq_some_iff {start text rest : String} :
    after? start text = some rest ↔ text = start ++ rest := by
  rw [after?, Option.map_eq_some_iff]
  constructor
  · rintro ⟨chars, hChars, rfl⟩
    rw [afterList?_eq_some_iff] at hChars
    rw [← String.ofList_toList (s := text), hChars, String.ofList_append, String.ofList_toList]
  · rintro rfl
    exact ⟨rest.toList, afterList?_eq_some_iff.mpr (String.toList_append ..),
      String.ofList_toList⟩

/-- A text is cut at a separator in front of which there is no other. -/
theorem cutFirst?_eq_some_iff {separator : Char} {text before after : List Char} :
    cutFirst? separator text = some (before, after) ↔
      text = before ++ separator :: after ∧ separator ∉ before := by
  induction text generalizing before with
  | nil => simp [cutFirst?]
  | cons c rest ih =>
      rw [cutFirst?]
      by_cases hHere : c = separator
      · rw [if_pos hHere, hHere]
        constructor
        · intro h
          cases h
          exact ⟨rfl, List.not_mem_nil⟩
        · rintro ⟨hText, hNone⟩
          cases before with
          | nil => simpa using hText
          | cons d before =>
              rw [List.cons_append, List.cons.injEq] at hText
              exact absurd (hText.1 ▸ List.mem_cons_self) hNone
      · rw [if_neg hHere, Option.map_eq_some_iff]
        constructor
        · rintro ⟨⟨front, behind⟩, hCut, hEq⟩
          cases hEq
          obtain ⟨rfl, hNone⟩ := ih.mp hCut
          exact ⟨rfl, by simp [hNone, Ne.symm hHere]⟩
        · rintro ⟨hText, hNone⟩
          cases before with
          | nil =>
              rw [List.nil_append, List.cons.injEq] at hText
              exact absurd hText.1 hHere
          | cons d before =>
              rw [List.cons_append, List.cons.injEq] at hText
              obtain ⟨rfl, hRest⟩ := hText
              have hOther : separator ∉ before := fun h => hNone (List.mem_cons_of_mem _ h)
              exact ⟨(before, after), ih.mpr ⟨hRest, hOther⟩, rfl⟩

theorem replace_of_notMem {old new : Char} {text : String} (h : old ∉ text.toList) :
    replace old new text = text := by
  have hSame : ∀ c ∈ text.toList, (if c = old then new else c) = c := by
    intro c hc
    exact if_neg fun hEq : c = old => h (hEq ▸ hc)
  rw [replace, List.map_congr_left hSame, List.map_id', String.ofList_toList]

theorem notMem_replace {old new : Char} (hOther : new ≠ old) (text : String) :
    old ∉ (replace old new text).toList := by
  rw [replace, String.toList_ofList, List.mem_map]
  rintro ⟨c, -, hEq⟩
  split at hEq
  · exact hOther hEq
  · rename_i hNe
    exact hNe hEq

/-- What stands around a word is dropped from it, if the word itself begins and ends with something
else. -/
theorem dropEnds_around {class? : Char → Bool} {left word right : List Char}
    (hLeft : ∀ c ∈ left, class? c = true) (hRight : ∀ c ∈ right, class? c = true)
    (hFirst : ∀ c ∈ word.head?, class? c = false) (hLast : ∀ c ∈ word.getLast?, class? c = false) :
    dropEnds class? (left ++ (word ++ right)) = word := by
  have hReverse : ∀ c ∈ right.reverse, class? c = true :=
    fun c hc => hRight c (List.mem_reverse.mp hc)
  have hBack : word.reverse.dropWhile class? = word.reverse := by
    rw [List.dropWhile_eq_self_iff]
    intro hSome
    have hEnd : word.reverse[0] ∈ word.getLast? := by
      rw [List.getLast?_eq_head?_reverse, List.head?_eq_getElem?, Option.mem_def,
        List.getElem?_eq_getElem hSome]
    rw [hLast _ hEnd]
    exact Bool.false_ne_true
  rw [dropEnds, List.dropWhile_append_of_pos hLeft]
  cases word with
  | nil =>
      rw [List.nil_append, List.dropWhile_eq_nil_iff.mpr hRight]
      rfl
  | cons c rest =>
      have hStart : class? c = false := hFirst c rfl
      rw [List.cons_append, List.dropWhile_cons_of_neg (by rw [hStart]; exact Bool.false_ne_true),
        ← List.cons_append, List.reverse_append, List.dropWhile_append_of_pos hReverse, hBack,
        List.reverse_reverse]

/-- Joining two runs of pieces puts one separator between them. -/
theorem intercalate_append {α : Type} (separator : List α) {left right : List (List α)}
    (hLeft : left ≠ []) (hRight : right ≠ []) :
    separator.intercalate (left ++ right) =
      separator.intercalate left ++ separator ++ separator.intercalate right := by
  induction left with
  | nil => exact absurd rfl hLeft
  | cons piece left ih =>
      cases left with
      | nil =>
          rw [List.singleton_append, List.intercalate_cons_of_ne_nil hRight,
            List.intercalate_singleton]
      | cons next left =>
          rw [List.cons_append, List.intercalate_cons_of_ne_nil (by simp), ih (by simp),
            List.intercalate_cons_cons]
          simp only [List.append_assoc]

theorem intercalate_cons {α : Type} (separator : α) (first : List α) (rest : List (List α)) :
    [separator].intercalate (first :: rest) = first ++ rest.flatMap (separator :: ·) := by
  induction rest generalizing first with
  | nil => simp
  | cons next rest ih => simp [List.intercalate_cons_cons, ih]

theorem map_intercalate {α β : Type} (f : α → β) (separator : List α) (pieces : List (List α)) :
    (separator.intercalate pieces).map f =
      (separator.map f).intercalate (pieces.map (List.map f)) := by
  induction pieces with
  | nil => simp
  | cons first pieces ih =>
      cases pieces with
      | nil => simp
      | cons next pieces =>
          rw [List.intercalate_cons_cons, List.map_append, List.map_append, ih, List.map_cons,
            List.map_cons, List.map_cons, List.intercalate_cons_cons]

/-- Runs of pieces are joined like the joins of each of them. -/
theorem intercalate_flatMap {α β : Type} (separator : List α) {parts : List β}
    {piecesOf : β → List (List α)} (hSome : ∀ part ∈ parts, piecesOf part ≠ []) :
    separator.intercalate (parts.flatMap piecesOf) =
      separator.intercalate (parts.map fun part => separator.intercalate (piecesOf part)) := by
  induction parts with
  | nil => rfl
  | cons part parts ih =>
      obtain ⟨hPart, hRest⟩ := List.forall_mem_cons.mp hSome
      cases parts with
      | nil => simp
      | cons next parts =>
          have hMore : (next :: parts).flatMap piecesOf ≠ [] := by
            rw [List.flatMap_cons]
            exact List.append_ne_nil_of_left_ne_nil (hRest next List.mem_cons_self) _
          rw [List.flatMap_cons, intercalate_append separator hPart hMore, ih hRest, List.map_cons,
            List.map_cons, List.map_cons, List.intercalate_cons_cons]

/-- A list of pieces begins with another one exactly if the text does so, and there ends or has a
separator. -/
theorem splitOn_prefix_iff {α : Type} [DecidableEq α] (separator : α) (start text : List α) :
    start.splitOn separator <+: text.splitOn separator ↔
      text = start ∨ start ++ [separator] <+: text := by
  constructor
  · rintro ⟨more, hMore⟩
    have hText : [separator].intercalate (text.splitOn separator) = text :=
      List.intercalate_splitOn separator
    rw [← hMore] at hText
    by_cases hEnd : more = []
    · left
      rw [← hText, hEnd, List.append_nil, List.intercalate_splitOn]
    · right
      rw [intercalate_append [separator] (List.splitOn_ne_nil separator start) hEnd,
        List.intercalate_splitOn] at hText
      exact ⟨_, hText⟩
  · rintro (rfl | ⟨rest, rfl⟩)
    · exact List.prefix_rfl
    · rw [List.append_assoc, List.singleton_append, List.splitOn_append_cons_self]
      exact List.prefix_append _ _

/-- The same for texts. -/
theorem split_prefix_iff (separator : Char) (start text : String) :
    split separator start <+: split separator text ↔
      text = start ∨ start.toList ++ [separator] <+: text.toList := by
  have hInjective : Function.Injective String.ofList := fun _ _ => String.ofList_injective
  rw [split, split, List.prefix_map_iff_of_injective hInjective, splitOn_prefix_iff,
    String.toList_inj]

end PolicyBundle.Text
