import PolicyBundle.Text.Blank
import PolicyBundle.Text.Lines
import Mathlib.Data.List.TakeWhile

/-! Texts put together from lines fall apart into these lines again, and a change within a line is a
change of that line alone. A line that ends with a carriage return keeps it only if the ending behind
it has one of its own. -/

namespace PolicyBundle.Text

/-- A line without the carriage return at its end, if it has one. -/
def dropReturn (line : List Char) : List Char :=
  closeLine line.reverse

@[simp] theorem dropReturn_concat_return (line : List Char) :
    dropReturn (line ++ ['\r']) = line := by
  rw [dropReturn, List.reverse_append]
  exact List.reverse_reverse line

theorem dropReturn_of_getLast? {line : List Char} (h : line.getLast? ≠ some '\r') :
    dropReturn line = line := by
  rw [dropReturn]
  cases hReverse : line.reverse with
  | nil => rw [← List.reverse_reverse line, hReverse]; rfl
  | cons c rest =>
      have hLast : line = rest.reverse ++ [c] := by
        rw [← List.reverse_reverse line, hReverse, List.reverse_cons]
      have hOther : c ≠ '\r' := by
        rintro rfl
        exact h (by rw [hLast, List.getLast?_concat])
      rw [closeLine.eq_2 _ (by simpa using hOther), List.reverse_cons, hLast]

/-- A line is what it is without the return, or that and the return. -/
theorem eq_dropReturn_or (line : List Char) :
    line = dropReturn line ∨ line = dropReturn line ++ ['\r'] := by
  by_cases hLast : line.getLast? = some '\r'
  · right
    obtain ⟨start, rfl⟩ := List.getLast?_eq_some_iff.mp hLast
    rw [dropReturn_concat_return]
  · exact Or.inl (dropReturn_of_getLast? hLast).symm

theorem dropReturn_append (line : List Char) {rest : List Char} (hRest : rest ≠ []) :
    dropReturn (line ++ rest) = line ++ dropReturn rest := by
  obtain ⟨start, c, rfl⟩ := (List.eq_nil_or_concat rest).resolve_left hRest
  rw [List.concat_eq_append, ← List.append_assoc]
  by_cases hReturn : c = '\r'
  · rw [hReturn, dropReturn_concat_return, dropReturn_concat_return]
  · have hLast (text : List Char) : (text ++ [c]).getLast? ≠ some '\r' := by
      simpa using hReturn
    rw [dropReturn_of_getLast? (hLast _), dropReturn_of_getLast? (hLast _), List.append_assoc]

theorem linesFrom_append {line : List Char} (hLine : '\n' ∉ line) (begun rest : List Char) :
    linesFrom begun (line ++ '\n' :: rest) =
      closeLine (line.reverse ++ begun) :: linesFrom [] rest := by
  induction line generalizing begun with
  | nil => rw [List.nil_append, linesFrom, if_pos rfl, List.reverse_nil, List.nil_append]
  | cons c line ih =>
      have hFirst : c ≠ '\n' := fun h => hLine (h ▸ List.mem_cons_self)
      have hRest : '\n' ∉ line := fun h => hLine (List.mem_cons_of_mem _ h)
      rw [List.cons_append, linesFrom, if_neg hFirst, ih hRest, List.reverse_cons,
        List.append_assoc, List.singleton_append]

theorem linesFrom_of_not_mem {line : List Char} (hLine : '\n' ∉ line) {begun : List Char}
    (hSome : begun.reverse ++ line ≠ []) : linesFrom begun line = [begun.reverse ++ line] := by
  induction line generalizing begun with
  | nil =>
      cases begun with
      | nil => exact absurd rfl hSome
      | cons c begun => rw [linesFrom, List.append_nil]
  | cons c line ih =>
      have hFirst : c ≠ '\n' := fun h => hLine (h ▸ List.mem_cons_self)
      have hRest : '\n' ∉ line := fun h => hLine (List.mem_cons_of_mem _ h)
      rw [linesFrom, if_neg hFirst, ih hRest (by simp), List.reverse_cons, List.append_assoc,
        List.singleton_append]

/-- Lines that are ended by line feeds lose a carriage return at their end, whatever follows. -/
theorem lines_flatMap_append {parts : List (List Char)} (hParts : ∀ p ∈ parts, '\n' ∉ p)
    (last : List Char) :
    lines ((parts.flatMap fun p => p ++ ['\n']) ++ last) = parts.map dropReturn ++ lines last := by
  induction parts with
  | nil => rfl
  | cons p parts ih =>
      have hRest := ih fun q hq => hParts q (List.mem_cons_of_mem _ hq)
      rw [lines] at hRest ⊢
      rw [List.flatMap_cons, List.append_assoc, List.append_assoc, List.singleton_append,
        linesFrom_append (hParts p List.mem_cons_self), hRest, List.append_nil, List.map_cons,
        dropReturn, List.cons_append]

/-- Lines that are ended by line feeds lose a carriage return at their end. -/
theorem lines_flatMap_feed {parts : List (List Char)} (hParts : ∀ p ∈ parts, '\n' ∉ p) :
    lines (parts.flatMap fun p => p ++ ['\n']) = parts.map dropReturn := by
  have hLines := lines_flatMap_append hParts []
  rw [List.append_nil] at hLines
  rw [hLines]
  exact List.append_nil _

/-- Lines that are ended by a carriage return and a line feed stay as they are. -/
theorem lines_flatMap_return {parts : List (List Char)} (hParts : ∀ p ∈ parts, '\n' ∉ p) :
    lines (parts.flatMap fun p => p ++ ['\r', '\n']) = parts := by
  have hReturns : ∀ p ∈ parts.map (· ++ ['\r']), '\n' ∉ p := by
    intro p hp
    obtain ⟨q, hq, rfl⟩ := List.mem_map.mp hp
    simpa using hParts q hq
  have hSame : (parts.flatMap fun p => p ++ ['\r', '\n']) =
      (parts.map (· ++ ['\r'])).flatMap fun p => p ++ ['\n'] := by
    simp [List.flatMap_map]
  rw [hSame, lines_flatMap_feed hReturns, List.map_map]
  simp [Function.comp_def]

theorem not_mem_of_mem_linesFrom {begun text line : List Char} (hBegun : '\n' ∉ begun)
    (h : line ∈ linesFrom begun text) : '\n' ∉ line := by
  induction text generalizing begun with
  | nil =>
      cases begun with
      | nil => cases h
      | cons c begun =>
          rw [linesFrom, List.mem_singleton] at h
          rwa [h, List.mem_reverse]
  | cons c rest ih =>
      have hClosed : '\n' ∉ closeLine begun := by
        rcases eq_dropReturn_or begun.reverse with hSame | hSame
        · rw [dropReturn, List.reverse_reverse] at hSame
          rwa [← hSame, List.mem_reverse]
        · rw [dropReturn, List.reverse_reverse] at hSame
          intro hMem
          apply hBegun
          rw [← List.mem_reverse, hSame]
          exact List.mem_append_left _ hMem
      rw [linesFrom.eq_3] at h
      by_cases hFeed : c = '\n'
      · rw [if_pos hFeed] at h
        rcases List.mem_cons.mp h with rfl | h
        · exact hClosed
        · exact ih List.not_mem_nil h
      · rw [if_neg hFeed] at h
        exact ih (by simpa [hBegun] using fun h => hFeed h.symm) h

/-- No line has a line feed in it. -/
theorem not_mem_of_mem_lines {text line : List Char} (h : line ∈ lines text) : '\n' ∉ line :=
  not_mem_of_mem_linesFrom List.not_mem_nil h

/-- A text falls into lines with their line feeds and what stands behind the last feed. -/
theorem exists_parts (text : List Char) : ∃ (parts : List (List Char)) (last : List Char),
    text = (parts.flatMap fun p => p ++ ['\n']) ++ last ∧ (∀ p ∈ parts, '\n' ∉ p) ∧
      '\n' ∉ last := by
  induction text with
  | nil => exact ⟨[], [], rfl, by simp, by simp⟩
  | cons c text ih =>
      obtain ⟨parts, last, hText, hParts, hLast⟩ := ih
      by_cases hFeed : c = '\n'
      · refine ⟨[] :: parts, last, ?_, ?_, hLast⟩
        · rw [hText, hFeed]
          rfl
        · simpa using hParts
      · cases parts with
        | nil =>
            refine ⟨[], c :: last, ?_, by simp, ?_⟩
            · rw [hText]
              rfl
            · simpa [hLast] using Ne.symm hFeed
        | cons p parts =>
            refine ⟨(c :: p) :: parts, last, ?_, ?_, hLast⟩
            · rw [hText]
              rfl
            · simp only [List.forall_mem_cons] at hParts ⊢
              exact ⟨by simpa [hParts.1] using Ne.symm hFeed, hParts.2⟩

/-- The lines of two texts, the first of which has its last line ended. -/
theorem lines_append {front : List Char} (hFront : front = [] ∨ front.getLast? = some '\n')
    (back : List Char) : lines (front ++ back) = lines front ++ lines back := by
  obtain ⟨parts, last, rfl, hParts, hLast⟩ := exists_parts front
  have hNil : last = [] := by
    rcases hFront with hFront | hFront
    · exact (List.append_eq_nil_iff.mp hFront).2
    · rcases List.eq_nil_or_concat last with hNil | ⟨start, c, rfl⟩
      · exact hNil
      · rw [List.concat_eq_append, ← List.append_assoc, List.getLast?_concat] at hFront
        cases hFront
        exact absurd (by simp) hLast
  rw [hNil, List.append_nil, lines_flatMap_append hParts, lines_flatMap_feed hParts]

/-- How a line ends that is written as some text and what follows it up to the line feed: a return
at the end of the text goes with the feed if nothing is between them. -/
def EndsAs (text rest kept : List Char) : Prop :=
  kept = text ++ rest ∨ rest = [] ∧ text = kept ++ ['\r']

/-- What stands behind a part of a line is the rest of the line and the lines below, whatever the
part is. -/
theorem exists_lines_behind (behind : List Char) : ∃ rest below, ∀ front text, text ≠ [] →
    '\n' ∉ front → '\n' ∉ text → ∃ kept, EndsAs text rest kept ∧
      lines (front ++ (text ++ behind)) = (front ++ kept) :: below := by
  by_cases hFeed : '\n' ∈ behind
  · obtain ⟨rest, below, rfl, hRest⟩ := List.eq_append_cons_of_mem hFeed
    refine ⟨dropReturn rest, lines below, ?_⟩
    intro front text hSome hFront hText
    have hLine : '\n' ∉ front ++ (text ++ rest) := by
      simp [hFront, hText, hRest]
    have hLines : lines (front ++ (text ++ (rest ++ '\n' :: below))) =
        dropReturn (front ++ (text ++ rest)) :: lines below := by
      have hSplit := linesFrom_append hLine [] below
      rw [List.append_nil] at hSplit
      simpa [lines, dropReturn] using hSplit
    rw [hLines, dropReturn_append front (by simp [hSome])]
    refine ⟨dropReturn (text ++ rest), ?_, rfl⟩
    by_cases hNil : rest = []
    · rw [hNil, List.append_nil]
      rcases eq_dropReturn_or text with hSame | hReturn
      · exact Or.inl (by rw [← hSame]; exact (List.append_nil _).symm)
      · exact Or.inr ⟨rfl, hReturn⟩
    · exact Or.inl (dropReturn_append text hNil)
  · refine ⟨behind, [], ?_⟩
    intro front text hSome hFront hText
    refine ⟨text ++ behind, Or.inl rfl, ?_⟩
    rw [lines, linesFrom_of_not_mem (by simp [hFront, hText, hFeed]) (by simp [hSome])]
    rfl

/-- A carriage return at the end is a blank like others. -/
theorem trim_concat_return (line : List Char) : trim (line ++ ['\r']) = trim line := by
  rw [trim, trim, dropEnds, dropEnds, List.dropWhile_append]
  by_cases hBlank : (line.dropWhile isBlank).isEmpty
  · rw [if_pos hBlank, List.isEmpty_iff.mp hBlank]
    rfl
  · rw [if_neg hBlank, List.reverse_append, List.reverse_singleton, List.singleton_append,
      List.dropWhile_cons_of_pos (by decide)]

theorem trim_indent {indent : List Char} (hIndent : ∀ c ∈ indent, isBlank c = true)
    (text : List Char) : trim (indent ++ text) = trim text := by
  rw [trim, trim, dropEnds, dropEnds, List.dropWhile_append_of_pos hIndent]

/-- A text has blanks around what is left when it is trimmed. -/
theorem exists_blanks_trim (text : List Char) : ∃ left right, text = left ++ (trim text ++ right) ∧
    (∀ c ∈ left, isBlank c = true) ∧ ∀ c ∈ right, isBlank c = true := by
  have hEnd := List.takeWhile_append_dropWhile (p := isBlank)
    (l := (text.dropWhile isBlank).reverse)
  refine ⟨text.takeWhile isBlank, ((text.dropWhile isBlank).reverse.takeWhile isBlank).reverse,
    ?_, fun c => List.mem_takeWhile_imp, fun c hc => ?_⟩
  · rw [trim, dropEnds, ← List.reverse_append, hEnd, List.reverse_reverse,
      List.takeWhile_append_dropWhile]
  · exact List.mem_takeWhile_imp (List.mem_reverse.mp hc)

/-- Nothing is trimmed from a text in front of a character that is no blank. -/
theorem trim_append (word : List Char) (hFirst : word.dropWhile isBlank = word)
    (hLast : word.reverse.dropWhile isBlank = word.reverse) (hWord : word ≠ [])
    (text : List Char) : ∃ more, trim (word ++ text) = word ++ more ∧ more <+: text := by
  have hStart : (word ++ text).dropWhile isBlank = word ++ text := by
    rw [List.dropWhile_append, hFirst, if_neg (by simpa using hWord)]
  rw [trim, dropEnds, hStart, List.reverse_append, List.dropWhile_append]
  split
  · rw [hLast, List.reverse_reverse]
    exact ⟨[], (List.append_nil _).symm, List.nil_prefix⟩
  · rw [List.reverse_append, List.reverse_reverse]
    refine ⟨_, rfl, ?_⟩
    rw [← List.reverse_suffix, List.reverse_reverse]
    exact List.dropWhile_suffix _

theorem getLast?_trim {text : List Char} {c : Char} (hLast : text.getLast? = some c)
    (hChar : isBlank c = false) : (trim text).getLast? = some c := by
  obtain ⟨start, rfl⟩ := List.getLast?_eq_some_iff.mp hLast
  obtain ⟨kept, hKept⟩ : ∃ kept, (start ++ [c]).dropWhile isBlank = kept ++ [c] := by
    rw [List.dropWhile_append, List.dropWhile_cons_of_neg (by rw [hChar]; exact Bool.false_ne_true)]
    split
    · exact ⟨[], rfl⟩
    · exact ⟨_, rfl⟩
  rw [trim, dropEnds, hKept, List.reverse_append, List.reverse_singleton, List.singleton_append,
    List.dropWhile_cons_of_neg (by rw [hChar]; exact Bool.false_ne_true), List.reverse_cons,
    List.getLast?_concat]

theorem blank_concat_return (line : List Char) : blank (line ++ ['\r']) = blank line := by
  rw [blank, List.all_append, blank]
  have hReturn : (['\r'] : List Char).all isBlank = true := by decide
  rw [hReturn, Bool.and_true]

end PolicyBundle.Text
