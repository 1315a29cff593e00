import Mathlib.Data.List.Forall2
import PolicyBundle.Proofs.Policy.DottedNames

/-! The search for the names of a line, in two views. In positions: from left to right there is one
reference for each place where a name may begin, and it is the longest name there. And in steps: loops
that look at one position after the other, and go on behind a name once it is read. They end after no
more steps than the line has characters, with the same references. -/

namespace PolicyBundle.Policy

/-- Whether a name begins at a position of a line: an identifier does, and what stands directly in
front neither belongs to an identifier nor is a dot. -/
def BeginsName (code : List Char) (position : Nat) : Prop :=
  (∃ c ∈ code[position]?, BeginsIdentifier c) ∧
    ∀ c ∈ (code.take position).getLast?, ¬InIdentifier c ∧ c ≠ '.'

instance (code : List Char) (position : Nat) : Decidable (BeginsName code position) :=
  inferInstanceAs (Decidable (_ ∧ _))

/-- A reference that is the longest dotted name at a position of a line, and a call if a parenthesis
follows. -/
structure IsLongestAt (code : List Char) (position : Nat) (r : Reference) : Prop where
  start : r.start = position
  dotted : r.path ∈ dottedNames
  here : r.path <+: code.drop position
  longest : ∀ name ∈ dottedNames, name <+: code.drop position → name.length ≤ r.path.length
  call : r.call = true ↔ code[position + r.path.length]? = some '('

section Positions

variable {code front rest : List Char} {c : Char}

theorem drop_length_of_append_eq {α : Type} {front after text : List α}
    (h : front ++ after = text) : text.drop front.length = after := by
  rw [← h, List.drop_left' rfl]

theorem getElem?_append_cons (front rest : List Char) (c : Char) :
    (front ++ c :: rest)[front.length]? = some c := by
  rw [← List.head?_drop, List.drop_left' rfl]
  rfl

theorem beginsName_append_iff :
    BeginsName (front ++ c :: rest) front.length ↔
      (endsName front.getLast? && isIdentStart c) = true := by
  rw [BeginsName, getElem?_append_cons, List.take_left' rfl, Bool.and_eq_true, and_comm]
  refine and_congr ?_ ?_
  · cases front.getLast? with
    | none => simp [endsName]
    | some d => simp [endsName, ← isIdentChar_iff]
  · simp [isIdentStart_iff]

/-- What is read where a name begins. -/
theorem isLongestAt_dottedName (hStart : isIdentStart c = true) :
    IsLongestAt (front ++ c :: rest) front.length
      ⟨(dottedName (c :: rest)).1, (dottedName (c :: rest)).2.head? = some '(', front.length⟩ := by
  have hText := dottedName_append (c :: rest)
  have hDrop : (front ++ c :: rest).drop front.length = c :: rest := List.drop_left' rfl
  refine ⟨rfl, dottedName_mem_dottedNames hStart, ?_, ?_, ?_⟩
  · rw [hDrop]
    exact ⟨_, hText⟩
  · intro name hName hHere
    rw [hDrop] at hHere
    exact (prefix_dottedName hName hHere).length_le
  · have hAfter := drop_length_of_append_eq hText
    rw [decide_eq_true_eq, ← List.head?_drop, ← List.drop_drop, hDrop, hAfter]

/-- The references of the rest of a line, one for each position where a name begins. -/
theorem forall₂_referencesFrom (front rest : List Char) :
    List.Forall₂ (IsLongestAt (front ++ rest))
      ((List.range' front.length rest.length).filter (BeginsName (front ++ rest) ·))
      (referencesFrom front.getLast? front.length rest) := by
  induction rest generalizing front with
  | nil => exact .nil
  | cons c rest ih =>
      have hLater := ih (front ++ [c])
      rw [List.append_assoc, List.singleton_append, List.length_append, List.length_singleton,
        List.getLast?_concat] at hLater
      rw [referencesFrom, List.length_cons, List.range'_succ]
      by_cases hBegins : BeginsName (front ++ c :: rest) front.length
      · have hRead := beginsName_append_iff.mp hBegins
        have hStart : isIdentStart c = true := (Bool.and_eq_true_iff.mp hRead).2
        simp only [List.filter_cons, hBegins, decide_true, if_true, hRead]
        exact .cons (isLongestAt_dottedName hStart) hLater
      · have hNone := mt beginsName_append_iff.mpr hBegins
        simp only [List.filter_cons, hBegins, decide_false, Bool.false_eq_true, if_false, hNone]
        exact hLater

/-- No name begins inside another one or directly behind it. -/
theorem IsLongestAt.end_lt {position later : Nat} {r : Reference} (h : IsLongestAt code position r)
    (hLater : position < later) (hBegins : BeginsName code later) :
    position + r.path.length < later := by
  by_contra hInside
  obtain ⟨before, hBefore⟩ : ∃ before, later = position + before + 1 :=
    ⟨later - position - 1, by omega⟩
  have hLength : before < r.path.length := by omega
  obtain ⟨after, hHere⟩ := h.here
  have hFound : (code.take later).getLast? = some r.path[before] := by
    have hBehind : code[position + before]? = some r.path[before] := by
      rw [← List.getElem?_drop, ← hHere, List.getElem?_append_left hLength,
        List.getElem?_eq_getElem hLength]
    rw [List.getLast?_take, if_neg (by omega), hBefore, Nat.add_sub_cancel, hBehind]
    rfl
  obtain ⟨hOutside, hNoDot⟩ := hBegins.2 _ hFound
  exact (inIdentifier_or_dot h.dotted (List.getElem_mem hLength)).elim hOutside hNoDot

end Positions

section Lines

/-- There is one reference for each position where a name begins. -/
theorem forall₂_references (code : List Char) :
    List.Forall₂ (IsLongestAt code) ((List.range code.length).filter (BeginsName code ·))
      (references code) := by
  rw [List.range_eq_range']
  exact forall₂_referencesFrom [] code

/-- Each reference ends before the next one begins. -/
theorem pairwise_references (code : List Char) :
    (references code).Pairwise fun r later => r.start + r.path.length < later.start := by
  obtain ⟨hLength, hAt⟩ := List.forall₂_iff_get.mp (forall₂_references code)
  have hPositions : ((List.range code.length).filter (BeginsName code ·)).Pairwise
      fun position later => position < later ∧ BeginsName code later := by
    rw [List.pairwise_filter]
    exact List.pairwise_lt_range.imp fun hLess _ hBegins => ⟨hLess, of_decide_eq_true hBegins⟩
  rw [List.pairwise_iff_getElem] at hPositions ⊢
  intro i j hi hj hLess
  have hFirst := hAt i (hLength ▸ hi) hi
  have hSecond := hAt j (hLength ▸ hj) hj
  obtain ⟨hLater, hBegins⟩ := hPositions i j (hLength ▸ hi) (hLength ▸ hj) hLess
  rw [List.get_eq_getElem, List.get_eq_getElem] at hFirst hSecond
  rw [hFirst.start, hSecond.start]
  exact hFirst.end_lt hLater hBegins

end Lines

/-- A loop that may take so many turns. A turn leads to the next one or ends the loop with a result;
there is no result if the turns do not suffice. -/
def loopWithin {σ ρ : Type} (turn : σ → Option (σ ⊕ ρ)) : Nat → σ → Option ρ
  | 0, _ => none
  | turns + 1, state => do
    match ← turn state with
    | .inl next => loopWithin turn turns next
    | .inr result => return result

/-- The end of the identifier at a position: the first position from there on without one of its
characters. -/
def identifierEnd (turns : Nat) (code : List Char) : Nat → Option Nat :=
  loopWithin (fun position =>
    some (if code[position]?.any isIdentChar then .inl (position + 1) else .inr position)) turns

/-- The end of the dotted name at a position. It goes on behind a dot where an identifier begins
there. -/
def nameEnd (turns : Nat) (code : List Char) : Nat → Option Nat :=
  loopWithin (fun position =>
    if code[position]?.any isIdentStart then do
      let stop ← identifierEnd turns code position
      return if code[stop]? = some '.' ∧ code[stop + 1]?.any isIdentStart then .inl (stop + 1)
        else .inr stop
    else some (.inr position)) turns

/-- One turn of the search: where a name begins it is read, and the search goes on at its end. -/
def searchTurn (turns : Nat) (code : List Char) :
    Nat × List Reference → Option ((Nat × List Reference) ⊕ List Reference)
  | (position, found) =>
    match code[position]? with
    | none => some (.inr found)
    | some c =>
      if endsName (code.take position).getLast? && isIdentStart c then do
        let stop ← nameEnd turns code position
        let r : Reference := ⟨code.extract position stop, code[stop]? = some '(', position⟩
        return .inl (max stop (position + 1), found ++ [r])
      else some (.inl (position + 1, found))

/-- The search for the references of a line, in which no loop may take more than so many turns. -/
def search (turns : Nat) (code : List Char) : Option (List Reference) :=
  loopWithin (searchTurn turns code) turns (0, [])

/-- What a search has found at its end that has found some references and has come to a position. -/
def findsFrom (code : List Char) (state : Nat × List Reference) : List Reference :=
  state.2 ++ referencesFrom (code.take state.1).getLast? state.1 (code.drop state.1)

section Loops

variable {code : List Char} {turns : Nat}

/-- A loop ends with the result that its turns keep, if each of them leaves fewer to be taken and it
may take those. -/
theorem loopWithin_eq_some {σ ρ : Type} {turn : σ → Option (σ ⊕ ρ)} (result : σ → ρ)
    (left : σ → Nat) (hTurn : ∀ state, turn state = some (.inr (result state)) ∨
      ∃ next, turn state = some (.inl next) ∧ left next < left state ∧ result next = result state)
    {state : σ} (hLeft : left state < turns) :
    loopWithin turn turns state = some (result state) := by
  induction turns generalizing state with
  | zero => omega
  | succ turns ih =>
      rcases hTurn state with hEnd | ⟨next, hNext, hLess, hSame⟩
      · rw [loopWithin, hEnd]
        rfl
      · rw [loopWithin, hNext, ← hSame]
        exact ih (by omega)

theorem drop_eq_cons {position : Nat} {c : Char} (h : code[position]? = some c) :
    position < code.length ∧ code.drop position = c :: code.drop (position + 1) := by
  obtain ⟨hInside, rfl⟩ := List.getElem?_eq_some_iff.mp h
  exact ⟨hInside, List.drop_eq_getElem_cons hInside⟩

theorem exists_split_of_getElem? {position : Nat} {c : Char} (h : code[position]? = some c) :
    ∃ before rest, code = before ++ c :: rest ∧ position = before.length := by
  obtain ⟨hInside, hDrop⟩ := drop_eq_cons h
  refine ⟨code.take position, code.drop (position + 1), ?_, ?_⟩
  · rw [← hDrop, List.take_append_drop]
  · rw [List.length_take, Nat.min_eq_left (Nat.le_of_lt hInside)]

theorem identifierEnd_eq (hTurns : code.length < turns) (position : Nat) :
    identifierEnd turns code position =
      some (position + ((code.drop position).takeWhile isIdentChar).length) := by
  refine loopWithin_eq_some
    (fun position => position + ((code.drop position).takeWhile isIdentChar).length)
    (fun position => code.length - position) (fun position => ?_) (by omega)
  cases hHere : code[position]? with
  | none =>
      left
      rw [List.getElem?_eq_none_iff] at hHere
      simp [List.drop_eq_nil_of_le hHere]
  | some c =>
      obtain ⟨hInside, hDrop⟩ := drop_eq_cons hHere
      cases hChar : isIdentChar c with
      | false =>
          left
          simp [hDrop, hChar]
      | true =>
          refine Or.inr ⟨position + 1, by simp [hChar], by omega, ?_⟩
          rw [hDrop, List.takeWhile_cons_of_pos hChar, List.length_cons]
          omega

/-- What is looked at behind an identifier tells whether the name goes on. -/
theorem goesOn_iff (code : List Char) (stop : Nat) :
    (code[stop]? = some '.' ∧ code[stop + 1]?.any isIdentStart = true) ↔
      ∃ rest, code.drop stop = '.' :: rest ∧ rest.head?.any isIdentStart = true := by
  constructor
  · rintro ⟨hDot, hNext⟩
    refine ⟨code.drop (stop + 1), (drop_eq_cons hDot).2, ?_⟩
    rwa [List.head?_drop]
  · rintro ⟨rest, hDrop, hNext⟩
    have hRest : code.drop (stop + 1) = rest := by
      rw [← List.drop_drop, hDrop]
      rfl
    rw [← List.head?_drop, ← List.head?_drop, hDrop, hRest]
    exact ⟨rfl, hNext⟩

theorem nameEnd_eq (hTurns : code.length < turns) (position : Nat) :
    nameEnd turns code position =
      some (position + (dottedName (code.drop position)).1.length) := by
  refine loopWithin_eq_some (fun position => position + (dottedName (code.drop position)).1.length)
    (fun position => code.length - position) (fun position => ?_) (by omega)
  rw [← List.head?_drop]
  cases hBegins : (code.drop position).head?.any isIdentStart with
  | false =>
      left
      simp [dottedName_of_not_begins hBegins]
  | true =>
      have hInside : position < code.length := by
        by_contra hOutside
        rw [List.drop_eq_nil_of_le (Nat.le_of_not_lt hOutside)] at hBegins
        cases hBegins
      have hStop : code.drop (position + ((code.drop position).takeWhile isIdentChar).length) =
          (code.drop position).dropWhile isIdentChar := by
        rw [← List.drop_drop, drop_length_of_append_eq List.takeWhile_append_dropWhile]
      have hGoesOn := goesOn_iff code
        (position + ((code.drop position).takeWhile isIdentChar).length)
      rw [hStop] at hGoesOn
      simp only [if_true, identifierEnd_eq hTurns, Option.bind_eq_bind, Option.bind_some]
      rcases dottedName_cases hBegins with ⟨hEnds, hRead⟩ | ⟨rest, hDot, hNext, hRead⟩
      · left
        have hNone : ¬∃ rest, (code.drop position).dropWhile isIdentChar = '.' :: rest ∧
            rest.head?.any isIdentStart = true := by
          rintro ⟨rest, hDot, hNext⟩
          simp [hDot, continuesName, hNext] at hEnds
        rw [if_neg (mt hGoesOn.mp hNone), hRead]
        rfl
      · right
        rw [if_pos (hGoesOn.mpr ⟨rest, hDot, hNext⟩)]
        refine ⟨_, rfl, by omega, ?_⟩
        rw [← List.drop_drop, hStop, hDot, hRead, List.drop_one, List.tail_cons, List.length_append,
          List.length_cons]
        omega

/-- No name begins among characters of a name. -/
theorem referencesFrom_append_of_name {c : Char} {front : List Char}
    (hFront : ∀ d ∈ c :: front, InIdentifier d ∨ d = '.') (start : Nat) (rest : List Char) :
    referencesFrom (some c) start (front ++ rest) =
      referencesFrom (c :: front).getLast? (start + front.length) rest := by
  induction front generalizing c start with
  | nil => rfl
  | cons d front ih =>
      obtain ⟨hHere, hLater⟩ := List.forall_mem_cons.mp hFront
      have hInside : endsName (some c) = false := by
        rw [← isIdentChar_iff] at hHere
        rcases hHere with hChar | rfl
        · simp [endsName, hChar]
        · rfl
      rw [List.cons_append, referencesFrom, hInside, Bool.false_and, if_neg Bool.false_ne_true,
        ih hLater, List.getLast?_cons_cons, List.length_cons]
      congr 1
      omega

theorem findsFrom_append (before rest : List Char) (found : List Reference) :
    findsFrom (before ++ rest) (before.length, found) =
      found ++ referencesFrom before.getLast? before.length rest := by
  rw [findsFrom, List.take_left' rfl, List.drop_left' rfl]

/-- A turn where a name begins goes on at its end. -/
theorem searchTurn_of_begins {before front after : List Char} {c : Char} (found : List Reference)
    (hTurns : (before ++ (c :: front ++ after)).length < turns)
    (hBegins : (endsName before.getLast? && isIdentStart c) = true)
    (hRead : dottedName (c :: front ++ after) = (c :: front, after)) :
    searchTurn turns (before ++ (c :: front ++ after)) (before.length, found) =
      some (.inl ((before ++ c :: front).length,
        found ++ [⟨c :: front, after.head? = some '(', before.length⟩])) := by
  have hHere : (before ++ (c :: front ++ after))[before.length]? = some c :=
    getElem?_append_cons before (front ++ after) c
  have hEnd := nameEnd_eq hTurns before.length
  rw [List.drop_left' rfl, hRead] at hEnd
  have hNext : (before ++ (c :: front ++ after))[before.length + (c :: front).length]? =
      after.head? := by
    rw [← List.head?_drop, ← List.drop_drop, List.drop_left' rfl, List.drop_left' rfl]
  have hPath : (before ++ (c :: front ++ after)).extract before.length
      (before.length + (c :: front).length) = c :: front := by
    rw [List.extract_eq_take_drop, List.drop_left' rfl, Nat.add_sub_cancel_left,
      List.take_left' rfl]
  have hMax : max (before.length + (c :: front).length) (before.length + 1) =
      (before ++ c :: front).length := by
    rw [List.length_append, List.length_cons]
    omega
  simp only [searchTurn, hHere, List.take_left' rfl, if_pos hBegins, hEnd, Option.bind_eq_bind,
    Option.bind_some, hNext, hPath, hMax]
  rfl

theorem searchTurn_of_not_begins {before rest : List Char} {c : Char} (found : List Reference)
    (hBegins : ¬(endsName before.getLast? && isIdentStart c) = true) :
    searchTurn turns (before ++ c :: rest) (before.length, found) =
      some (.inl ((before ++ [c]).length, found)) := by
  simp only [searchTurn, getElem?_append_cons, List.take_left' rfl, if_neg hBegins,
    List.length_append, List.length_singleton]

/-- Behind a name the references are those of the rest of the line. -/
theorem referencesFrom_of_begins {before front after : List Char} {c : Char}
    (hBegins : (endsName before.getLast? && isIdentStart c) = true)
    (hRead : dottedName (c :: front ++ after) = (c :: front, after))
    (hName : ∀ d ∈ c :: front, InIdentifier d ∨ d = '.') :
    referencesFrom before.getLast? before.length (c :: front ++ after) =
      ⟨c :: front, after.head? = some '(', before.length⟩ ::
        referencesFrom (before ++ c :: front).getLast? (before ++ c :: front).length after := by
  have hLast : (before ++ c :: front).getLast? = (c :: front).getLast? := by
    rw [List.getLast?_append, List.getLast?_cons]
    rfl
  have hLength : (before ++ c :: front).length = before.length + 1 + front.length := by
    rw [List.length_append, List.length_cons]
    omega
  rw [List.cons_append] at hRead ⊢
  rw [referencesFrom, if_pos hBegins, hRead, referencesFrom_append_of_name hName, hLast, hLength]

theorem referencesFrom_of_not_begins {before rest : List Char} {c : Char}
    (hBegins : ¬(endsName before.getLast? && isIdentStart c) = true) :
    referencesFrom before.getLast? before.length (c :: rest) =
      referencesFrom (before ++ [c]).getLast? (before ++ [c]).length rest := by
  rw [referencesFrom, if_neg hBegins, List.getLast?_concat, List.length_append,
    List.length_singleton]

theorem exists_name_of_begins {c : Char} (hStart : isIdentStart c = true) (rest : List Char) :
    ∃ front after, rest = front ++ after ∧
      dottedName (c :: front ++ after) = (c :: front, after) ∧
      ∀ d ∈ c :: front, InIdentifier d ∨ d = '.' := by
  have hRead : dottedName (c :: rest) = (c :: (nameTail rest).1, (nameTail rest).2) := by
    rw [dottedName, if_pos hStart]
  have hDotted : (dottedName (c :: rest)).1 ∈ dottedNames := dottedName_mem_dottedNames hStart
  have hRest := nameTail_append rest
  refine ⟨_, _, hRest.symm, ?_, fun d hd => inIdentifier_or_dot hDotted (by rwa [hRead])⟩
  rw [List.cons_append, hRest, hRead]

/-- A turn of the search keeps what will have been found at its end. -/
theorem searchTurn_cases (hTurns : code.length < turns) (state : Nat × List Reference) :
    searchTurn turns code state = some (.inr (findsFrom code state)) ∨
      ∃ next, searchTurn turns code state = some (.inl next) ∧
        code.length - next.1 < code.length - state.1 ∧
          findsFrom code next = findsFrom code state := by
  obtain ⟨position, found⟩ := state
  cases hHere : code[position]? with
  | none =>
      left
      have hEnd : code.drop position = [] :=
        List.drop_eq_nil_of_le (List.getElem?_eq_none_iff.mp hHere)
      simp only [searchTurn, hHere, findsFrom, hEnd, referencesFrom, List.append_nil]
  | some c =>
      right
      obtain ⟨before, rest, rfl, rfl⟩ := exists_split_of_getElem? hHere
      by_cases hBegins : (endsName before.getLast? && isIdentStart c) = true
      · have hStart : isIdentStart c = true := (Bool.and_eq_true_iff.mp hBegins).2
        obtain ⟨front, after, rfl, hRead, hInside⟩ := exists_name_of_begins hStart rest
        refine ⟨_, searchTurn_of_begins found hTurns hBegins hRead, ?_, ?_⟩
        · simp only [List.length_append, List.length_cons]
          omega
        · have hName := referencesFrom_of_begins hBegins hRead hInside
          rw [← List.cons_append, findsFrom_append, hName, ← List.append_assoc, findsFrom_append,
            List.append_assoc, List.singleton_append]
      · refine ⟨_, searchTurn_of_not_begins found hBegins, ?_, ?_⟩
        · simp only [List.length_append, List.length_cons, List.length_nil]
          omega
        · rw [findsFrom_append, referencesFrom_of_not_begins hBegins, ← List.singleton_append,
            ← List.append_assoc, findsFrom_append]

/-- The search ends with the references of the line. -/
theorem search_eq (hTurns : code.length < turns) : search turns code = some (references code) :=
  loopWithin_eq_some (findsFrom code) (fun state => code.length - state.1) (searchTurn_cases hTurns)
    (by simpa using hTurns)

end Loops

/-- The references of a line are, from left to right, one for each position where a name may begin:
the longest dotted name there, and a call exactly if a parenthesis follows. No other begins in it or
directly behind it. The search that goes from position to position, and on at the end of each name,
finds the same. Neither it nor the reading of a name goes on more often than the line has
characters. -/
theorem references_eq_longestNames (code : List Char) :
    List.Forall₂ (IsLongestAt code) ((List.range code.length).filter (BeginsName code ·))
        (references code) ∧
      (references code).Pairwise (fun r later => r.start + r.path.length < later.start) ∧
      search (code.length + 1) code = some (references code) ∧
      ∀ position, nameEnd (code.length + 1) code position =
        some (position + (dottedName (code.drop position)).1.length) :=
  ⟨forall₂_references code, pairwise_references code, search_eq (Nat.lt_succ_self _),
    nameEnd_eq (Nat.lt_succ_self _)⟩

/-- Neither a second dot, nor a digit, nor a letter beyond ASCII begins a name or lets one go on. -/
example : references "f.g(a..b, 1c, é.d) h.2".toList =
    [⟨"f.g".toList, true, 0⟩, ⟨['a'], false, 4⟩, ⟨['h'], false, 19⟩] := by decide

end PolicyBundle.Policy
