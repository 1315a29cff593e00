import PolicyBundle.Proofs.Policy.ErasureHarm

/-! How modules can go on behind a line, so that the state in which the line has left the scan shows
in the rules that are found: as many brackets as are open are closed again, and what follows is the
head of a rule if none is open then. -/

namespace PolicyBundle.Policy

/-- A line that closes some brackets; a negative number of them is opened. -/
def closing (depth : Int) : List Char :=
  ';' :: (List.replicate depth.toNat '\x7d' ++ List.replicate (-depth).toNat '\x7b') ++ [';']

/-- Lines that have the head of a rule if so many brackets are open. -/
def probe (depth : Int) : List (List Char) :=
  [closing depth, ['q']]

/-- Lines that stay as they are when print statements are erased, behind any line ending. -/
def IsPlain (text : List Char) : Prop :=
  isPrintLine text = false ∧ '\n' ∉ text ∧ '\r' ∉ text

theorem erasedText_of_plain {text : List Char} (hPlain : IsPlain text) : erasedText text = text := by
  rw [erasedText_of_kept hPlain.1]
  apply Text.dropReturn_of_getLast?
  intro hLast
  exact hPlain.2.2 (List.mem_of_getLast? hLast)

theorem mem_closing {depth : Int} {c : Char} (h : c ∈ closing depth) :
    c = ';' ∨ c = '\x7d' ∨ c = '\x7b' := by
  simp only [closing, List.cons_append, List.mem_cons, List.mem_append, List.mem_replicate,
    List.not_mem_nil, or_false] at h
  tauto

theorem continues_closing (depth : Int) : continues (Text.trim (closing depth)) = false := by
  have hLast : (closing depth).getLast? = some ';' := List.getLast?_concat
  rw [continues, Text.getLast?_trim hLast (by decide)]
  decide

theorem not_mem_closing {depth : Int} {c : Char} (hOther : c ∉ [';', '\x7d', '\x7b']) :
    c ∉ closing depth := by
  intro h
  apply hOther
  rcases mem_closing h with rfl | rfl | rfl <;> decide

theorem isPlain_closing (depth : Int) : IsPlain (closing depth) := by
  refine ⟨?_, not_mem_closing (by decide), not_mem_closing (by decide)⟩
  have hLast : (closing depth).getLast? = some ';' := List.getLast?_concat
  simp only [isPrintLine, Text.getLast?_trim hLast (show Text.isBlank ';' = false by decide)]
  exact Bool.and_false _

theorem strip_closing (depth : Int) : strip .code (closing depth) = (closing depth, false) := by
  apply strip_code_of_plain
  intro c hc
  rcases mem_closing hc with rfl | rfl | rfl <;> decide

theorem bracketBalance_replicate {c : Char} (here : Int)
    (hCons : ∀ rest, bracketBalance false (c :: rest) = here + bracketBalance false rest)
    (n : Nat) (rest : List Char) :
    bracketBalance false (List.replicate n c ++ rest) = n * here + bracketBalance false rest := by
  induction n with
  | zero => simp
  | succ n ih =>
      rw [List.replicate_succ, List.cons_append, hCons, ih]
      rw [Int.natCast_succ, Int.add_mul, Int.one_mul]
      omega

theorem bracketBalance_closing (depth : Int) : bracketBalance false (closing depth) = -depth := by
  rw [closing, List.cons_append, bracketBalance_cons (by decide) (by decide), List.append_assoc,
    bracketBalance_replicate (-1) fun rest => by
      rw [bracketBalance_cons (by decide) (by decide)]; rfl,
    bracketBalance_replicate 1 fun rest => by
      rw [bracketBalance_cons (by decide) (by decide)]; rfl]
  have hEnd : bracketBalance false [';'] = 0 := rfl
  rw [hEnd]
  simp
  omega

theorem parseHead_closing (depth : Int) : parseHead (closing depth) = none := rfl

namespace Scan

variable (dialect : Dialect) (number : Nat) {s : Scan}

theorem reads_closing (hPackage : s.package.isSome = true) (depth : Int) :
    ∃ u, Reads dialect s (Line.single number false (closing depth)) u ∧ u.package = s.package ∧
      u.rules = s.rules ∧ u.depth = s.depth - depth ∧ u.continued = false := by
  have hCode : (Line.single number false (closing depth)).code = closing depth :=
    congrArg Prod.fst (strip_closing depth)
  obtain ⟨more, hTrim, -⟩ := Text.trim_append [';'] (by decide) (by decide) (by decide)
    (List.replicate depth.toNat '\x7d' ++ List.replicate (-depth).toNat '\x7b' ++ [';'])
  have hHead : headOf { s with inMetadata := false } (Line.single number false (closing depth)) =
      none := by
    rw [headOf, hCode, parseHead_closing]
    split <;> rfl
  have hTrim : Text.trim (closing depth) = [';'] ++ more := hTrim
  refine ⟨_, .code (hasCode_of_trim (by rw [hCode, hTrim]; exact List.cons_ne_nil _ _)) hPackage
    ?_ ?_, ?_, ?_, ?_, ?_⟩
  · have hOther : "import ".toList.isPrefixOf ([';'] ++ more) = false := rfl
    rw [readsImport, hCode, hTrim, hOther, Bool.and_false]
  · rw [headFault?, show s.headOf (Line.single number false (closing depth)) = none from hHead]
    rfl
  · exact afterCode_package
  · rw [afterCode_rules, ruleOn, hHead]
    exact List.append_nil _
  · rw [afterCode_depth, hCode, bracketBalance_closing]
    rfl
  · rw [afterCode_continued, hCode, continues_closing]

/-- Behind closed brackets a name alone is the head of a rule, and elsewhere it is not. -/
theorem reads_name (hPackage : s.package.isSome = true) :
    ∃ u, Reads dialect s (Line.single number false ['q']) u ∧ u.package = s.package ∧
      (s.depth = 0 → s.continued = false → u.rules.length = s.rules.length + 1) ∧
      (s.depth ≠ 0 ∨ s.continued = true → u.rules.length = s.rules.length) := by
  have hFault (imports : List Import) : ruleFault? dialect imports ['q'] = none := by
    have hWords : words ['q'] = [['q']] := rfl
    rw [ruleFault?, hWords]
    split
    · rfl
    · rfl
  have hImport : s.readsImport (Line.single number false ['q']) = false := by
    rw [readsImport, show "import ".toList.isPrefixOf (Text.trim
      (Line.single number false ['q']).code) = false from rfl, Bool.and_false]
  refine ⟨_, .code rfl hPackage hImport ?_, afterCode_package, ?_, ?_⟩
  · rw [headFault?, show (Line.single number false ['q']).code = ['q'] from rfl, hFault]
    split <;> rfl
  · intro hDepth hContinued
    have hStart : atStart { s with inMetadata := false } (Line.single number false ['q']) =
        true := by
      simp [atStart, hDepth, hContinued, Line.single]
    rw [afterCode_rules, List.length_append, ruleOn, headOf, hStart, if_pos rfl]
    rfl
  · intro hOpen
    have hStart : atStart { s with inMetadata := false } (Line.single number false ['q']) =
        false := by
      rcases hOpen with hDepth | hContinued
      · simp [atStart, hDepth]
      · simp [atStart, hContinued]
    rw [afterCode_rules, List.length_append, ruleOn, headOf, hStart, if_neg Bool.false_ne_true]
    rfl

/-- Outside strings the probe finds one rule more if and only if its number of brackets is open. -/
theorem reads_probe (hPackage : s.package.isSome = true) (depth : Int) :
    ∃ u, ReadsAll dialect s (Line.numbered number false (probe depth)) u ∧ u.package = s.package ∧
      u.rules.length = s.rules.length + if s.depth = depth then 1 else 0 := by
  obtain ⟨t, hFirst, hPackage', hRules, hDepth, hContinued⟩ :=
    reads_closing dialect number hPackage depth
  obtain ⟨u, hSecond, hPackage'', hFound, hNone⟩ :=
    reads_name dialect (number + 1) (s := t) (by rwa [hPackage'])
  have hLeaves : (Line.single number false (closing depth)).leavesString = false :=
    congrArg Prod.snd (strip_closing depth)
  refine ⟨u, ?_, hPackage''.trans hPackage', ?_⟩
  · rw [probe, Line.numbered_cons, hLeaves]
    exact .cons hFirst (.cons hSecond (.nil u))
  · split
    · rename_i hEq
      rw [hFound (by omega) hContinued, hRules]
    · rename_i hNe
      rw [hNone (Or.inl (by omega)), hRules]
      rfl

/-- Inside a raw string no line brings anything. -/
theorem reads_inString {texts : List (List Char)} (hTexts : ∀ text ∈ texts, '`' ∉ text) :
    ∃ u, ReadsAll dialect s (Line.numbered number true texts) u ∧ u.package = s.package ∧
      u.rules = s.rules := by
  induction texts generalizing s number with
  | nil => exact ⟨s, .nil s, rfl, rfl⟩
  | cons text rest ih =>
      have hStrip := strip_raw_of_not_mem (hTexts text List.mem_cons_self)
      have hLeaves : (Line.single number true text).leavesString = true :=
        congrArg Prod.snd hStrip
      have hBlank : (Line.single number true text).hasCode = false := by
        rw [Line.hasCode, show (Line.single number true text).code = [] from congrArg Prod.fst hStrip]
        rfl
      obtain ⟨u, hRest, hPackage, hRules⟩ := ih (number + 1)
        (s := s.passOver (Line.single number true text)) fun t ht => hTexts t (List.mem_cons_of_mem _ ht)
      refine ⟨u, ?_, hPackage.trans (by rw [passOver_eq]), hRules.trans (by rw [passOver_eq])⟩
      rw [Line.numbered_cons, hLeaves]
      exact .cons (.blank hBlank) hRest

end Scan

theorem isPlain_name : ∀ text ∈ [['q']], IsPlain text := by
  intro text h
  rw [List.mem_singleton.mp h]
  exact ⟨rfl, by decide, by decide⟩

theorem isPlain_probe (depth : Int) : ∀ text ∈ probe depth, IsPlain text := by
  intro text h
  rcases List.mem_cons.mp h with rfl | h
  · exact isPlain_closing depth
  · exact isPlain_name text h

theorem not_mem_probe (depth : Int) : ∀ text ∈ probe depth, '`' ∉ text := by
  intro text h
  rcases List.mem_cons.mp h with rfl | h
  · exact not_mem_closing (by decide)
  · rw [List.mem_singleton.mp h]
    decide

end PolicyBundle.Policy
