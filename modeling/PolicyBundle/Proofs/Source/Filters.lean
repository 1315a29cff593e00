import PolicyBundle.Proofs.Log.Attempts
import PolicyBundle.Source.Filter

/-! What a filter leaves out, in terms of the texts that it is made of. A name is ignored if one of the
texts is a pattern that matches it, unless the patterns among the texts cannot be built into one set. -/

namespace PolicyBundle.Glob

open Log

/-- Whether a text is a pattern that matches a name. -/
def Matches (text name : String) : Prop :=
  ∃ pattern, Pattern.parse text = .ok pattern ∧ pattern.test name = true

instance (text name : String) : Decidable (Matches text name) :=
  match h : Pattern.parse text with
  | .ok pattern =>
    decidable_of_iff (pattern.test name = true) (by simp [Matches, h])
  | .error _ => isFalse (by simp [Matches, h])

variable {texts : List String}

theorem mem_ofTexts_iff {pattern : Pattern} :
    pattern ∈ (ofTexts texts).1 ↔ ∃ text ∈ texts, Pattern.parse text = .ok pattern := by
  simp only [ofTexts, List.mem_filterMap, toOption_eq_some_iff]

/-- All texts are patterns exactly if none of them is faulty. -/
theorem faults_eq_nil_iff :
    (ofTexts texts).2 = [] ↔ ∀ text ∈ texts, ∃ pattern, Pattern.parse text = .ok pattern := by
  rw [ofTexts, List.filterMap_eq_nil_iff]
  refine forall₂_congr fun text _ => ?_
  cases Pattern.parse text <;> simp

/-- Whether the patterns among some texts can be built into one set. -/
def Buildable [Builder] (texts : List String) : Prop :=
  Builder.fault? (ofTexts texts).1 = none

/-- Whether a name is not ignored: no text is a pattern that matches it, or the patterns cannot be built
into one set. -/
def Spares [Builder] (texts : List String) (name : String) : Prop :=
  Buildable texts → ∀ text ∈ texts, ¬ Matches text name

theorem anyMatches_ofTexts_iff {name : String} :
    anyMatches (ofTexts texts).1 name = true ↔ ∃ text ∈ texts, Matches text name := by
  rw [anyMatches, List.any_eq_true]
  constructor
  · rintro ⟨pattern, hMem, hTest⟩
    obtain ⟨text, hText, hParse⟩ := mem_ofTexts_iff.mp hMem
    exact ⟨text, hText, pattern, hParse, hTest⟩
  · rintro ⟨text, hText, pattern, hParse, hTest⟩
    exact ⟨pattern, mem_ofTexts_iff.mpr ⟨text, hText, hParse⟩, hTest⟩

theorem anyMatches_built_iff [Builder] {name : String} :
    anyMatches (built (ofTexts texts).1) name = false ↔ Spares texts name := by
  rw [built_eq, Spares, Buildable]
  split
  · rename_i hBuilt
    rw [Bool.eq_false_iff, ne_eq, anyMatches_ofTexts_iff]
    simp [hBuilt]
  · rename_i hFault
    exact iff_of_true rfl fun hBuilt => absurd hBuilt hFault

instance [Builder] (texts : List String) (name : String) : Decidable (Spares texts name) :=
  decidable_of_iff _ anyMatches_built_iff

section Nested

/-- Groups inside of each other, with a choice in each. -/
def nested (n : Nat) : List Char :=
  List.replicate n '{' ++ 'a' :: (List.replicate n [',', 'b', '}']).flatten

/-- The part that they are read as. -/
def nestedToken : Nat → Token
  | 0 => .literal 'a'
  | n + 1 => .alternatives [[nestedToken n], [.literal 'b']]

theorem scan_opening (n m : Nat) (before : Option Char) :
    ∃ previous, (List.replicate n '{').foldlM Scan.next
        ⟨.plain, before, [], List.replicate m ([], [])⟩ =
      .ok ⟨.plain, previous, [], List.replicate (n + m) ([], [])⟩ := by
  induction n generalizing m before with
  | zero => exact ⟨before, by rw [Nat.zero_add]; rfl⟩
  | succ n ih =>
      obtain ⟨previous, hRest⟩ := ih (m + 1) (some '{')
      rw [← Nat.add_assoc, Nat.add_right_comm] at hRest
      exact ⟨previous, hRest⟩

theorem scan_closing (n inner : Nat) (before : Option Char) :
    ∃ previous, (List.replicate n [',', 'b', '}']).flatten.foldlM Scan.next
        ⟨.plain, before, [nestedToken inner], List.replicate n ([], [])⟩ =
      .ok ⟨.plain, previous, [nestedToken (inner + n)], []⟩ := by
  induction n generalizing inner before with
  | zero => exact ⟨before, rfl⟩
  | succ n ih =>
      obtain ⟨previous, hRest⟩ := ih (inner + 1) (some '}')
      rw [Nat.add_right_comm] at hRest
      exact ⟨previous, hRest⟩

theorem parse_nested (n : Nat) :
    Pattern.parse (String.ofList (nested n)) = .ok ⟨[nestedToken n]⟩ := by
  obtain ⟨before, hOpening⟩ := scan_opening n 0 none
  obtain ⟨previous, hClosing⟩ := scan_closing n 0 (some 'a')
  have hScan : (nested n).foldlM Scan.next Scan.empty =
      .ok ⟨.plain, previous, [nestedToken n], []⟩ := by
    rw [nested, List.foldlM_append]
    refine bind_eq_ok_iff.mpr ⟨_, hOpening, ?_⟩
    rw [Nat.zero_add] at hClosing
    exact hClosing
  rw [Pattern.parse, String.toList_ofList, hScan]
  rfl

theorem width_nestedToken (n : Nat) : (nestedToken n).width = 1 := by
  cases n with
  | zero => rfl
  | succ n => simp [nestedToken, Token.width, allEmpty, branchEmpty, Token.isEmpty]

theorem isEmpty_nestedToken (n : Nat) : (nestedToken n).isEmpty = false := by
  cases n with
  | zero => rfl
  | succ n => simp [nestedToken, Token.isEmpty, allEmpty, branchEmpty]

/-- Each group is one level, and the choice in it another. -/
theorem depth_nestedToken (n : Nat) : (nestedToken n).depth = 2 * n := by
  induction n with
  | zero => rfl
  | succ n ih =>
      have hInner : sequenceDepth (branchWidth [nestedToken n]) = 0 := by
        rw [branchWidth, List.foldl_cons, List.foldl_nil, width_nestedToken]
        rfl
      have hLetter : sequenceDepth (branchWidth [.literal 'b']) = 0 := rfl
      have hKept : [[nestedToken n], [.literal 'b']].filter (fun branch => !branchEmpty branch) =
          [[nestedToken n], [.literal 'b']] := by
        simp [branchEmpty, isEmpty_nestedToken, Token.isEmpty]
      rw [nestedToken, Token.depth, hKept, List.isEmpty_cons, if_neg Bool.false_ne_true]
      simp only [branchesDepth, branchDepth, hInner, hLetter, ih, Token.depth]
      change 1 + 1 + max (0 + max (2 * n) 0) (max (0 + max 0 0) 0) = 2 * (n + 1)
      omega

/-- Groups that are nested too deep take all other patterns with them. -/
theorem not_buildable_nested {n : Nat} (h : 125 ≤ n) (texts : List String) :
    ¬ Buildable (String.ofList (nested n) :: texts) := by
  have hDeep : maxDepth < (Pattern.mk [nestedToken n]).depth := by
    rw [Pattern.depth, branchDepth, branchDepth, depth_nestedToken, Nat.max_zero, maxDepth]
    omega
  have hFirst : (ofTexts (String.ofList (nested n) :: texts)).1 =
      ⟨[nestedToken n]⟩ :: (ofTexts texts).1 := by
    have hParse : (Pattern.parse (String.ofList (nested n))).toOption = some ⟨[nestedToken n]⟩ :=
      toOption_eq_some_iff.mpr (parse_nested n)
    simp only [ofTexts, List.filterMap_cons, hParse]
  have hFound : (⟨[nestedToken n]⟩ :: (ofTexts texts).1).findIdx?
      (fun pattern => decide (pattern.depth > maxDepth)) = some 0 := by
    rw [List.findIdx?_cons, if_pos (decide_eq_true hDeep)]
  rw [Buildable, hFirst, Builder.fault?, instBuilder]
  simp only [hFound]
  exact Option.some_ne_none _

end Nested
end PolicyBundle.Glob

namespace PolicyBundle.Source.PathFilter

open Log

/-- Warnings are told one after the other, so there are none only where nothing is faulty. -/
theorem events_forM_eq_nil_iff {α : Type} {warn : α → Traced Unit}
    (hWarn : ∀ fault, (warn fault).events ≠ []) (faults : List α) :
    (faults.forM warn).events = [] ↔ faults = [] := by
  cases faults with
  | nil => exact iff_of_true rfl rfl
  | cons fault rest =>
      change (warn fault).events ++ (rest.forM warn).events = [] ↔ _
      simp [hWarn fault]

variable [Glob.Builder] {bundleMode : Bool} {texts : List String}

theorem value_ofTexts (bundleMode : Bool) (texts : List String) :
    (ofTexts bundleMode texts).value = ⟨bundleMode, Glob.built (Glob.ofTexts texts).1⟩ := by
  simp only [ofTexts, Glob.built, Traced.value_bind]
  cases Glob.build (Glob.ofTexts texts).1 <;> rfl

/-- Without texts nothing is ignored. -/
theorem value_ofTexts_nil (bundleMode : Bool) : (ofTexts bundleMode []).value = ⟨bundleMode, []⟩ := by
  rw [value_ofTexts]
  exact congrArg (PathFilter.mk bundleMode) Glob.built_nil

/-- Where the patterns cannot be built into a set, nothing is ignored either. -/
theorem value_ofTexts_of_not_buildable (bundleMode : Bool) (h : ¬ Glob.Buildable texts) :
    (ofTexts bundleMode texts).value = ⟨bundleMode, []⟩ := by
  rw [Glob.Buildable] at h
  rw [value_ofTexts, Glob.built_eq, if_neg h]

/-- What a filter leaves in: below what a walk begins at the names that are not ignored, and no archives
where the source is no bundle. -/
theorem excludes_ofTexts_eq_false_iff {name : String} {isDir : Bool} {depth : Nat} :
    (ofTexts bundleMode texts).value.excludes name isDir depth = false ↔
      (1 ≤ depth → Glob.Spares texts name) ∧
        (isDir = false → bundleMode = false → Bundle.isArchiveName name = false) := by
  rw [value_ofTexts, excludes, Bool.or_eq_false_iff, and_comm, Bool.and_eq_false_imp,
    Glob.anyMatches_built_iff, decide_eq_true_eq]
  refine and_congr_right fun _ => ?_
  cases bundleMode <;> cases isDir <;> simp

/-- A filter tells nothing exactly if all texts are patterns and these can be built into one set. -/
theorem events_ofTexts_eq_nil_iff :
    (ofTexts bundleMode texts).events = [] ↔
      (∀ text ∈ texts, ∃ pattern, Glob.Pattern.parse text = .ok pattern) ∧ Glob.Buildable texts := by
  rw [← Glob.faults_eq_nil_iff, Glob.Buildable, ofTexts, Traced.events_bind, List.append_eq_nil_iff,
    events_forM_eq_nil_iff fun _ => List.cons_ne_nil _ _, Glob.build]
  refine and_congr_right fun _ => ?_
  cases Glob.Builder.fault? (Glob.ofTexts texts).1 with
  | none => exact iff_of_true rfl rfl
  | some fault => exact iff_of_false (List.cons_ne_nil _ _) (Option.some_ne_none fault)

end PolicyBundle.Source.PathFilter
