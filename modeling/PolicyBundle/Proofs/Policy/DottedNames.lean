import Mathlib.Computability.Language
import PolicyBundle.Proofs.Policy.Calls

/-! Dotted names as a language over characters: identifiers with a dot in front of each but the
first. What is read at the front of a text is its longest beginning in that language. Reading goes
from segment to segment, over a dot only where an identifier begins behind it. -/

namespace PolicyBundle.Policy

open Computability

/-- The characters that begin an identifier: letters of ASCII and the underscore. -/
def BeginsIdentifier (c : Char) : Prop :=
  ('a' ≤ c ∧ c ≤ 'z') ∨ ('A' ≤ c ∧ c ≤ 'Z') ∨ c = '_'

/-- The characters of an identifier: those that begin one, and the digits. -/
def InIdentifier (c : Char) : Prop :=
  BeginsIdentifier c ∨ ('0' ≤ c ∧ c ≤ '9')

instance (c : Char) : Decidable (BeginsIdentifier c) :=
  inferInstanceAs (Decidable (_ ∨ _))

instance (c : Char) : Decidable (InIdentifier c) :=
  inferInstanceAs (Decidable (_ ∨ _))

/-- The identifiers. -/
def identifiers : Language Char :=
  {name | ∃ c rest, name = c :: rest ∧ BeginsIdentifier c ∧ ∀ d ∈ rest, InIdentifier d}

/-- An identifier, and any number of others with a dot in front of each. -/
def dottedNames : Language Char :=
  identifiers * ({['.']} * identifiers)∗

section Characters

variable {c : Char}

theorem isIdentStart_iff : isIdentStart c = true ↔ BeginsIdentifier c := by
  rw [isIdentStart, BeginsIdentifier]
  delta Char.isAlpha Char.isUpper Char.isLower
  simp only [Char.le_def, ge_iff_le, Bool.or_eq_true, Bool.and_eq_true, decide_eq_true_eq]
  tauto

theorem isIdentChar_iff : isIdentChar c = true ↔ InIdentifier c := by
  rw [InIdentifier, ← isIdentStart_iff, isIdentChar, isIdentStart]
  delta Char.isAlphanum Char.isDigit
  simp only [Char.le_def, ge_iff_le, Bool.or_eq_true, Bool.and_eq_true, decide_eq_true_eq]
  tauto

end Characters

theorem mem_identifiers_iff {name : List Char} :
    name ∈ identifiers ↔ ∃ c rest, name = c :: rest ∧ isIdentStart c = true ∧
      ∀ d ∈ rest, isIdentChar d = true := by
  simp only [isIdentStart_iff, isIdentChar_iff]
  exact Iff.rfl

theorem dot_notMem_of_mem_identifiers {segment : List Char} (h : segment ∈ identifiers) :
    '.' ∉ segment := by
  obtain ⟨c, rest, rfl, hStart, hRest⟩ := mem_identifiers_iff.mp h
  intro hDot
  rcases List.mem_cons.mp hDot with rfl | hDot
  · exact absurd hStart (by decide)
  · exact absurd (hRest _ hDot) (by decide)

/-- Identifiers with a dot in front of each. -/
theorem mem_kstar_dotted_iff {text : List Char} :
    text ∈ ({['.']} * identifiers)∗ ↔
      ∃ segments : List (List Char), text = segments.flatMap ('.' :: ·) ∧
        ∀ segment ∈ segments, segment ∈ identifiers := by
  rw [Language.mem_kstar]
  constructor
  · rintro ⟨pieces, rfl, hPieces⟩
    have hDotted : ∀ piece ∈ pieces, '.' :: piece.tail = piece ∧ piece.tail ∈ identifiers := by
      intro piece hPiece
      obtain ⟨dot, rfl, segment, hSegment, rfl⟩ := Language.mem_mul.mp (hPieces piece hPiece)
      exact ⟨rfl, hSegment⟩
    refine ⟨pieces.map List.tail, ?_, ?_⟩
    · rw [List.flatMap_map, List.flatMap_congr fun piece hPiece => (hDotted piece hPiece).1,
        List.flatMap_id']
    · simpa using fun piece hPiece => (hDotted piece hPiece).2
  · rintro ⟨segments, rfl, hSegments⟩
    refine ⟨segments.map ('.' :: ·), List.flatMap_def .., ?_⟩
    intro piece hPiece
    obtain ⟨segment, hSegment, rfl⟩ := List.mem_map.mp hPiece
    exact Language.append_mem_mul (Set.mem_singleton ['.']) (hSegments segment hSegment)

/-- A text is in the language exactly if the pieces between its dots are identifiers. -/
theorem mem_dottedNames_iff {name : List Char} : name ∈ dottedNames ↔ IsDottedName name := by
  have hPieces : IsDottedName name ↔ ∀ segment ∈ name.splitOn '.', segment ∈ identifiers := by
    simp only [IsDottedName, mem_identifiers_iff]
  rw [hPieces, dottedNames, Language.mem_mul]
  constructor
  · rintro ⟨first, hFirst, rest, hRest, rfl⟩
    obtain ⟨segments, rfl, hSegments⟩ := mem_kstar_dotted_iff.mp hRest
    have hAll : ∀ segment ∈ first :: segments, segment ∈ identifiers :=
      List.forall_mem_cons.mpr ⟨hFirst, hSegments⟩
    rwa [← Text.intercalate_cons, List.splitOn_intercalate '.'
      (fun segment hSegment => dot_notMem_of_mem_identifiers (hAll segment hSegment)) (by simp)]
  · intro hAll
    obtain ⟨first, segments, hSplit⟩ := List.exists_cons_of_ne_nil (List.splitOn_ne_nil '.' name)
    rw [hSplit, List.forall_mem_cons] at hAll
    refine ⟨first, hAll.1, _, mem_kstar_dotted_iff.mpr ⟨segments, rfl, hAll.2⟩, ?_⟩
    rw [← Text.intercalate_cons, ← hSplit, List.intercalate_splitOn]

theorem inIdentifier_or_dot {name : List Char} (h : name ∈ dottedNames) {c : Char} (hc : c ∈ name) :
    InIdentifier c ∨ c = '.' := by
  rw [← isIdentChar_iff]
  exact mem_isDottedName (mem_dottedNames_iff.mp h) hc

theorem mem_dottedNames_of_mem_identifiers {segment : List Char} (h : segment ∈ identifiers) :
    segment ∈ dottedNames := by
  have hMem := Language.append_mem_mul h (Language.nil_mem_kstar ({['.']} * identifiers))
  rwa [List.append_nil] at hMem

theorem append_dot_mem_dottedNames {segment name : List Char} (hSegment : segment ∈ identifiers)
    (hName : name ∈ dottedNames) : segment ++ '.' :: name ∈ dottedNames := by
  obtain ⟨first, hFirst, rest, hRest, rfl⟩ := Language.mem_mul.mp hName
  obtain ⟨segments, rfl, hSegments⟩ := mem_kstar_dotted_iff.mp hRest
  refine Language.append_mem_mul hSegment (mem_kstar_dotted_iff.mpr ⟨first :: segments, rfl, ?_⟩)
  exact List.forall_mem_cons.mpr ⟨hFirst, hSegments⟩

section Reading

variable {text : List Char}

theorem dottedName_of_not_begins (h : text.head?.any isIdentStart = false) :
    dottedName text = ([], text) := by
  cases text with
  | nil => rfl
  | cons c rest =>
      have hStart : isIdentStart c = false := h
      simp [dottedName, hStart]

/-- Where an identifier begins it is read first, and then what goes on with it. -/
theorem dottedName_of_begins (h : text.head?.any isIdentStart = true) :
    text.takeWhile isIdentChar ∈ identifiers ∧
      dottedName text =
        (text.takeWhile isIdentChar ++ (nameTail (text.dropWhile isIdentChar)).1,
          (nameTail (text.dropWhile isIdentChar)).2) := by
  cases text with
  | nil => cases h
  | cons c rest =>
      have hStart : isIdentStart c = true := h
      have hChar := isIdentChar_of_isIdentStart hStart
      have hRest : ∀ d ∈ rest.takeWhile isIdentChar, isIdentChar d = true :=
        fun d hd => List.mem_takeWhile_imp hd
      have hTail := nameTail_append_ident hRest (rest.dropWhile isIdentChar)
      rw [List.takeWhile_append_dropWhile] at hTail
      rw [List.takeWhile_cons_of_pos hChar, List.dropWhile_cons_of_pos hChar, dottedName,
        if_pos hStart, hTail]
      exact ⟨mem_identifiers_iff.mpr ⟨c, _, rfl, hStart, hRest⟩, rfl⟩

/-- The name ends with its first identifier, or goes on behind a dot with the name that begins
there. -/
theorem dottedName_cases (h : text.head?.any isIdentStart = true) :
    (continuesName (text.dropWhile isIdentChar) = false ∧
      dottedName text = (text.takeWhile isIdentChar, text.dropWhile isIdentChar)) ∨
    ∃ rest, text.dropWhile isIdentChar = '.' :: rest ∧ rest.head?.any isIdentStart = true ∧
      dottedName text =
        (text.takeWhile isIdentChar ++ '.' :: (dottedName rest).1, (dottedName rest).2) := by
  obtain ⟨-, hRead⟩ := dottedName_of_begins h
  cases hNext : continuesName (text.dropWhile isIdentChar) with
  | false =>
      rw [nameTail_of_not_continuesName hNext, List.append_nil] at hRead
      exact Or.inl ⟨rfl, hRead⟩
  | true =>
      right
      cases hAfter : text.dropWhile isIdentChar with
      | nil =>
          rw [hAfter] at hNext
          cases hNext
      | cons c rest =>
          have hOther : isIdentChar c = false := by
            have hHead := List.head?_dropWhile_not isIdentChar text
            simpa [hAfter] using hHead
          rw [hAfter, continuesName, hOther, Bool.false_or, Bool.and_eq_true,
            decide_eq_true_eq] at hNext
          obtain ⟨rfl, hBegins⟩ := hNext
          cases rest with
          | nil => cases hBegins
          | cons d more =>
              have hStart : isIdentStart d = true := hBegins
              have hChar := isIdentChar_of_isIdentStart hStart
              have hSame : nameTail (d :: more) = dottedName (d :: more) := by
                rw [dottedName, if_pos hStart, nameTail.eq_def]
                simp [hChar]
              refine ⟨d :: more, rfl, hBegins, ?_⟩
              rw [hRead, hAfter, nameTail_dot hStart, hSame]

/-- What is read where an identifier begins is a dotted name. -/
theorem dottedName_mem_dottedNames (h : text.head?.any isIdentStart = true) :
    (dottedName text).1 ∈ dottedNames := by
  induction hLength : text.length using Nat.strong_induction_on generalizing text with
  | _ length ih =>
      have hSegment := (dottedName_of_begins h).1
      rcases dottedName_cases h with ⟨-, hRead⟩ | ⟨rest, hAfter, hBegins, hRead⟩
      · rw [hRead]
        exact mem_dottedNames_of_mem_identifiers hSegment
      · have hShorter : rest.length < length := by
          have hSuffix := (List.dropWhile_suffix (l := text) isIdentChar).length_le
          rw [hAfter, List.length_cons] at hSuffix
          omega
        rw [hRead]
        exact append_dot_mem_dottedNames hSegment (ih _ hShorter hBegins rfl)

/-- It is the longest: every dotted name in front of the text is a beginning of it. -/
theorem prefix_dottedName {name : List Char} (hName : name ∈ dottedNames) (h : name <+: text) :
    name <+: (dottedName text).1 := by
  obtain ⟨after, rfl⟩ := h
  rw [(dottedName_append_of_isDottedName (mem_dottedNames_iff.mp hName) after).1]
  exact List.prefix_append name _

end Reading

end PolicyBundle.Policy
