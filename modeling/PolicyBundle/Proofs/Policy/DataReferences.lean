import Mathlib.Data.List.Nodup
import PolicyBundle.Proofs.Policy.Calls

/-! The names that a reader of a source sees in its statements and behind the word `import`, and what the
scanner records of those below `data`. An import is recorded with all of its path. A name in the
statements is recorded as a document, unless it is `data` alone, of which nothing follows, or the
scanner takes it for the name of a rule. -/

namespace PolicyBundle.Policy

/-- A name that a module has in its source: on a line of its statements, or as the path of an
import. -/
inductive Names (m : Module) (line : Line) (before name : List Char) : Prop where
  | statement {above : List Line} (hLine : IsStatementLine m above line)
      (hName : NamedAt line before name)
  | importPath (hLine : line ∈ Line.ofSource m.source.toList)
      (hImport : line.isImportOf m.imports = true) (hWord : Text.trim before = "import".toList)
      (hName : NamedAt line before name)

section Documents

variable {path source : String} {dialect : Dialect} {m : Module} {above : List Line} {line : Line}

/-- A name in the statements of a module is a mention, unless it is that of a rule's head. -/
theorem IsStatementLine.exists_mention (hParse : Module.parse path source dialect = .ok m)
    (hLine : IsStatementLine m above line) {before name : List Char}
    (hName : NamedAt line before name) (hHead : ¬IsHeadName m line before name) :
    ∃ s r, ComesTo m.dialect (Line.ofSource m.source.toList) above s line ∧
      s.readsCode line = true ∧ r ∈ s.mentions line ∧ r.path = name := by
  obtain ⟨s, hComes, hCode, hRules⟩ := hLine.readsCode hParse
  obtain ⟨after, hSource⟩ := hLine.source
  have hStrip : line.code = (strip line.mode line.text).1 :=
    Line.code_of_mem_ofSource (hSource ▸ List.mem_append_right _ List.mem_cons_self)
  obtain ⟨more, hMore, hAfter⟩ := hName.code_eq hStrip
  have hBegins : endsName (strip line.mode before).1.getLast? = true := by
    rw [getLast?_strip_front hName.outside]
    exact hName.begins
  have hFound := mem_references_of_isDottedName hName.dotted hBegins hAfter
  rw [← hMore] at hFound
  refine ⟨s, _, hComes, hCode, List.mem_filter.mpr ⟨hFound, ?_⟩, rfl⟩
  rw [decide_eq_true_eq]
  exact fun hStart => hHead (isHeadName_of_start hStrip hName hRules hStart)

/-- A name below `data` in the statements of a module is recorded, unless it is that of a rule's
head. -/
theorem mem_dataRefs_of_namedAt (hParse : Module.parse path source dialect = .ok m)
    (hLine : IsStatementLine m above line) {before rest : List Char}
    (hName : NamedAt line before ("data.".toList ++ rest))
    (hHead : ¬IsHeadName m line before ("data.".toList ++ rest)) :
    String.ofList rest ∈ m.dataRefs := by
  obtain ⟨s, r, hComes, hCode, hMention, hPath⟩ := hLine.exists_mention hParse hName hHead
  have hDocument : Text.afterList? "data.".toList r.path = some rest := by
    rw [Text.afterList?_eq_some_iff, hPath]
  have hIs : r.isDocument = true := by
    rw [Reference.isDocument, hDocument]
    rfl
  refine (mem_dataRefs_iff hParse _).mpr ⟨above, s, line, r, ⟨hComes, hCode, hMention, ?_⟩, ?_⟩
  · rw [hIs, Bool.or_true]
  · rw [hDocument, String.toList_ofList]

end Documents

section Imports

/-- A line that an import is read from. -/
structure Line.ReadsImport (line : Line) (found : Import) : Prop where
  outside : line.inString = false
  parsed : parseImport (Text.trim line.code) line.number = .ok found

namespace Scan

variable {dialect : Dialect} {s t : Scan} {line : Line}

theorem Reads.readsImport (hReads : Reads dialect s line t) :
    ∀ i ∈ t.imports, i ∈ s.imports ∨ line.ReadsImport i := by
  cases hReads with
  | blank hBlank =>
      rw [passOver_eq]
      exact fun i hi => .inl hi
  | package hCode hFirst hName => exact fun i hi => .inl hi
  | @importLine found hCode hPackage hImport hFound =>
      intro i hi
      rcases List.mem_append.mp hi with hi | hi
      · exact .inl hi
      · obtain rfl := List.mem_singleton.mp hi
        simp only [Scan.readsImport, atStart, Bool.and_eq_true, Bool.not_eq_true'] at hImport
        exact .inr ⟨hImport.1.2, hFound⟩
  | code hCode hPackage hImport hFault =>
      rw [afterCode_imports]
      exact fun i hi => .inl hi

/-- Every import is read from one of the lines. -/
theorem ReadsAll.exists_readsImport {lines : List Line} (hReads : ReadsAll dialect s lines t) :
    ∀ i ∈ t.imports, i ∈ s.imports ∨ ∃ line ∈ lines, line.ReadsImport i := by
  induction hReads with
  | nil s => exact fun i hi => .inl hi
  | @cons s next t line rest first others ih =>
      intro i hi
      rcases ih i hi with hNext | ⟨found, hFound, hImport⟩
      · rcases first.readsImport i hNext with hBefore | hImport
        · exact .inl hBefore
        · exact .inr ⟨line, List.mem_cons_self, hImport⟩
      · exact .inr ⟨found, List.mem_cons_of_mem _ hFound, hImport⟩

end Scan

theorem continuesName_of_prefix {front text : List Char} (hFront : front <+: text)
    (h : continuesName text = false) : continuesName front = false := by
  obtain ⟨rest, rfl⟩ := hFront
  cases front with
  | nil => rfl
  | cons c front =>
      cases front with
      | nil =>
          rw [List.cons_append, continuesName, Bool.or_eq_false_iff] at h
          simp [continuesName, h.1]
      | cons d front => exact h

theorem isBlank_of_isIdentChar {c : Char} (h : isIdentChar c = true) : Text.isBlank c = false := by
  have hRange : 48 ≤ c.toNat ∧ c.toNat ≤ 122 := by
    simp only [isIdentChar, Bool.or_eq_true, decide_eq_true_eq] at h
    rcases h with h | rfl
    · delta Char.isAlphanum Char.isAlpha Char.isUpper Char.isLower Char.isDigit at h
      simp only [Bool.or_eq_true, Bool.and_eq_true, decide_eq_true_eq, ge_iff_le,
        UInt32.le_iff_toNat_le] at h
      have hValue : c.toNat = c.val.toNat := rfl
      have hBounds : 'A'.val.toNat = 65 ∧ 'Z'.val.toNat = 90 ∧ 'a'.val.toNat = 97 ∧
          'z'.val.toNat = 122 ∧ '0'.val.toNat = 48 ∧ '9'.val.toNat = 57 := by decide
      omega
    · decide
  rw [Bool.eq_false_iff, Text.isBlank]
  simp only [ne_eq, Bool.or_eq_true, Bool.and_eq_true, decide_eq_true_eq, beq_iff_eq]
  omega

theorem dropWhile_append_of_forall {α : Type} {p : α → Bool} {front : List α} (hSome : front ≠ [])
    (h : ∀ x ∈ front, p x = false) (rest : List α) :
    (front ++ rest).dropWhile p = front ++ rest := by
  cases front with
  | nil => exact absurd rfl hSome
  | cons x front =>
      exact List.dropWhile_cons_of_neg (by rw [h x List.mem_cons_self]; exact Bool.false_ne_true)

/-- There is no blank in a dotted name. -/
theorem isBlank_of_isDottedName {name : List Char} (h : IsDottedName name) :
    name ≠ [] ∧ ∀ c ∈ name, Text.isBlank c = false := by
  have hEnd : continuesName [] = false := rfl
  obtain ⟨-, c, rest, hName, -⟩ := dottedName_of_isDottedName h hEnd
  refine ⟨by simp [hName], fun c hc => ?_⟩
  rcases mem_isDottedName h hc with hIdent | rfl
  · exact isBlank_of_isIdentChar hIdent
  · decide

/-- Nothing is trimmed from a text in front of the end of a dotted name, if it begins with no
blank. -/
theorem trim_append_name {front name : List Char} (hName : IsDottedName name)
    (hFront : (front ++ name).dropWhile Text.isBlank = front ++ name) (text : List Char) :
    ∃ more, Text.trim (front ++ (name ++ text)) = front ++ (name ++ more) ∧ more <+: text := by
  obtain ⟨hSome, hBlank⟩ := isBlank_of_isDottedName hName
  have hLast : (front ++ name).reverse.dropWhile Text.isBlank = (front ++ name).reverse := by
    rw [List.reverse_append]
    exact dropWhile_append_of_forall (by simpa using hSome)
      (fun c hc => hBlank c (List.mem_reverse.mp hc)) _
  obtain ⟨more, hTrim, hMore⟩ := Text.trim_append (front ++ name) hFront hLast (by simp [hSome]) text
  rw [List.append_assoc, List.append_assoc] at hTrim
  exact ⟨more, hTrim, hMore⟩

theorem parseImport_path {code : List Char} {number : Nat} {found : Import}
    (h : parseImport code number = .ok found) :
    found.path = String.ofList (dottedName (Text.trim (code.drop "import".length))).1 := by
  simp only [parseImport] at h
  split at h
  · cases h
  · split at h
    · cases h
      rfl
    · split at h
      · cases h
        rfl
      · cases h

/-- The word `import` and the blanks around it are code throughout. -/
theorem strip_of_trim_eq_import {before : List Char} (hWord : Text.trim before = "import".toList) :
    (strip .code before).1 = before := by
  obtain ⟨left, right, hBefore, hLeft, hRight⟩ := Text.exists_blanks_trim before
  rw [hWord] at hBefore
  have hPlain : ∀ c ∈ before, c ≠ '#' ∧ c ≠ '"' ∧ c ≠ '`' := by
    intro c hc
    have hKind : Text.isBlank c = true ∨ c ∈ "import".toList := by
      rw [hBefore, List.mem_append, List.mem_append] at hc
      rcases hc with hc | hc | hc
      · exact .inl (hLeft c hc)
      · exact .inr hc
      · exact .inl (hRight c hc)
    refine ⟨?_, ?_, ?_⟩ <;> rintro rfl <;> exact absurd hKind (by decide)
  rw [strip_code_of_plain hPlain]

/-- The path of the import on a line is the name behind the word `import`. -/
theorem Line.ReadsImport.path_eq {line : Line} {found : Import} (hImport : line.ReadsImport found)
    (hCode : line.code = (strip line.mode line.text).1) {before name : List Char}
    (hWord : Text.trim before = "import".toList) (hName : NamedAt line before name) :
    found.path = String.ofList name := by
  obtain ⟨hSome, hBlank⟩ := isBlank_of_isDottedName hName.dotted
  obtain ⟨left, right, hBefore, hLeft, hRight⟩ := Text.exists_blanks_trim before
  rw [hWord] at hBefore
  obtain ⟨more, hLine, hMore⟩ := hName.code_eq hCode
  -- The line is trimmed once as a whole, and once more behind the word.
  have hImportWord : ("import".toList ++ right ++ name).dropWhile Text.isBlank =
      "import".toList ++ right ++ name := rfl
  obtain ⟨most, hTrim, hMost⟩ := trim_append_name hName.dotted hImportWord more
  have hStart : ([] ++ name).dropWhile Text.isBlank = [] ++ name := by
    simpa using dropWhile_append_of_forall hSome hBlank []
  obtain ⟨rest, hRest, hPrefix⟩ := trim_append_name hName.dotted hStart most
  rw [List.nil_append, List.nil_append] at hRest
  have hTrimmed : Text.trim line.code = "import".toList ++ (right ++ (name ++ most)) := by
    rw [hLine, Line.mode_of_outside hImport.outside, strip_of_trim_eq_import hWord, hBefore,
      List.append_assoc, Text.trim_indent hLeft, hTrim, List.append_assoc]
  have hDrop : ("import".toList ++ (right ++ (name ++ most))).drop "import".length =
      right ++ (name ++ most) := rfl
  have hEnds : continuesName rest = false :=
    continuesName_of_prefix (hPrefix.trans hMost) hMore
  rw [parseImport_path hImport.parsed, hTrimmed, hDrop, Text.trim_indent hRight, hRest,
    (dottedName_of_isDottedName hName.dotted hEnds).1]

/-- The path of an import that a module names is that of an import of the module. -/
theorem exists_import_of_namedAt {path source : String} {dialect : Dialect} {m : Module} {line : Line}
    (hParse : Module.parse path source dialect = .ok m)
    (hLine : line ∈ Line.ofSource m.source.toList) (hImport : line.isImportOf m.imports = true)
    {before name : List Char} (hWord : Text.trim before = "import".toList)
    (hName : NamedAt line before name) : ∃ i ∈ m.imports, i.path = String.ofList name := by
  obtain ⟨u, package, hAll, hPackage, rfl⟩ := Module.parse_eq_ok_iff.mp hParse
  obtain ⟨i, hi, hNumber⟩ := List.any_eq_true.mp hImport
  have hNumber : i.line = line.number := by simpa using hNumber
  rcases hAll.exists_readsImport i hi with hNone | ⟨other, hOther, hReads⟩
  · cases hNone
  · have hSame : other = line :=
      List.inj_on_of_nodup_map (Line.nodup_ofSource source.toList) hOther hLine
        ((parseImport_line hReads.parsed).symm.trans hNumber)
    subst hSame
    exact ⟨i, hi, hReads.path_eq (Line.code_of_mem_ofSource hLine) hWord hName⟩

end Imports

end PolicyBundle.Policy
