import PolicyBundle.Proofs.Policy.Erasing

/-! A comment that neither opens a block nor declares an entrypoint is a remark. A scan passes over it
in every state and keeps all that it has in mind, and it copies the numbers of lines without looking at
them. So one more line with a remark leaves a module as it is, but for the numbers of the lines below. -/

namespace PolicyBundle.Policy

section Renumbering

variable (f : Nat → Nat)

def Import.renumber (i : Import) : Import := { i with line := f i.line }

def Rule.renumber (r : Rule) : Rule := { r with line := f r.line }

def Call.renumber (c : Call) : Call := { c with line := f c.line }

def Line.renumber (line : Line) : Line := { line with number := f line.number }

/-- What a scan has found, under other numbers of lines. -/
def Scan.renumber (s : Scan) : Scan :=
  { s with
    imports := s.imports.map (·.renumber f)
    rules := s.rules.map (·.renumber f)
    calls := s.calls.map (·.renumber f) }

/-- A module with other numbers of lines. -/
def Module.renumber (m : Module) : Module :=
  { m with
    imports := m.imports.map (·.renumber f)
    rules := m.rules.map (·.renumber f)
    calls := m.calls.map (·.renumber f) }

/-- An error at another line. That there is no code at all is the fault of no line. -/
def ParseError.renumber (e : ParseError) : ParseError :=
  if e.fault = .emptyModule then e else { e with line := f e.line }

theorem ParseError.renumber_mk {fault : Fault} (h : fault ≠ .emptyModule) (file : String)
    (line : Nat) : ParseError.renumber f ⟨file, line, fault⟩ = ⟨file, f line, fault⟩ :=
  if_neg h

theorem parsePackage_fault {code : List Char} {fault : Fault}
    (h : parsePackage code = .error fault) : fault ≠ .emptyModule := by
  rintro rfl
  simp only [parsePackage] at h
  split at h
  · cases h
  · cases h
  · split at h
    · cases h
    · split at h <;> cases h

theorem parseImport_fault {code : List Char} {number : Nat} {fault : Fault}
    (h : parseImport code number = .error fault) : fault ≠ .emptyModule := by
  rintro rfl
  simp only [parseImport] at h
  split at h
  · cases h
  · split at h
    · cases h
    · split at h <;> cases h

theorem ruleFault?_fault {dialect : Dialect} {imports : List Import} {code : List Char}
    {fault : Fault} (h : ruleFault? dialect imports code = some fault) : fault ≠ .emptyModule := by
  rintro rfl
  rw [ruleFault?] at h
  split at h
  · split at h
    · split at h <;> cases h
    · cases h
  · obtain ⟨keyword, -, hFault⟩ := Option.map_eq_some_iff.mp h
    cases hFault

theorem parseImport_renumber (code : List Char) (number : Nat) :
    parseImport code (f number) = (parseImport code number).map (·.renumber f) := by
  simp only [parseImport]
  generalize Text.trim (code.drop "import".length) = text
  obtain ⟨name, after⟩ := dottedName text
  by_cases hPath : (String.ofList name = "" || !importable (String.ofList name)) = true
  · rw [if_pos hPath, if_pos hPath]
    rfl
  · rw [if_neg hPath, if_neg hPath]
    cases Text.afterList? "as ".toList (Text.trim after) with
    | some name => rfl
    | none =>
        by_cases hTail : (Text.trim after).isEmpty = true
        · simp only [if_pos hTail]
          rfl
        · simp only [if_neg hTail]
          rfl

theorem ruleFault?_renumber (dialect : Dialect) (imports : List Import) (code : List Char) :
    ruleFault? dialect (imports.map (·.renumber f)) code = ruleFault? dialect imports code := by
  have hImported (keyword : String) :
      keywordImported (imports.map (·.renumber f)) keyword = keywordImported imports keyword :=
    List.any_map
  have hApplies : appliesV1 dialect (imports.map (·.renumber f)) = appliesV1 dialect imports := by
    rw [appliesV1, appliesV1, List.any_map]
    rfl
  simp only [ruleFault?, hApplies, hImported]

namespace Scan

variable {dialect : Dialect} (s : Scan) (line : Line)

theorem passOver_renumber :
    (s.renumber f).passOver (line.renumber f) = (s.passOver line).renumber f := by
  have hInside : (line.renumber f).inString = line.inString := rfl
  have hText : (line.renumber f).text = line.text := rfl
  have hBlock : (s.renumber f).inMetadata = s.inMetadata := rfl
  rw [passOver, passOver, hInside, hText, hBlock]
  cases (if line.inString then none else commentBody? line.text) with
  | none => rfl
  | some body =>
      by_cases hOpens : body = "METADATA".toList
      · simp only [if_pos hOpens]
        rfl
      · simp only [if_neg hOpens]
        cases s.inMetadata && declaresEntrypoint body <;> rfl

theorem headFault?_renumber (dialect : Dialect) :
    (s.renumber f).headFault? dialect (line.renumber f) = s.headFault? dialect line := by
  have hHead : (s.renumber f).headOf (line.renumber f) = s.headOf line := rfl
  rw [headFault?, headFault?, hHead]
  exact congrArg (fun fault? => if (s.headOf line).isSome then fault? else none)
    (ruleFault?_renumber f dialect s.imports line.code)

theorem ruleOn_renumber :
    (s.renumber f).ruleOn (line.renumber f) = (s.ruleOn line).map (·.renumber f) := by
  have hHead : (s.renumber f).headOf (line.renumber f) = s.headOf line := rfl
  rw [ruleOn, ruleOn, hHead]
  cases s.headOf line <;> rfl

theorem callsOn_renumber :
    (s.renumber f).callsOn (line.renumber f) = (s.callsOn line).map (·.renumber f) := by
  have hMentions : (s.renumber f).mentions (line.renumber f) = s.mentions line := rfl
  rw [callsOn, callsOn, List.map_filterMap, hMentions]
  congr 1
  funext r
  split <;> rfl

theorem afterCode_renumber :
    (s.renumber f).afterCode (line.renumber f) = (s.afterCode line).renumber f := by
  rw [afterCode_eq, afterCode_eq, ruleOn_renumber, callsOn_renumber]
  simp only [renumber, List.map_append]
  rfl

theorem addCode_renumber (dialect : Dialect) :
    addCode dialect (s.renumber f) (line.renumber f) =
      (addCode dialect s line).map (·.renumber f) := by
  cases hImport : s.readsImport line with
  | true =>
      have hFound : parseImport (Text.trim (line.renumber f).code) (line.renumber f).number =
          (parseImport (Text.trim line.code) line.number).map (·.renumber f) :=
        parseImport_renumber f _ _
      have hSame : (s.renumber f).readsImport (line.renumber f) = true := hImport
      rw [addCode_of_import hSame, addCode_of_import hImport, hFound]
      cases parseImport (Text.trim line.code) line.number with
      | error fault => rfl
      | ok found => simp [Except.map, renumber]
  | false =>
      have hSame : (s.renumber f).readsImport (line.renumber f) = false := hImport
      rw [addCode_of_code hSame, addCode_of_code hImport, headFault?_renumber, afterCode_renumber]
      cases s.headFault? dialect line <;> rfl

theorem addCode_fault {dialect : Dialect} {fault : Fault}
    (h : addCode dialect s line = .error fault) : fault ≠ .emptyModule := by
  cases hImport : s.readsImport line with
  | true =>
      rw [addCode_of_import hImport] at h
      cases hFound : parseImport (Text.trim line.code) line.number with
      | error found =>
          rw [hFound] at h
          cases h
          exact parseImport_fault hFound
      | ok found =>
          rw [hFound] at h
          cases h
  | false =>
      rw [addCode_of_code hImport] at h
      cases hFault : s.headFault? dialect line with
      | some found =>
          rw [hFault] at h
          cases h
          rw [headFault?] at hFault
          split at hFault
          · exact ruleFault?_fault hFault
          · cases hFault
      | none =>
          rw [hFault] at h
          cases h

/-- A fault that is the fault of a line moves with the line. -/
theorem mapError_renumber {next : Except Fault Scan} (file : String) (number : Nat)
    (hNext : ∀ fault, next = .error fault → fault ≠ .emptyModule) :
    (next.map (·.renumber f)).mapError (fun fault => (⟨file, f number, fault⟩ : ParseError)) =
      ((next.mapError fun fault => (⟨file, number, fault⟩ : ParseError)).map
        (·.renumber f)).mapError (·.renumber f) := by
  cases next with
  | error fault =>
      exact congrArg Except.error (ParseError.renumber_mk f (hNext fault rfl) file number).symm
  | ok next => rfl

/-- A line under another number is read as before, and what it brings has the other number. -/
theorem addLine_renumber (file : String) (dialect : Dialect) :
    addLine file dialect (s.renumber f) (line.renumber f) =
      ((addLine file dialect s line).map (·.renumber f)).mapError (·.renumber f) := by
  have hSame : (line.renumber f).hasCode = line.hasCode := rfl
  cases hCode : line.hasCode with
  | false =>
      rw [addLine_of_blank (hSame.trans hCode), addLine_of_blank hCode, passOver_renumber]
      rfl
  | true =>
      cases hPackage : s.package with
      | none =>
          have hFirst : (s.renumber f).package = none := hPackage
          rw [addLine_of_first (hSame.trans hCode) hFirst, addLine_of_first hCode hPackage,
            ← mapError_renumber]
          · show Except.mapError _ ((parsePackage (Text.trim line.code)).map _) = _
            cases parsePackage (Text.trim line.code) <;> rfl
          · intro fault hFault
            cases hName : parsePackage (Text.trim line.code) with
            | error found =>
                rw [hName] at hFault
                cases hFault
                exact parsePackage_fault hName
            | ok name =>
                rw [hName] at hFault
                cases hFault
      | some name =>
          have hBehind : s.package.isSome = true := by
            rw [hPackage]
            rfl
          have hBehind' : (s.renumber f).package.isSome = true := hBehind
          rw [addLine_of_behind (hSame.trans hCode) hBehind', addLine_of_behind hCode hBehind,
            ← mapError_renumber, ← addCode_renumber]
          · rfl
          · exact fun fault => addCode_fault _ _

/-- The run of a scan under other numbers of lines. -/
theorem foldlM_addLine_renumber (file : String) (dialect : Dialect) (lines : List Line) :
    (lines.map (·.renumber f)).foldlM (addLine file dialect) (s.renumber f) =
      ((lines.foldlM (addLine file dialect) s).map (·.renumber f)).mapError (·.renumber f) := by
  induction lines generalizing s with
  | nil => rfl
  | cons line rest ih =>
      rw [List.map_cons, List.foldlM_cons, List.foldlM_cons, addLine_renumber]
      cases addLine file dialect s line with
      | error e => rfl
      | ok next => exact ih next

/-- The run of a scan that meets one more line, which leaves every scan as it is. -/
theorem foldlM_addLine_insert (file : String) (dialect : Dialect) (above : List Line)
    {between : Line} (hBetween : ∀ s, addLine file dialect s between = .ok s)
    (below : List Line) :
    (above.map (·.renumber f) ++ between :: below.map (·.renumber f)).foldlM
        (addLine file dialect) (s.renumber f) =
      (((above ++ below).foldlM (addLine file dialect) s).map (·.renumber f)).mapError
        (·.renumber f) := by
  rw [List.foldlM_append, List.foldlM_append, foldlM_addLine_renumber]
  cases above.foldlM (addLine file dialect) s with
  | error e => rfl
  | ok next =>
      show (between :: below.map (·.renumber f)).foldlM (addLine file dialect) (next.renumber f) = _
      rw [List.foldlM_cons, hBetween]
      exact foldlM_addLine_renumber f next file dialect below

end Scan

/-- Lines keep what they are when they are counted from elsewhere. -/
theorem Line.map_renumber_numbered {first second : Nat} {texts : List (List Char)}
    (hCount : ∀ i < texts.length, f (first + i) = second + i) (inString : Bool) :
    (Line.numbered first inString texts).map (·.renumber f) =
      Line.numbered second inString texts := by
  induction texts generalizing first second inString with
  | nil => rfl
  | cons text rest ih =>
      have hFirst : f first = second := hCount 0 (Nat.succ_pos _)
      have hRest : ∀ i < rest.length, f (first + 1 + i) = second + 1 + i := by
        intro i hi
        rw [Nat.add_assoc, Nat.add_comm 1, Nat.add_assoc second, Nat.add_comm 1]
        exact hCount (i + 1) (Nat.succ_lt_succ hi)
      rw [Line.numbered_cons, Line.numbered_cons, List.map_cons, ih hRest]
      exact congrArg (· :: _) (by rw [← hFirst]; rfl)

end Renumbering

section Remarks

/-- A comment that neither opens a block of comments nor declares an entrypoint. -/
def IsRemark (line : List Char) : Prop :=
  ∃ body, commentBody? line = some body ∧ body ≠ "METADATA".toList ∧
    declaresEntrypoint body = false

theorem IsRemark.exists_eq {line : List Char} (h : IsRemark line) : ∃ left rest,
    line = left ++ '#' :: rest ∧ ∀ c ∈ left, Text.isBlank c = true := by
  obtain ⟨body, hBody, -, -⟩ := h
  obtain ⟨left, right, hLine, hLeft, -⟩ := Text.exists_blanks_trim line
  rw [commentBody?] at hBody
  split at hBody
  · next rest hTrim =>
      rw [hTrim] at hLine
      exact ⟨left, rest ++ right, hLine, hLeft⟩
  · cases hBody

theorem IsRemark.strip_eq {line : List Char} (h : IsRemark line) :
    (strip .code line).2 = false ∧ Text.blank (strip .code line).1 = true := by
  obtain ⟨left, rest, rfl, hLeft⟩ := h.exists_eq
  have hPlain : ∀ c ∈ left, c ≠ '#' ∧ c ≠ '"' ∧ c ≠ '`' := by
    intro c hc
    have hBlank := hLeft c hc
    exact ⟨ne_of_isBlank hBlank rfl, ne_of_isBlank hBlank rfl, ne_of_isBlank hBlank rfl⟩
  have hComment : strip .code ('#' :: rest) = ([], false) := if_pos rfl
  rw [strip_code_append hPlain, hComment, List.append_nil]
  exact ⟨rfl, List.all_eq_true.mpr hLeft⟩

/-- A scan passes over a remark and keeps all it has in mind. -/
theorem IsRemark.addLine_single {line : List Char} (h : IsRemark line) (file : String)
    (dialect : Dialect) (number : Nat) (s : Scan) :
    Scan.addLine file dialect s (.single number false line) = .ok s := by
  have hBlank : (Line.single number false line).hasCode = false := by
    rw [Line.hasCode, Bool.not_eq_false']
    exact h.strip_eq.2
  obtain ⟨body, hBody, hOpens, hDeclares⟩ := h
  have hComment : (if (Line.single number false line).inString then none
      else commentBody? (Line.single number false line).text) = some body := hBody
  rw [Scan.addLine_of_blank hBlank, Scan.passOver, hComment]
  simp only [if_neg hOpens, hDeclares, Bool.and_false, Bool.false_eq_true, if_false]

/-- The number of a line when there is one more line below the first `above` ones. -/
def pushed (above number : Nat) : Nat :=
  if number ≤ above then number else number + 1

/-- The lines of a source with a remark among them. -/
theorem Line.ofSource_insert {first second : List Char} {above below : List (List Char)}
    {remark : List Char} (hFirst : Text.lines first = above ++ below)
    (hSecond : Text.lines second = above ++ remark :: below)
    (hOutside : Line.endsInString false above = false) (hRemark : IsRemark remark) :
    Line.ofSource first = Line.numbered 1 false above ++
        Line.numbered (1 + above.length) false below ∧
      Line.ofSource second = (Line.numbered 1 false above).map (·.renumber (pushed above.length)) ++
        Line.single (1 + above.length) false remark ::
          (Line.numbered (1 + above.length) false below).map
            (·.renumber (pushed above.length)) := by
  have hAbove : ∀ i < above.length, pushed above.length (1 + i) = 1 + i := by
    intro i hi
    exact if_pos (by omega)
  have hBelow : ∀ i < below.length,
      pushed above.length (1 + above.length + i) = 1 + above.length + 1 + i := by
    intro i _
    rw [pushed, if_neg (by omega)]
    omega
  have hLeaves : (Line.single (1 + above.length) false remark).leavesString = false :=
    hRemark.strip_eq.1
  constructor
  · rw [Line.ofSource, hFirst, Line.numbered_append, hOutside]
  · rw [Line.ofSource, hSecond, Line.numbered_append, hOutside, Line.numbered_cons, hLeaves,
      Line.map_renumber_numbered _ hAbove, Line.map_renumber_numbered _ hBelow]

/-- One more line with a remark, anywhere outside a raw string, leaves a module as it is but for its
text and the numbers of the lines below, and so it does with errors. -/
theorem parse_insert_remark {first second : String} {above below : List (List Char)}
    {remark : List Char} (hFirst : Text.lines first.toList = above ++ below)
    (hSecond : Text.lines second.toList = above ++ remark :: below)
    (hOutside : Line.endsInString false above = false) (hRemark : IsRemark remark)
    (path : String) (dialect : Dialect) :
    Module.parse path second dialect =
      ((Module.parse path first dialect).map fun m =>
        { m.renumber (pushed above.length) with source := second }).mapError
          (·.renumber (pushed above.length)) := by
  obtain ⟨hBefore, hAfter⟩ := Line.ofSource_insert hFirst hSecond hOutside hRemark
  have hScan := Scan.foldlM_addLine_insert (pushed above.length) .empty path dialect
    (Line.numbered 1 false above) (hRemark.addLine_single path dialect (1 + above.length))
    (Line.numbered (1 + above.length) false below)
  rw [← hBefore, ← hAfter, show Scan.empty.renumber _ = Scan.empty from rfl] at hScan
  rw [Module.parse, Module.parse, Scan.ofSource, Scan.ofSource, hScan]
  cases (Line.ofSource first.toList).foldlM (Scan.addLine path dialect) Scan.empty with
  | error e => rfl
  | ok s =>
      have hPackage : (s.renumber (pushed above.length)).package = s.package := rfl
      simp only [Except.map, Except.mapError, bind, Except.bind, hPackage]
      cases s.package with
      | none => exact congrArg Except.error (if_pos rfl).symm
      | some package => rfl

/-- A block of comments with an entrypoint, up to its first line. -/
def blockBegun : String :=
  "package p\n# METADATA\n"

/-- The rest of the block and the rule below it. -/
def blockEnded : String :=
  "# entrypoint: true\nallow if input.x > 0\n"

theorem parse_insert_remark_block :
    Module.parse "policy.rego" (blockBegun ++ "  # title: access\n" ++ blockEnded) .v1 = .ok
      { path := "policy.rego", package := "p", imports := [], calls := [], dataRefs := []
        rules := [⟨"allow", false, true, 5⟩], packageEntrypoint := false, dialect := .v1
        source := blockBegun ++ "  # title: access\n" ++ blockEnded } := by
  have hBegun : blockBegun.toList = [] ∨ blockBegun.toList.getLast? = some '\n' := Or.inr rfl
  have hFirst : Text.lines (blockBegun ++ blockEnded).toList =
      Text.lines blockBegun.toList ++ Text.lines blockEnded.toList := by
    rw [String.toList_append, Text.lines_append hBegun]
  have hSecond : Text.lines (blockBegun ++ "  # title: access\n" ++ blockEnded).toList =
      Text.lines blockBegun.toList ++
        "  # title: access".toList :: Text.lines blockEnded.toList := by
    rw [String.toList_append, String.toList_append, List.append_assoc, Text.lines_append hBegun]
    rfl
  rw [parse_insert_remark hFirst hSecond rfl ⟨"title: access".toList, rfl, by decide, rfl⟩]
  rfl

end Remarks

end PolicyBundle.Policy
