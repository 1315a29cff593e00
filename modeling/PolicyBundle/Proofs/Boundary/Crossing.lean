import Mathlib.Data.List.TakeWhile
import PolicyBundle.Boundary.Client
import PolicyBundle.Proofs.Files.Resolution
import PolicyBundle.Proofs.Log.Attempts
import PolicyBundle.Proofs.Text.Utf8

/-! How what a client asks for crosses the boundary. Texts without zero bytes are read back as they
were, so a record that a client makes stands for what the client asks for, but for what counts as
absent on the other side: empty texts, and all of an optimization level beyond the greatest one. -/

namespace PolicyBundle.Boundary

open Log

section Texts

/-- A text that can be a foreign string. -/
def ZeroFree (text : String) : Prop := '\x00' ∉ text.toList

instance (text : String) : Decidable (ZeroFree text) :=
  inferInstanceAs (Decidable ('\x00' ∉ text.toList))

theorem zero_notMem_utf8_iff (text : String) : (0 : UInt8) ∉ Text.utf8 text ↔ ZeroFree text :=
  not_congr (Text.mem_utf8_iff (c := '\x00') (by decide) text)

theorem enter_of_zeroFree {text : String} (h : ZeroFree text) :
    enter text = .ok (Text.utf8 text) := by
  have hNone : (Text.utf8 text).idxOf? 0 = none := by
    rwa [List.idxOf?_eq_none_iff, zero_notMem_utf8_iff]
  rw [enter, hNone]

theorem zeroFree_of_enter {text : String} {bytes : Bytes} (h : enter text = .ok bytes) :
    ZeroFree text := by
  rw [← zero_notMem_utf8_iff, ← List.idxOf?_eq_none_iff]
  rw [enter] at h
  cases hZero : (Text.utf8 text).idxOf? 0 with
  | none => rfl
  | some position =>
      simp only [hZero] at h
      cases h

theorem mapM_enter {texts : List String} (h : ∀ text ∈ texts, ZeroFree text) :
    texts.mapM enter = .ok (texts.map Text.utf8) := by
  induction texts with
  | nil => rfl
  | cons text texts ih =>
      obtain ⟨hFirst, hRest⟩ := List.forall_mem_cons.mp h
      rw [List.mapM_cons, enter_of_zeroFree hFirst, ih hRest]
      rfl

theorem zeroFree_of_mapM {texts : List String} {entered : List Bytes}
    (h : texts.mapM enter = .ok entered) : ∀ text ∈ texts, ZeroFree text := by
  induction texts generalizing entered with
  | nil => exact fun text hText => absurd hText List.not_mem_nil
  | cons first texts ih =>
      rw [List.mapM_cons] at h
      obtain ⟨bytes, hFirst, h⟩ := bind_eq_ok h
      obtain ⟨rest, hRest, -⟩ := bind_eq_ok h
      exact List.forall_mem_cons.mpr ⟨zeroFree_of_enter hFirst, ih hRest⟩

theorem mapM_enter_option {text : Option String} (h : ∀ t ∈ text, ZeroFree t) :
    text.mapM enter = .ok (text.map Text.utf8) := by
  cases text with
  | none => rfl
  | some text =>
      rw [Option.mapM_some, enter_of_zeroFree (h text rfl)]
      rfl

theorem zeroFree_of_mapM_option {text : Option String} {entered : Option Bytes}
    (h : text.mapM enter = .ok entered) : ∀ t ∈ text, ZeroFree t := by
  rintro t rfl
  rw [Option.mapM_some] at h
  obtain ⟨bytes, hEnter, -⟩ := bind_eq_ok h
  exact zeroFree_of_enter hEnter

/-- A text is read back as it was. -/
theorem textOf_utf8 {text : String} (h : ZeroFree text) : textOf (some (Text.utf8 text)) = some text := by
  have hWhole : (Text.utf8 text).takeWhile (· ≠ 0) = Text.utf8 text := by
    rw [List.takeWhile_eq_self_iff]
    intro b hb
    rw [decide_eq_true_eq]
    rintro rfl
    exact (zero_notMem_utf8_iff text).mpr h hb
  rw [textOf, Option.map_some, hWhole, Text.ofUtf8Lossy_utf8]

theorem properText_utf8 {text : String} (h : ZeroFree text) :
    properText (some (Text.utf8 text)) = (some text).filter fun text => !text.isEmpty := by
  rw [properText, textOf_utf8 h]

theorem properText_map_utf8 {text : Option String} (h : ∀ t ∈ text, ZeroFree t) :
    properText (text.map Text.utf8) = text.filter fun text => !text.isEmpty := by
  cases text with
  | none => rfl
  | some text => exact properText_utf8 (h text rfl)

/-- Texts are read back in order, without the empty ones. -/
theorem properTexts_arrayOf {texts : List String} (h : ∀ text ∈ texts, ZeroFree text) :
    properTexts (arrayOf (texts.map Text.utf8) texts.length) =
      texts.filter fun text => !text.isEmpty := by
  have hItems : ((arrayOf (texts.map Text.utf8) texts.length).items.getD []) =
      texts.map fun text => some (Text.utf8 text) := by
    cases texts with
    | nil => rfl
    | cons text texts => simp [arrayOf]
  have hLength : (arrayOf (texts.map Text.utf8) texts.length).length.toNat =
      (texts.map fun text => some (Text.utf8 text)).length := by
    simp [arrayOf]
  rw [properTexts, hItems, hLength, List.take_length]
  clear hItems hLength
  induction texts with
  | nil => rfl
  | cons text texts ih =>
      obtain ⟨hFirst, hRest⟩ := List.forall_mem_cons.mp h
      rw [List.map_cons, List.filterMap_cons, properText_utf8 hFirst, List.filter_cons, ih hRest]
      cases hEmpty : text.isEmpty <;> simp [Option.filter, hEmpty]

theorem isSet_flagOf (set : Bool) : isSet (flagOf set) = set := by
  cases set <;> rfl

end Texts

namespace ClientParameters

/-- What a client asks for can cross the boundary: no text of it has a zero byte, and a file of
capabilities can be read. The document of capabilities is then what was read, or what the client gives
itself. -/
structure Crosses (files : Files.Tree) (p : ClientParameters) (document : Option String) : Prop where
  read : p.document files = .ok document
  target : ZeroFree p.target
  entrypoints : ∀ text ∈ p.entrypoints, ZeroFree text
  ignore : ∀ text ∈ p.ignore, ZeroFree text
  document : ∀ text ∈ document, ZeroFree text
  version : ∀ text ∈ p.capabilitiesVersion, ZeroFree text
  revision : ∀ text ∈ p.revision, ZeroFree text

/-- What keeps arrays from crossing: more items than can be declared. -/
def countFault? (p : ClientParameters) : Option ClientError :=
  if p.entrypoints.length > maxLength then some (.tooMany p.entrypoints.length "entrypoints")
  else if p.ignore.length > maxLength then some (.tooMany p.ignore.length "ignore patterns")
  else none

/-- The record of a client. -/
def recordOf (p : ClientParameters) (document : Option String) (forceBundle : Bool) : Record where
  target := some (Text.utf8 p.target)
  capabilitiesDocument := document.map Text.utf8
  capabilitiesVersion := p.capabilitiesVersion.map Text.utf8
  bundleMode := flagOf (forceBundle || p.isBundle)
  entrypoints := arrayOf (p.entrypoints.map Text.utf8) p.entrypoints.length
  debug := flagOf p.debug
  optimization := min p.optimization maxLength
  prune := flagOf p.prune
  workDir := none
  revision := p.revision.map Text.utf8
  ignore := arrayOf (p.ignore.map Text.utf8) p.ignore.length
  dialect := p.dialect.code
  followLinks := flagOf p.followLinks
  erasePrints := flagOf p.erasePrints

/-- The parameters of a build that a client asks for. -/
def meant (p : ClientParameters) (document : Option String) (forceBundle : Bool) :
    Build.Parameters where
  target := p.target
  capabilitiesDocument := document.filter fun text => !text.isEmpty
  capabilitiesVersion := p.capabilitiesVersion.filter fun text => !text.isEmpty
  bundleMode := forceBundle || p.isBundle
  entrypoints := p.entrypoints.filter fun text => !text.isEmpty
  debug := p.debug
  optimization := min p.optimization maxLength
  prune := p.prune
  workDir := none
  revision := p.revision.filter fun text => !text.isEmpty
  ignore := p.ignore.filter fun text => !text.isEmpty
  dialect := p.dialect
  followLinks := p.followLinks
  erasePrints := p.erasePrints

variable {files : Files.Tree} {p : ClientParameters} {document : Option String}

/-- A client makes its record unless there are too many items to declare. -/
theorem Crosses.record_eq (h : p.Crosses files document) (forceBundle : Bool) :
    p.record files forceBundle =
      match p.countFault? with
      | some fault => .error fault
      | none => .ok (p.recordOf document forceBundle) := by
  simp only [record, mapM_enter h.entrypoints, mapM_enter h.ignore, bind, Except.bind,
    List.length_map, declare, countFault?]
  by_cases hEntrypoints : p.entrypoints.length > maxLength
  · simp only [hEntrypoints, if_true]
  · by_cases hIgnore : p.ignore.length > maxLength
    · simp only [hEntrypoints, hIgnore, if_true, if_false]
    · simp only [hEntrypoints, hIgnore, if_false, enter_of_zeroFree h.target, h.read,
        mapM_enter_option h.document, mapM_enter_option h.version, mapM_enter_option h.revision]
      rfl

/-- The record stands for what is asked for. -/
theorem Crosses.parameters_recordOf (h : p.Crosses files document) (forceBundle : Bool) :
    (p.recordOf document forceBundle).parameters = p.meant document forceBundle := by
  have hOptimization : (min (p.optimization : Int) maxLength).toNat =
      min p.optimization maxLength := by omega
  simp only [Record.parameters, recordOf, meant, hOptimization, textOf_utf8 h.target,
    properText_map_utf8 h.document, properText_map_utf8 h.version, properText_map_utf8 h.revision,
    properTexts_arrayOf h.entrypoints, properTexts_arrayOf h.ignore, isSet_flagOf,
    Policy.Dialect.ofCode_code, Option.getD_some]
  rfl

/-- Whatever a record is made of can cross. -/
theorem exists_crosses_of_record {forceBundle : Bool} {record : Record}
    (h : p.record files forceBundle = .ok record) : ∃ document, p.Crosses files document := by
  obtain ⟨entrypoints, hEntrypoints, h⟩ := bind_eq_ok h
  obtain ⟨ignore, hIgnore, h⟩ := bind_eq_ok h
  obtain ⟨entrypointCount, -, h⟩ := bind_eq_ok h
  obtain ⟨ignoreCount, -, h⟩ := bind_eq_ok h
  obtain ⟨target, hTarget, h⟩ := bind_eq_ok h
  obtain ⟨document, hDocument, h⟩ := bind_eq_ok h
  obtain ⟨entered, hEntered, h⟩ := bind_eq_ok h
  obtain ⟨version, hVersion, h⟩ := bind_eq_ok h
  obtain ⟨revision, hRevision, -⟩ := bind_eq_ok h
  exact ⟨document, hDocument, zeroFree_of_enter hTarget, zeroFree_of_mapM hEntrypoints,
    zeroFree_of_mapM hIgnore, zeroFree_of_mapM_option hEntered, zeroFree_of_mapM_option hVersion,
    zeroFree_of_mapM_option hRevision⟩

/-- A client makes a record exactly if what it asks for can cross and can be declared. -/
theorem record_eq_ok_iff {forceBundle : Bool} {record : Record} :
    p.record files forceBundle = .ok record ↔
      ∃ document, p.Crosses files document ∧ p.countFault? = none ∧
        p.recordOf document forceBundle = record := by
  constructor
  · intro h
    obtain ⟨document, hCrosses⟩ := exists_crosses_of_record h
    rw [hCrosses.record_eq] at h
    cases hCount : p.countFault? with
    | some fault =>
        rw [hCount] at h
        cases h
    | none =>
        rw [hCount] at h
        exact ⟨document, hCrosses, rfl, Except.ok.inj h⟩
  · rintro ⟨document, hCrosses, hCount, rfl⟩
    rw [hCrosses.record_eq, hCount]

/-- The text of the capabilities of a client: that of the file, where one is named, and otherwise that of
its own bytes, repaired. -/
def capabilityText (files : Files.Tree) (p : ClientParameters) : Except Files.Error String :=
  match p.capabilitiesFile with
  | some path => files.readText path
  | none => .ok (Text.ofUtf8Lossy p.capabilitiesDocument)

/-- The texts that a client hands over. -/
def texts (p : ClientParameters) (capabilities : String) : List String :=
  p.target :: capabilities :: (p.capabilitiesVersion.toList ++ p.revision.toList ++ p.entrypoints ++
    p.ignore)

/-- A document is sent for the text of the capabilities, unless that is empty. -/
theorem document_of_capabilityText {capabilities : String}
    (h : p.capabilityText files = .ok capabilities) :
    ∃ document, p.document files = .ok document ∧
      (document = some capabilities ∨ document = none ∧ capabilities = "") := by
  rw [capabilityText] at h
  rw [ClientParameters.document]
  cases hFile : p.capabilitiesFile with
  | some path =>
      rw [hFile] at h
      exact ⟨some capabilities, by simp only [h]; rfl, .inl rfl⟩
  | none =>
      rw [hFile] at h
      obtain rfl := Except.ok.inj h
      cases hBytes : p.capabilitiesDocument with
      | nil => exact ⟨none, rfl, .inr ⟨rfl, by decide⟩⟩
      | cons b bytes => exact ⟨_, rfl, .inl rfl⟩

theorem document_of_capabilityText_error {e : Files.Error}
    (h : p.capabilityText files = .error e) : ∀ document, p.document files ≠ .ok document := by
  intro document
  rw [capabilityText] at h
  rw [ClientParameters.document]
  cases hFile : p.capabilitiesFile with
  | some path =>
      rw [hFile] at h
      simp only [h]
      exact nofun
  | none =>
      rw [hFile] at h
      cases h

/-- What a client asks for can cross exactly if none of its texts has a zero byte. -/
theorem crosses_iff {capabilities : String} (hRead : p.document files = .ok document)
    (hDocument : document = some capabilities ∨ document = none ∧ capabilities = "") :
    p.Crosses files document ↔ ∀ text ∈ p.texts capabilities, ZeroFree text := by
  have hCapabilities : (∀ text ∈ document, ZeroFree text) ↔ ZeroFree capabilities := by
    rcases hDocument with rfl | ⟨rfl, rfl⟩
    · simp
    · exact iff_of_true nofun (by decide)
  simp only [texts, List.forall_mem_cons, List.forall_mem_append, Option.mem_toList]
  rw [← hCapabilities]
  constructor
  · intro h
    exact ⟨h.target, h.document, ⟨⟨h.version, h.revision⟩, h.entrypoints⟩, h.ignore⟩
  · rintro ⟨hTarget, hDocument, ⟨⟨hVersion, hRevision⟩, hEntrypoints⟩, hIgnore⟩
    exact ⟨hRead, hTarget, hEntrypoints, hIgnore, hDocument, hVersion, hRevision⟩

/-- What a client asks for crosses the boundary intact. No record is made where the file of capabilities
cannot be read, where a text has a zero byte, or where there is more than can be declared; and every other
one is read as what the client means. -/
theorem parameters_record_eq_meant (files : Files.Tree) (p : ClientParameters) (forceBundle : Bool) :
    match p.capabilityText files with
    | .error _ => ∃ fault, p.record files forceBundle = .error fault
    | .ok capabilities =>
      ((∃ text ∈ p.texts capabilities, ¬ZeroFree text) →
        ∃ fault, p.record files forceBundle = .error fault) ∧
      ((∀ text ∈ p.texts capabilities, ZeroFree text) →
        match p.countFault? with
        | some fault => p.record files forceBundle = .error fault
        | none => ∃ record, p.record files forceBundle = .ok record ∧
            record.parameters = p.meant (some capabilities) forceBundle) := by
  have hFails : (∀ document, ¬p.Crosses files document) →
      ∃ fault, p.record files forceBundle = .error fault := by
    intro hNone
    cases hRecord : p.record files forceBundle with
    | error fault => exact ⟨fault, rfl⟩
    | ok record =>
        obtain ⟨document, hCrosses⟩ := exists_crosses_of_record hRecord
        exact absurd hCrosses (hNone document)
  cases hText : p.capabilityText files with
  | error e =>
      exact hFails fun document hCrosses =>
        document_of_capabilityText_error hText document hCrosses.read
  | ok capabilities =>
      obtain ⟨document, hRead, hDocument⟩ := document_of_capabilityText hText
      have hIff := crosses_iff hRead hDocument
      refine ⟨fun ⟨text, hMem, hZero⟩ => hFails fun other hCrosses => ?_, fun hTexts => ?_⟩
      · obtain rfl : other = document := Except.ok.inj (hCrosses.read.symm.trans hRead)
        exact hZero (hIff.mp hCrosses text hMem)
      · have hCrosses := hIff.mpr hTexts
        rw [hCrosses.record_eq]
        cases p.countFault? with
        | some fault => rfl
        | none =>
            refine ⟨p.recordOf document forceBundle, rfl, ?_⟩
            rw [hCrosses.parameters_recordOf]
            rcases hDocument with rfl | ⟨rfl, rfl⟩
            · rfl
            · rfl

/-- A file of capabilities counts rather than the bytes, and what is empty is left behind. Without the file
the bytes count, of which one is zero. -/
theorem parameters_record_eq_meant_fromFile :
    let files : Files.Tree := ⟨.dir [("c.json", .file (Text.utf8 "{}"))], []⟩
    let p := { default with
      capabilitiesFile := some "c.json", capabilitiesDocument := [0x7B, 0],
      entrypoints := ["", "p/allow", ""], optimization := 4294967295, revision := some "",
      ignore := ["*.md", ""], dialect := .v0 }
    (p.capabilityText files = .ok "{}" ∧ (∀ text ∈ p.texts "{}", ZeroFree text) ∧
      p.countFault? = none) ∧
    (∃ record, p.record files true = .ok record ∧
      record.parameters = { Build.Parameters.default with
        target := "rego", capabilitiesDocument := some "{}", bundleMode := true,
        entrypoints := ["p/allow"], optimization := 2147483647, ignore := ["*.md"],
        dialect := .v0 }) ∧
    ∃ fault, { p with capabilitiesFile := none }.record files true = .error fault := by
  intro files p
  have hNode : files.node true "c.json" = .ok (["c.json"], .file (Text.utf8 "{}"), Files.maxLinks) :=
    Files.Tree.node_of_name rfl ⟨by decide, by decide, by decide, by decide, by decide, by decide⟩
      (by decide) rfl nofun
  have hText : p.capabilityText files = .ok "{}" := by
    have hRead : files.readText "c.json" = .ok "{}" := by
      rw [Files.Tree.readText, Files.Tree.read, hNode]
      decide
    exact hRead
  have hTexts : ∀ text ∈ p.texts "{}", ZeroFree text := by decide
  have hCount : p.countFault? = none := by decide
  have hFile := parameters_record_eq_meant files p true
  rw [hText] at hFile
  have hMade := hFile.2 hTexts
  rw [hCount] at hMade
  obtain ⟨record, hRecord, hMeant⟩ := hMade
  have hBytes := parameters_record_eq_meant files { p with capabilitiesFile := none } true
  have hZero : ∃ text ∈ texts { p with capabilitiesFile := none } (Text.ofUtf8Lossy [0x7B, 0]),
      ¬ZeroFree text := ⟨Text.ofUtf8Lossy [0x7B, 0], by decide, by decide⟩
  exact ⟨⟨hText, hTexts, hCount⟩, ⟨record, hRecord, hMeant.trans (by decide)⟩, hBytes.1 hZero⟩

end ClientParameters

end PolicyBundle.Boundary
