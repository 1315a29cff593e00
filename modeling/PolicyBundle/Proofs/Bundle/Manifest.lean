import PolicyBundle.Bundle.Manifest
import PolicyBundle.Proofs.Json.Texts

/-! A manifest reads back from its text: every field with a meaning as that field, and all others as
they are, because no other field has the name of one with a meaning. Bytes that hold a manifest are
text throughout. -/

namespace PolicyBundle.Manifest

open Json Json.Decoder Log

/-- The names of the fields with a meaning. -/
def knownNames : List String :=
  ["revision", "roots", "rego_version", "metadata"]

/-- A manifest as a reader makes it, with the depth that is left for the values in it. -/
structure Formed (m : Manifest) : Prop where
  metadata : ∀ fields, m.metadata = some fields → AllFields (FormedWithin (maxDepth - 2)) fields
  extra : AllFields (FormedWithin (maxDepth - 1)) m.extra
  unknown : ∀ f ∈ m.extra, f.1 ∉ knownNames

/-- The numbers of double precision in a manifest. -/
def floats (m : Manifest) : List Binary64 :=
  (m.metadata.map floatsOfFields).getD [] ++ floatsOfFields m.extra

theorem Formed.empty : Formed .empty :=
  ⟨by simp [Manifest.empty], allFields_nil _, by simp [Manifest.empty]⟩

/-- What a reader of a manifest keeps of what it has read. -/
structure DraftFormed (d : Draft) : Prop where
  metadata : ∀ fields, d.metadata = some (some fields) →
    AllFields (FormedWithin (maxDepth - 2)) fields
  extra : AllFields (FormedWithin (maxDepth - 1)) d.extra
  unknown : ∀ f ∈ d.extra, f.1 ∉ knownNames

theorem DraftFormed.complete {d : Draft} (h : DraftFormed d) : Formed d.complete := by
  refine ⟨fun fields hFields => ?_, h.extra, h.unknown⟩
  cases hMetadata : d.metadata with
  | none => simp [Draft.complete, hMetadata] at hFields
  | some metadata =>
      simp only [Draft.complete, hMetadata, Option.getD_some] at hFields
      exact h.metadata fields (hMetadata.trans (congrArg some hFields))

/-- All that a field can do to a draft. -/
inductive TakesField (depth : Nat) (d : Draft) (name : String) (input rest : Bytes) : Draft → Prop where
  | revision {revision : Option String} (hName : name = "revision")
      (hRead : once name d.revision string depth input = .ok (revision, rest)) :
      TakesField depth d name input rest { d with revision }
  | roots {roots : Option (Option (List String))} (hName : name = "roots")
      (hRead : once name d.roots (optional (list string)) depth input = .ok (roots, rest)) :
      TakesField depth d name input rest { d with roots }
  | dialect {dialectValue : Option (Option Nat)} (hName : name = "rego_version")
      (hRead : once name d.dialectValue (optional (natural 256 "u8")) depth input =
        .ok (dialectValue, rest)) :
      TakesField depth d name input rest { d with dialectValue }
  | metadata {metadata : Option (Option Fields)} (hName : name = "metadata")
      (hRead : once name d.metadata (optional map) depth input = .ok (metadata, rest)) :
      TakesField depth d name input rest { d with metadata }
  | extra {extra : Fields} (hUnknown : name ∉ knownNames)
      (hRead : anyField (readValue depth) d.extra name input = .ok (extra, rest)) :
      TakesField depth d name input rest { d with extra }

theorem takesField_of_field {depth : Nat} {d next : Draft} {name : String} {input rest : Bytes}
    (h : field depth d name input = .ok (next, rest)) :
    TakesField depth d name input rest next := by
  simp only [field] at h
  split_ifs at h with hRevision hRoots hDialect hMetadata
  · obtain ⟨⟨revision, last⟩, hRead, h⟩ := bind_eq_ok h
    cases h
    exact .revision hRevision hRead
  · obtain ⟨⟨roots, last⟩, hRead, h⟩ := bind_eq_ok h
    cases h
    exact .roots hRoots hRead
  · obtain ⟨⟨dialectValue, last⟩, hRead, h⟩ := bind_eq_ok h
    cases h
    exact .dialect hDialect hRead
  · obtain ⟨⟨metadata, last⟩, hRead, h⟩ := bind_eq_ok h
    cases h
    exact .metadata hMetadata hRead
  · obtain ⟨⟨extra, last⟩, hRead, h⟩ := bind_eq_ok h
    cases h
    exact .extra (by simp [knownNames, hRevision, hRoots, hDialect, hMetadata]) hRead

/-- What holds of a draft without fields, and stays so with each field, holds of the draft that a
manifest is made of. -/
theorem exists_draft_of_ofJson {motive : Draft → Prop} (hStart : motive ⟨none, none, none, none, []⟩)
    (hStep : ∀ d name input next rest, motive d →
      TakesField (maxDepth - 1) d name input rest next → motive next)
    {bytes : Bytes} {m : Manifest} (h : ofJson bytes = .ok m) : ∃ d, motive d ∧ d.complete = m := by
  obtain ⟨rest, hRead, -⟩ := runReader_eq_ok h
  obtain ⟨less, start, hLess, hContent⟩ := container_eq_ok hRead
  obtain rfl : less = maxDepth - 1 := by omega
  simp only [fields] at hContent
  obtain ⟨⟨last, behind⟩, hFound, hContent⟩ := bind_eq_ok hContent
  obtain ⟨closed, -, hContent⟩ := bind_eq_ok hContent
  cases hContent
  refine ⟨last, foldFields_invariant ?_ hStart hFound, rfl⟩
  intro d name input next rest hDraft hField
  exact hStep d name input next rest hDraft (takesField_of_field hField)

theorem TakesField.formed {d next : Draft} {name : String} {input rest : Bytes}
    (hDraft : DraftFormed d) (hTakes : TakesField (maxDepth - 1) d name input rest next) :
    DraftFormed next := by
  cases hTakes with
  | revision _ _ => exact ⟨hDraft.metadata, hDraft.extra, hDraft.unknown⟩
  | roots _ _ => exact ⟨hDraft.metadata, hDraft.extra, hDraft.unknown⟩
  | dialect _ _ => exact ⟨hDraft.metadata, hDraft.extra, hDraft.unknown⟩
  | metadata _ hRead =>
      refine ⟨fun fields hFields => ?_, hDraft.extra, hDraft.unknown⟩
      obtain ⟨start, value, hValue, hSome⟩ := once_eq_ok hRead
      obtain rfl : value = some fields := Option.some.inj (hSome.symm.trans hFields)
      obtain ⟨begin, hMap⟩ := optional_eq_ok hValue
      obtain ⟨less, hLess, hAll⟩ := map_eq_ok hMap
      have hLimit : maxDepth - 2 = less := by omega
      rw [hLimit]
      exact hAll
  | extra hUnknown hRead =>
      refine ⟨hDraft.metadata, ?_, ?_⟩
      · exact allFields_anyField (fun _ _ _ hValue => readValue_formed hValue) _ _ _ _ _
          hDraft.extra hRead
      · obtain ⟨value, -, hExtra⟩ := anyField_eq_ok hRead
        intro f hf
        rw [hExtra] at hf
        rcases mem_setField hf with rfl | hf
        · exact hUnknown
        · exact hDraft.unknown f hf

/-- A manifest that was read is formed. -/
theorem ofJson_formed {bytes : Bytes} {m : Manifest} (h : ofJson bytes = .ok m) : Formed m := by
  have hStart : DraftFormed ⟨none, none, none, none, []⟩ := ⟨by simp, allFields_nil _, by simp⟩
  obtain ⟨d, hDraft, rfl⟩ := exists_draft_of_ofJson hStart
    (fun _ _ _ _ _ hDraft hTakes => hTakes.formed hDraft) h
  exact hDraft.complete

theorem TakesField.dialect_lt {depth : Nat} {d next : Draft} {name : String} {input rest : Bytes}
    (hDraft : ∀ n, d.dialectValue = some (some n) → n < 256)
    (hTakes : TakesField depth d name input rest next) :
    ∀ n, next.dialectValue = some (some n) → n < 256 := by
  cases hTakes with
  | revision _ _ => exact hDraft
  | roots _ _ => exact hDraft
  | dialect _ hRead =>
      intro n hn
      obtain ⟨start, dialect, hDialect, hSome⟩ := once_eq_ok hRead
      obtain rfl : dialect = some n := Option.some.inj (hSome.symm.trans hn)
      obtain ⟨begin, hNatural⟩ := optional_eq_ok hDialect
      exact natural_lt hNatural
  | metadata _ _ => exact hDraft
  | extra _ _ => exact hDraft

/-- The value for a dialect in a manifest that was read fits into a byte. -/
theorem dialectValue_lt {bytes : Bytes} {m : Manifest} (h : ofJson bytes = .ok m) :
    ∀ n, m.dialectValue = some n → n < 256 := by
  have hStart : ∀ n, (⟨none, none, none, none, []⟩ : Draft).dialectValue = some (some n) →
      n < 256 := nofun
  obtain ⟨d, hDraft, rfl⟩ := exists_draft_of_ofJson hStart
    (fun _ _ _ _ _ hDraft hTakes => hTakes.dialect_lt hDraft) h
  intro n hn
  cases hValue : d.dialectValue with
  | none => simp [Draft.complete, hValue] at hn
  | some value =>
      simp only [Draft.complete, hValue, Option.getD_some] at hn
      exact hDraft n (hValue.trans (congrArg some hn))

section Fields

variable (d : Draft)

theorem folds_revision (hNew : d.revision = none) (revision : String) :
    Folds (field (maxDepth - 1)) d
      (if revision.isEmpty then [] else [("revision", .string revision)])
      { d with revision := if revision.isEmpty then none else some revision } := by
  split
  · rw [← hNew]
    exact .nil d
  · refine .cons (fun tail hTail => ?_) (.nil _)
    have hRead := once_rereads "revision" (string_rereads (maxDepth - 1) revision) tail hTail
    simp [field, hNew, hRead, bind, Except.bind]

theorem folds_roots (hNew : d.roots = none) (roots : Option (List String)) :
    Folds (field (maxDepth - 1)) d
      (roots.map fun roots => ("roots", Json.array (roots.map .string))).toList
      { d with roots := roots.map some } := by
  cases roots with
  | none =>
      have hSame : { d with roots := (none : Option (List String)).map some } = d := by
        rw [Option.map_none, ← hNew]
      rw [hSame]
      exact .nil d
  | some roots =>
      have hList : Rereads (list string (maxDepth - 1)) (write (.array (roots.map .string))) roots :=
        list_rereads fun x _ => string_rereads (maxDepth - 2) x
      have hOnce : Rereads (once "roots" none (optional (list string)) (maxDepth - 1))
          (':' :: write (.array (roots.map .string))) (some (some roots)) :=
        once_rereads "roots" (optional_rereads (by decide) (by decide) (by decide) hList)
      refine .cons (fun tail hTail => ?_) (.nil _)
      have hRead := hOnce tail hTail
      simp [field, hNew, hRead, bind, Except.bind]

theorem folds_dialect (hNew : d.dialectValue = none) {dialectValue : Option Nat}
    (hSmall : ∀ n, dialectValue = some n → n < 256) :
    Folds (field (maxDepth - 1)) d
      (dialectValue.map fun n => ("rego_version", Json.number (.integer n))).toList
      { d with dialectValue := dialectValue.map some } := by
  cases dialectValue with
  | none =>
      have hSame : { d with dialectValue := (none : Option Nat).map some } = d := by
        rw [Option.map_none, ← hNew]
      rw [hSame]
      exact .nil d
  | some n =>
      have hByte := hSmall n rfl
      have hFits : n < Nat.pow 2 64 := Nat.lt_trans hByte (by decide)
      have hOnce := once_rereads "rego_version"
        (optional_natural_rereads "u8" (maxDepth - 1) hByte hFits)
      refine .cons (fun tail hTail => ?_) (.nil _)
      have hRead := hOnce tail hTail
      simp [field, hNew, hRead, bind, Except.bind]

theorem folds_metadata (hNew : d.metadata = none) {metadata : Option Fields}
    (hFields : ∀ fields, metadata = some fields →
      Sorted fields ∧ ∀ f ∈ fields, Readable (maxDepth - 2) f.2) :
    Folds (field (maxDepth - 1)) d
      (metadata.map fun fields => ("metadata", Json.object fields)).toList
      { d with metadata := metadata.map some } := by
  cases metadata with
  | none =>
      have hSame : { d with metadata := (none : Option Fields).map some } = d := by
        rw [Option.map_none, ← hNew]
      rw [hSame]
      exact .nil d
  | some fields =>
      obtain ⟨hSorted, hReadable⟩ := hFields fields rfl
      have hMap : Rereads (map (maxDepth - 1)) (write (.object fields)) fields :=
        map_rereads hSorted hReadable
      have hOnce : Rereads (once "metadata" none (optional map) (maxDepth - 1))
          (':' :: write (.object fields)) (some (some fields)) :=
        once_rereads "metadata" (optional_rereads (by decide) (by decide) (by decide) hMap)
      refine .cons (fun tail hTail => ?_) (.nil _)
      have hRead := hOnce tail hTail
      simp [field, hNew, hRead, bind, Except.bind]

theorem folds_extra {extra : Fields} (hUnknown : ∀ f ∈ extra, f.1 ∉ knownNames)
    (hReadable : ∀ f ∈ extra, Readable (maxDepth - 1) f.2) :
    Folds (field (maxDepth - 1)) d extra { d with extra := setAll d.extra extra } := by
  induction extra generalizing d with
  | nil => exact .nil d
  | cons f extra ih =>
      have hRest := ih { d with extra := setField f.1 f.2 d.extra }
        (fun g hg => hUnknown g (List.mem_cons_of_mem _ hg))
        (fun g hg => hReadable g (List.mem_cons_of_mem _ hg))
      refine .cons (fun tail hTail => ?_) hRest
      have hName := hUnknown f List.mem_cons_self
      have hRead := (hReadable f List.mem_cons_self).rereads tail hTail
      simp only [knownNames, List.mem_cons, List.not_mem_nil, or_false, not_or] at hName
      simp [field, hName, anyField, colon_written, hRead, bind, Except.bind]

end Fields

theorem allFields_readable {limit : Nat} {fields : Json.Fields}
    (h : AllFields (FormedWithin limit) fields) (hFloats : ∀ x ∈ floatsOfFields fields, x.ReadsBack) :
    ∀ f ∈ fields, Readable limit f.2 := by
  intro f hf
  have hFormed := h.2 f hf
  exact hFormed.1.readable hFormed.2 fun x hx => hFloats x (mem_floatsOfFields.mpr ⟨f, hf, hx⟩)

/-- What the written fields of a manifest are read into. -/
def draft (m : Manifest) : Draft where
  revision := if m.revision.isEmpty then none else some m.revision
  roots := m.roots.map some
  dialectValue := m.dialectValue.map some
  metadata := m.metadata.map some
  extra := m.extra

theorem draft_complete (m : Manifest) : m.draft.complete = m := by
  obtain ⟨revision, roots, dialectValue, metadata, extra⟩ := m
  simp only [draft, Draft.complete, mk.injEq, and_true]
  refine ⟨?_, ?_, ?_, ?_⟩
  · split
    · rename_i hEmpty
      exact (String.isEmpty_iff.mp hEmpty).symm
    · rfl
  · cases roots <;> rfl
  · cases dialectValue <;> rfl
  · cases metadata <;> rfl

theorem folds_toFields {m : Manifest} (hFormed : m.Formed)
    (hDialect : ∀ n, m.dialectValue = some n → n < 256)
    (hFloats : ∀ x ∈ m.floats, x.ReadsBack) :
    Folds (field (maxDepth - 1)) ⟨none, none, none, none, []⟩ m.toFields m.draft := by
  have hMetadata : ∀ fields, m.metadata = some fields →
      Sorted fields ∧ ∀ f ∈ fields, Readable (maxDepth - 2) f.2 := by
    intro fields hFields
    have hAll := hFormed.metadata fields hFields
    exact ⟨hAll.1, allFields_readable hAll fun x hx => hFloats x (by simp [floats, hFields, hx])⟩
  have hExtra : ∀ f ∈ m.extra, Readable (maxDepth - 1) f.2 :=
    allFields_readable hFormed.extra fun x hx => hFloats x (by simp [floats, hx])
  have hRevision := folds_revision ⟨none, none, none, none, []⟩ rfl m.revision
  have hRoots := hRevision.append (folds_roots _ rfl m.roots)
  have hValue := hRoots.append (folds_dialect _ rfl hDialect)
  have hKnown := hValue.append (folds_metadata _ rfl hMetadata)
  have hAll := hKnown.append (folds_extra _ hFormed.unknown hExtra)
  rw [setAll_nil hFormed.extra.1] at hAll
  exact hAll

/-- A manifest reads back from its text. -/
theorem ofJson_text {m : Manifest} (hFormed : m.Formed)
    (hDialect : ∀ n, m.dialectValue = some n → n < 256)
    (hFloats : ∀ x ∈ m.floats, x.ReadsBack) : ofJson (Text.utf8 m.text) = .ok m := by
  have hBuild : (.ok m.draft.complete : Except Cause Manifest) = .ok m := by
    rw [draft_complete]
  have hReader : Rereads (decoder (maxDepth - 1 + 1))
      ('\x7b' :: [','].intercalate (writeFields m.toFields) ++ ['\x7d']) m :=
    fields_rereads "struct Manifest" (folds_toFields hFormed hDialect hFloats) hBuild
  have hRead := hReader [] (by simp [Delimited])
  rw [List.append_nil, Nat.sub_add_cancel (show 1 ≤ maxDepth by decide)] at hRead
  rw [ofJson, decode, text, compactFields, Text.utf8_ofList, runReader, hRead]
  rfl

theorem textual_field (depth : Nat) (d : Draft) (name : String) : Textual (field depth d name) := by
  intro input next rest h
  cases takesField_of_field h with
  | revision _ hRead => exact textual_once (textual_string depth) _ _ _ _ _ hRead
  | roots _ hRead =>
      exact textual_once (textual_optional (textual_list textual_string depth)) _ _ _ _ _ hRead
  | dialect _ hRead =>
      exact textual_once (textual_optional (textual_natural 256 "u8" depth)) _ _ _ _ _ hRead
  | metadata _ hRead => exact textual_once (textual_optional (textual_map depth)) _ _ _ _ _ hRead
  | extra _ hRead => exact textual_anyField (textual_readValue depth) _ _ _ _ _ hRead

/-- A document with a manifest is a text. -/
theorem isText_of_ofJson {bytes : Bytes} {manifest : Manifest} (h : ofJson bytes = .ok manifest) :
    Text.IsText bytes :=
  isText_of_runReader
    (textual_container (by decide) _ (textual_fields textual_field _) maxDepth) h

end PolicyBundle.Manifest
