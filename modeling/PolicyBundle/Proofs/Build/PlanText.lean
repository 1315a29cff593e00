import PolicyBundle.Proofs.Build.BuiltBundles
import PolicyBundle.Proofs.Json.Layout

/-! The output tells the plan: two plans that are written into the same archive are one plan if the
archives that come of it are equal. -/

namespace PolicyBundle

namespace Build

open Json

theorem textsToJson_worded (texts : List String) : Worded (Plan.textsToJson texts) := by
  refine .array fun x hx => ?_
  obtain ⟨text, -, rfl⟩ := List.mem_map.mp hx
  exact .string text

theorem textsToJson_injective {texts others : List String}
    (h : Plan.textsToJson texts = Plan.textsToJson others) : texts = others :=
  List.map_injective_iff.mpr (fun _ _ hEq => Json.string.inj hEq) (Json.array.inj h)

/-- The plan of an entrypoint as a value. -/
def PlanEntry.toJson (e : PlanEntry) : Json :=
  .object [("name", .string e.name), ("rules", Plan.textsToJson e.rules),
    ("modules", Plan.textsToJson e.modules)]

theorem PlanEntry.toJson_worded (e : PlanEntry) : Worded e.toJson := by
  refine .object fun f hf => ?_
  simp only [List.mem_cons, List.not_mem_nil, or_false] at hf
  rcases hf with rfl | rfl | rfl
  · exact .string e.name
  · exact textsToJson_worded e.rules
  · exact textsToJson_worded e.modules

theorem PlanEntry.toJson_injective {e f : PlanEntry} (h : e.toJson = f.toJson) : e = f := by
  obtain ⟨name, rules, modules⟩ := e
  obtain ⟨name', rules', modules'⟩ := f
  simp only [PlanEntry.toJson, Json.object.injEq, List.cons.injEq, Prod.mk.injEq, true_and,
    Json.string.injEq, and_true] at h
  obtain ⟨rfl, hRules, hModules⟩ := h
  rw [textsToJson_injective hRules, textsToJson_injective hModules]

theorem Plan.toJson_eq (plan : Plan) : plan.toJson = .object
    [("entrypoints", .array (plan.entrypoints.map PlanEntry.toJson)),
      ("builtins", Plan.textsToJson plan.builtins)] := rfl

theorem Plan.toJson_worded (plan : Plan) : Worded plan.toJson := by
  rw [toJson_eq]
  refine .object fun f hf => ?_
  simp only [List.mem_cons, List.not_mem_nil, or_false] at hf
  rcases hf with rfl | rfl
  · refine .array fun x hx => ?_
    obtain ⟨e, -, rfl⟩ := List.mem_map.mp hx
    exact e.toJson_worded
  · exact textsToJson_worded plan.builtins

/-- A plan is told by its text. -/
theorem Plan.pretty_injective {plan other : Plan} (h : plan.toJson.pretty = other.toJson.pretty) :
    plan = other := by
  have hJson := Json.pretty_injective plan.toJson_worded other.toJson_worded h
  obtain ⟨entrypoints, builtins⟩ := plan
  obtain ⟨entrypoints', builtins'⟩ := other
  simp only [toJson_eq, Json.object.injEq, List.cons.injEq, Prod.mk.injEq, true_and, and_true,
    Json.array.injEq] at hJson
  obtain ⟨hEntrypoints, hBuiltins⟩ := hJson
  rw [textsToJson_injective hBuiltins,
    List.map_injective_iff.mpr (fun _ _ => PlanEntry.toJson_injective) hEntrypoints]

/-- The text of a plan does not end with a zero byte. -/
theorem getLast?_utf8_pretty (plan : Plan) :
    (Text.utf8 plan.toJson.pretty).getLast? = some '\x7d'.toUInt8 := by
  have hClosing : Text.encode ['\x7d'] = ['\x7d'.toUInt8] := by decide
  rw [Json.pretty, Text.utf8_ofList, Plan.toJson_eq, writePretty, prettyFields_eq_map, writeBlock,
    if_neg (by simp), Text.encode_append, hClosing, List.getLast?_append_of_ne_nil _ (by simp)]
  rfl

end Build

namespace Archive.Pack

/-- Bytes that do not end with a zero are told by what is filled up with zeros. -/
theorem eq_of_append_zeros {left right : Bytes} {count more : Nat} (hLeft : left.getLast? ≠ some 0)
    (hRight : right.getLast? ≠ some 0) (h : left ++ zeros count = right ++ zeros more) :
    left = right := by
  have hStrip {bytes : Bytes} (hLast : bytes.getLast? ≠ some 0) (count : Nat) :
      (bytes ++ zeros count).reverse.dropWhile (· = 0) = bytes.reverse := by
    rw [List.reverse_append, zeros, List.reverse_replicate, List.dropWhile_append_of_pos
      fun b hb => by simp [List.eq_of_mem_replicate hb]]
    cases hBytes : bytes.reverse with
    | nil => rfl
    | cons b rest =>
        rw [List.getLast?_eq_head?_reverse, hBytes, List.head?_cons, Ne, Option.some.injEq] at hLast
        rw [List.dropWhile_cons_of_neg (by simpa using hLast)]
  have hSame := hStrip hLeft count
  rw [h, hStrip hRight more] at hSame
  exact List.reverse_injective hSame.symm

theorem fileBlocks_injective {path name contents others : Bytes} {isCut : Bool}
    (hName : name.length ≤ pathWidth) (hContents : contents.getLast? ≠ some 0)
    (hOthers : others.getLast? ≠ some 0)
    (h : fileBlocks path name isCut contents = fileBlocks path name isCut others) :
    contents = others := by
  have hHeader (contents : Bytes) : (fileHeader name contents.length).toBlock.length = blockSize :=
    (headerOf_sized '0' contents.length hName List.length_replicate).length_toBlock
  rw [fileBlocks, fileBlocks, List.append_cancel_left_eq, blocks, blocks] at h
  obtain ⟨-, hPadded⟩ := List.append_inj h ((hHeader contents).trans (hHeader others).symm)
  exact eq_of_append_zeros hContents hOthers hPadded

end Archive.Pack

namespace Bundle

open Archive

section Behind

variable {front : Writing Unit} {path : String} {contents others output : Bytes}

/-- What is written first decides what a file is written behind. -/
theorem archive_entry_eq_ok (h : archive (front >>= fun _ => writeEntry path contents) = .ok output) :
    ∃ middle pack, (ExceptT.run front).run .empty = (.ok (), middle) ∧
      middle.add (Text.utf8 (EntryPath.normalize path)) contents = .ok pack ∧
        pack.finish = output := by
  obtain ⟨pack, hRun, hFinish⟩ := archive_eq_ok h
  rw [ExceptT.run_bind, StateT.run_bind] at hRun
  rcases hFront : (ExceptT.run front).run .empty with ⟨result, middle⟩
  rw [hFront] at hRun
  cases result with
  | error e => cases hRun
  | ok =>
      have hEntry : (ExceptT.run (writeEntry path contents)).run middle = (.ok (), pack) := hRun
      rw [run_writeEntry] at hEntry
      split at hEntry
      · cases hEntry
      · split at hEntry
        · rename_i next hAdd
          cases hEntry
          exact ⟨middle, pack, rfl, hAdd, hFinish⟩
        · cases hEntry

/-- A file with a path that can be written is written behind everything that is. -/
theorem exists_archive_entry_iff (hPath : EntryPath.Writable path) :
    (∃ output, archive (front >>= fun _ => writeEntry path contents) = .ok output) ↔
      ∃ output, archive front = .ok output := by
  constructor
  · rintro ⟨output, hOutput⟩
    obtain ⟨middle, pack, hFront, -⟩ := archive_entry_eq_ok hOutput
    exact ⟨middle.finish, by rw [archive, hFront]⟩
  · rintro ⟨output, hOutput⟩
    obtain ⟨middle, hFront, -⟩ := archive_eq_ok hOutput
    obtain ⟨next, hEntry⟩ := run_writeEntry_of_writable middle hPath contents
    have hRun : (ExceptT.run (front >>= fun _ => writeEntry path contents)).run .empty =
        (.ok (), next) := by
      rw [ExceptT.run_bind, StateT.run_bind, hFront]
      exact hEntry
    exact ⟨next.finish, by rw [archive, hRun]⟩

/-- What comes of writing a file behind others tells the contents of the file, if these do not end with
a zero. -/
theorem archive_entry_injective (hContents : contents.getLast? ≠ some 0)
    (hOthers : others.getLast? ≠ some 0) (hPath : EntryPath.Writable path)
    (h : archive (front >>= fun _ => writeEntry path contents) = .ok output)
    (hOther : archive (front >>= fun _ => writeEntry path others) = .ok output) :
    contents = others := by
  obtain ⟨middle, pack, hFront, hAdd, hFinish⟩ := archive_entry_eq_ok h
  obtain ⟨same, other, hSame, hAddOther, hFinishOther⟩ := archive_entry_eq_ok hOther
  obtain rfl : middle = same := (Prod.ext_iff.mp (hFront.symm.trans hSame)).2
  have hWritten : pack.written.toList = other.written.toList := by
    have hDecoded := congrArg (fun bytes => (Gzip.decode bytes).data) (hFinish.trans hFinishOther.symm)
    simpa only [Pack.finish, decode_encode, Pack.toArchive, List.append_cancel_right_eq] using hDecoded
  obtain ⟨name, isCut, hField, hPack⟩ := Pack.add_eq_ok hAdd
  obtain ⟨name', isCut', hField', hPack'⟩ := Pack.add_eq_ok hAddOther
  obtain ⟨rfl, rfl⟩ := Prod.ext_iff.mp (Except.ok.inj (hField.symm.trans hField'))
  rw [hPack, hPack', List.append_cancel_left_eq] at hWritten
  rw [EntryPath.utf8_normalize] at hField
  have hShort := (Pack.nameField_eq_ok (fun s hs => EntryPath.isSegment_of_mem hs)
    (by simpa using hPath.segments_ne_nil) hField).1
  exact Pack.fileBlocks_injective hShort hContents hOthers hWritten

end Behind

end Bundle

end PolicyBundle
