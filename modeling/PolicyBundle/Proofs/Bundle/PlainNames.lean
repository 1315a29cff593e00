import PolicyBundle.Proofs.Archive.Names
import PolicyBundle.Proofs.Bundle.Limits
import PolicyBundle.Proofs.Bundle.Reading
import PolicyBundle.Proofs.Bundle.Writing
import PolicyBundle.Proofs.Files.Paths

/-! Archives of which the names are written as they are read. A name may have a backslash or a drive in
front, which a reader leaves where it is and which a writer replaces or drops; all other names that a
reader takes are in normal form already. -/

namespace PolicyBundle.Bundle

open Log Policy

/-- The names in an archive have neither backslashes nor colons. -/
def PlainNames (bytes : Bytes) : Prop :=
  ∀ m ∈ membersOf bytes, '\\'.toUInt8 ∉ m.path ∧ ':'.toUInt8 ∉ m.path

theorem Holds.membersOf_finish {pack : Archive.Pack} {files : List Entry}
    (hHolds : Holds pack files) (hFits : pack.toArchive.length < Nat.pow 2 64) :
    membersOf pack.finish = files.map fun f =>
      Archive.Pack.fileMember (Text.utf8 (EntryPath.normalize f.path)) f.contents := by
  rw [membersOf, Archive.Pack.ofStream_finish hHolds.lists hFits,
    Archive.Listing.members_foldr]

/-- The names in an archive are those of the files that were written into it. -/
theorem Holds.plainNames {pack : Archive.Pack} {files : List Entry} (hHolds : Holds pack files)
    (hFits : pack.toArchive.length < Nat.pow 2 64)
    (hFiles : ∀ f ∈ files, '\\' ∉ (EntryPath.normalize f.path).toList ∧
      ':' ∉ (EntryPath.normalize f.path).toList) : PlainNames pack.finish := by
  rw [PlainNames, hHolds.membersOf_finish hFits, List.forall_mem_map]
  intro f hf
  rw [Archive.Pack.fileMember, Text.mem_utf8_iff (by decide), Text.mem_utf8_iff (by decide)]
  exact hFiles f hf

theorem Unpacks.exists_member {members : List Archive.Member} {files : List Entry}
    (h : Unpacks members files) : ∀ f ∈ files, ∃ m ∈ members, entryPath m.path = .ok f.path := by
  induction h with
  | nil => simp
  | passOver hKind rest ih =>
      intro f hf
      obtain ⟨m, hm, hPath⟩ := ih f hf
      exact ⟨m, List.mem_cons_of_mem _ hm, hPath⟩
  | take hKind hPath hSize hContents rest ih =>
      refine List.forall_mem_cons.mpr ⟨⟨_, List.mem_cons_self, hPath⟩, fun f hf => ?_⟩
      obtain ⟨m, hm, hPath⟩ := ih f hf
      exact ⟨m, List.mem_cons_of_mem _ hm, hPath⟩

/-- A path that a reader takes has a character of ASCII only where the archive has it. -/
theorem mem_of_mem_entryPath {c : Char} (hLow : c.toNat < 0x80) (hNonzero : c ≠ '\x00')
    (hSlash : c ≠ '/') {path : Bytes} {name : String} (h : entryPath path = .ok name)
    (hMem : c ∈ name.toList) : c.toUInt8 ∈ path := by
  obtain ⟨pieces, rfl, hPieces⟩ := entryPath_eq_ok h
  obtain ⟨segment, hSegment, hMem⟩ := Files.mem_join hSlash hMem
  obtain ⟨piece, hPiece, rfl⟩ := List.mem_map.mp hSegment
  exact Text.mem_of_mem_splitOn (hPieces piece hPiece).1
    (Text.mem_of_mem_ofUtf8Lossy hLow hNonzero hMem)

/-- A path that stays inside is the name of its entry, if it has neither backslashes nor colons. -/
theorem StaysInside.normalize_eq {path : String} (h : StaysInside path)
    (hBackslash : '\\' ∉ path.toList) (hColon : ':' ∉ path.toList) :
    EntryPath.normalize path = path ∧ EntryPath.hasParent path = false := by
  obtain ⟨-, segments, rfl, hSegments⟩ := h
  have hSame : EntryPath.segments (Text.join "/" segments) = segments := by
    rw [EntryPath.segments_of_notMem hBackslash hColon]
    by_cases hSome : segments = []
    · subst hSome
      decide
    · rw [Text.split_join hSome fun s hs => (hSegments s hs).2.2.2, List.filter_eq_self]
      intro s hs
      simp [EntryPath.isProper, (hSegments s hs).1, (hSegments s hs).2.1]
  refine ⟨by rw [EntryPath.normalize_eq_join, hSame], ?_⟩
  rw [EntryPath.hasParent, hSame, Bool.eq_false_iff, ne_eq, List.contains_iff_mem]
  exact fun hParent => (hSegments _ hParent).2.2.1 rfl

/-- Each module of an archive is in the file that has its path. -/
theorem exists_file_of_read {options : ReadOptions} {bytes : Bytes} {bundle : Bundle}
    (h : (read options bytes).outcome.value = .ok bundle) :
    ∃ files, readEntries options bytes = .ok files ∧
      ∀ m ∈ bundle.modules, ∃ f ∈ files, f.path = m.path := by
  obtain ⟨-, files, manifest, hFiles, -, hFold⟩ := read_eq_ok_iff.mp h
  refine ⟨files, hFiles, foldlM_invariant (motive := fun b =>
    ∀ m ∈ b.modules, ∃ f ∈ files, f.path = m.path) (by simp [empty]) ?_ hFold⟩
  intro f hf before after hBefore hAdded
  cases addEntry_eq_ok_iff.mp hAdded with
  | module hName hText hModule hOwned =>
      intro m hm
      rcases List.mem_append.mp hm with hm | hm
      · exact hBefore m hm
      · obtain rfl := List.mem_singleton.mp hm
        exact ⟨f, hf, (moduleOf_eq_ok hModule).1.symm⟩
  | data hName hData hValue hMount => exact hBefore
  | other hName hData => exact hBefore

/-- The modules of an archive with plain names are written under the paths that they have. -/
theorem normalize_path_of_read {options : ReadOptions} {bytes : Bytes} {bundle : Bundle}
    (hNames : PlainNames bytes) (h : (read options bytes).outcome.value = .ok bundle) :
    ∀ m ∈ bundle.modules,
      EntryPath.normalize m.path = m.path ∧ EntryPath.hasParent m.path = false := by
  obtain ⟨files, hFiles, hModules⟩ := exists_file_of_read h
  obtain ⟨-, -, -, hUnpacks⟩ := readEntries_eq_ok_iff.mp hFiles
  intro m hm
  obtain ⟨f, hf, hPath⟩ := hModules m hm
  obtain ⟨member, hMember, hEntry⟩ := hUnpacks.exists_member f hf
  obtain ⟨hBackslash, hColon⟩ := hNames member hMember
  rw [← hPath]
  exact (hUnpacks.paths f hf).normalize_eq
    (fun hMem => hBackslash (mem_of_mem_entryPath (by decide) (by decide) (by decide) hEntry hMem))
    fun hMem => hColon (mem_of_mem_entryPath (by decide) (by decide) (by decide) hEntry hMem)

end PolicyBundle.Bundle
