import PolicyBundle.Proofs.Archive.Names
import PolicyBundle.Proofs.Bundle.Writing

/-! Files written one by one come back from the archive. A path of which nothing is left when it is
normalized is refused and leaves no trace; every other path is written unless it has a zero byte or
leads to a parent directory. -/

namespace PolicyBundle

open Archive

namespace EntryPath

/-- The segments of the name of an entry are the pieces of the name. -/
theorem split_normalize {path : String} (hSome : segments path ≠ []) :
    Text.split '/' (normalize path) = segments path :=
  Text.split_join hSome fun _ hSegment => (mem_segments hSegment).2

theorem normalize_eq_empty_iff (path : String) : normalize path = "" ↔ segments path = [] := by
  constructor
  · intro hEmpty
    by_contra hSome
    have hPieces := split_normalize hSome
    rw [hEmpty] at hPieces
    have hMem : "" ∈ segments path := by
      rw [← hPieces]
      decide
    have hProper := (mem_segments hMem).1
    simp [isProper] at hProper
  · intro hNone
    rw [normalize_eq_join, hNone]
    rfl

/-- A path that can be written: something is left of it, and that has neither zero bytes nor
segments that lead to the parent directory. -/
structure Writable (path : String) : Prop where
  named : normalize path ≠ ""
  inside : ".." ∉ Text.split '/' (normalize path)
  nonzero : '\x00' ∉ (normalize path).toList

theorem Writable.segments_ne_nil {path : String} (h : Writable path) : segments path ≠ [] :=
  fun hNone => h.named ((normalize_eq_empty_iff path).mpr hNone)

theorem Writable.hasParent_eq_false {path : String} (h : Writable path) :
    hasParent path = false := by
  have hInside := h.inside
  rw [split_normalize h.segments_ne_nil] at hInside
  simpa [hasParent] using hInside

end EntryPath

namespace Bundle

/-- A file with a path that can be written is written. -/
theorem run_writeEntry_of_writable (pack : Pack) {path : String} (hPath : EntryPath.Writable path)
    (contents : Bytes) :
    ∃ next, (ExceptT.run (writeEntry path contents)).run pack = (.ok (), next) := by
  have hZero : 0 ∉ Text.utf8 (EntryPath.normalize path) := fun hMem =>
    hPath.nonzero ((Text.mem_utf8_iff (c := '\x00') (by decide) _).mp hMem)
  have hParent : Pack.parentSegment ∉ (EntryPath.segments path).map Text.utf8 := by
    rw [EntryPath.parentSegment_mem_iff, hPath.hasParent_eq_false]
    simp
  rw [EntryPath.utf8_normalize] at hZero
  obtain ⟨next, hAdd⟩ := Pack.exists_add pack (fun s hs => EntryPath.isSegment_of_mem hs)
    (by simpa using hPath.segments_ne_nil) hParent hZero contents
  rw [← EntryPath.utf8_normalize] at hAdd
  refine ⟨next, ?_⟩
  rw [run_writeEntry, if_neg (by simpa using hPath.named), hAdd]

/-- The room that a file needs at most. -/
def Entry.room (f : Entry) : Nat :=
  Pack.room (Text.utf8 (EntryPath.normalize f.path)) f.contents

/-- Writing a file takes no more than its room, whatever becomes of it. -/
theorem size_writeEntry_le (path : String) (contents : Bytes) (pack : Pack) :
    ((ExceptT.run (writeEntry path contents)).run pack).2.written.size ≤
      pack.written.size + Entry.room ⟨path, contents⟩ := by
  rw [run_writeEntry]
  split
  · exact Nat.le_add_right _ _
  · rename_i hNamed
    have hSome : EntryPath.segments path ≠ [] := fun hNone =>
      hNamed (by simpa using (EntryPath.normalize_eq_empty_iff path).mpr hNone)
    split
    · rename_i next hAdd
      rw [Entry.room, EntryPath.utf8_normalize]
      rw [EntryPath.utf8_normalize] at hAdd
      exact Pack.size_add_le (fun s hs => EntryPath.isSegment_of_mem hs) (by simpa using hSome) hAdd
    · exact Nat.le_add_right _ _

/-- A writing that succeeds and takes no more than some room. -/
def Fits (writing : Writing Unit) (room : Nat) : Prop :=
  ∀ pack, ∃ next, (ExceptT.run writing).run pack = (.ok (), next) ∧
    next.written.size ≤ pack.written.size + room

theorem fits_pure : Fits (pure ()) 0 :=
  fun pack => ⟨pack, rfl, Nat.le_refl _⟩

theorem Fits.bind {first second : Writing Unit} {room more : Nat} (hFirst : Fits first room)
    (hSecond : Fits second more) : Fits (first >>= fun _ => second) (room + more) := by
  intro pack
  obtain ⟨middle, hMiddle, hRoom⟩ := hFirst pack
  obtain ⟨next, hNext, hMore⟩ := hSecond middle
  refine ⟨next, ?_, by omega⟩
  rw [ExceptT.run_bind, StateT.run_bind, hMiddle]
  exact hNext

theorem fits_entry {path : String} (hPath : EntryPath.Writable path) (contents : Bytes) :
    Fits (writeEntry path contents) (Entry.room ⟨path, contents⟩) := by
  intro pack
  obtain ⟨next, hNext⟩ := run_writeEntry_of_writable pack hPath contents
  have hRoom := size_writeEntry_le path contents pack
  rw [hNext] at hRoom
  exact ⟨next, hNext, hRoom⟩

theorem fits_forM {α : Type} {items : List α} {write : α → Writing Unit} {room : α → Nat}
    (hWrite : ∀ item ∈ items, Fits (write item) (room item)) :
    Fits (items.forM write) (items.map room).sum := by
  induction items with
  | nil => exact fits_pure
  | cons item items ih =>
      have hRest := ih fun other hOther => hWrite other (List.mem_cons_of_mem _ hOther)
      rw [List.map_cons, List.sum_cons]
      exact (hWrite item List.mem_cons_self).bind hRest

theorem length_toArchive (pack : Pack) :
    pack.toArchive.length = pack.written.size + 2 * blockSize := by
  rw [Pack.toArchive, List.length_append, Array.length_toList, Pack.zeros, List.length_replicate]

/-- A writing that fits gives an archive, and that is no longer than the room and the ending. -/
theorem Fits.archive {writing : Writing Unit} {room : Nat} (h : Fits writing room) :
    ∃ pack, archive writing = .ok pack.finish ∧
      (ExceptT.run writing).run .empty = (.ok (), pack) ∧
      pack.toArchive.length ≤ room + 2 * blockSize := by
  obtain ⟨pack, hRun, hRoom⟩ := h .empty
  have hEmpty : Pack.empty.written.size = 0 := rfl
  refine ⟨pack, by rw [Bundle.archive, hRun], hRun, ?_⟩
  rw [length_toArchive]
  omega

/-- Writes files one by one, whatever becomes of those before. -/
def writeEach (files : List Entry) : StateM Pack (List (Except WriteError Unit)) :=
  files.mapM fun f => ExceptT.run (writeEntry f.path f.contents)

/-- What becomes of a file whose path has no zero byte and leads to no parent directory. -/
def outcomeOf (f : Entry) : Except WriteError Unit :=
  if EntryPath.normalize f.path = "" then .error .emptyPath else .ok ()

/-- The files whose paths are not refused. -/
def named (files : List Entry) : List Entry :=
  files.filter fun f => EntryPath.normalize f.path ≠ ""

theorem run_writeEach_cons (f : Entry) (files : List Entry) (pack : Pack) :
    (writeEach (f :: files)).run pack =
      let first := (ExceptT.run (writeEntry f.path f.contents)).run pack
      let rest := (writeEach files).run first.2
      (first.1 :: rest.1, rest.2) := by
  rw [writeEach, List.mapM_cons, StateT.run_bind]
  generalize (ExceptT.run (writeEntry f.path f.contents)).run pack = first
  rfl

theorem size_writeEach_le (files : List Entry) (pack : Pack) :
    ((writeEach files).run pack).2.written.size ≤
      pack.written.size + (files.map Entry.room).sum := by
  induction files generalizing pack with
  | nil => exact Nat.le_refl _
  | cons f files ih =>
      have hFirst : ((ExceptT.run (writeEntry f.path f.contents)).run pack).2.written.size ≤
          pack.written.size + f.room := size_writeEntry_le f.path f.contents pack
      have hRest := ih ((ExceptT.run (writeEntry f.path f.contents)).run pack).2
      rw [run_writeEach_cons, List.map_cons, List.sum_cons]
      simp only
      omega

/-- Each file is written or refused by itself. -/
theorem run_writeEach {pack : Pack} {done : List Entry} (hHolds : Holds pack done)
    {files : List Entry}
    (hInside : ∀ f ∈ files, ".." ∉ Text.split '/' (EntryPath.normalize f.path))
    (hNonzero : ∀ f ∈ files, '\x00' ∉ (EntryPath.normalize f.path).toList) :
    ∃ last, (writeEach files).run pack = (files.map outcomeOf, last) ∧
      (writeEach (named files)).run pack = ((named files).map fun _ => .ok (), last) ∧
      Holds last (done ++ named files) := by
  induction files generalizing pack done with
  | nil => exact ⟨pack, rfl, rfl, by simpa [named] using hHolds⟩
  | cons f files ih =>
      simp only [List.forall_mem_cons] at hInside hNonzero
      rw [run_writeEach_cons]
      by_cases hEmpty : EntryPath.normalize f.path = ""
      · have hRefused : (ExceptT.run (writeEntry f.path f.contents)).run pack =
            (.error .emptyPath, pack) := by
          rw [run_writeEntry, if_pos (by simp [hEmpty])]
        have hNamed : named (f :: files) = named files := by simp [named, hEmpty]
        obtain ⟨last, hRun, hRunNamed, hLast⟩ := ih hHolds hInside.2 hNonzero.2
        rw [hNamed]
        refine ⟨last, ?_, hRunNamed, hLast⟩
        simp only [hRefused, hRun, List.map_cons, outcomeOf, hEmpty, if_true]
      · have hPath : EntryPath.Writable f.path := ⟨hEmpty, hInside.1, hNonzero.1⟩
        have hNamed : named (f :: files) = f :: named files := by simp [named, hEmpty]
        obtain ⟨middle, hMiddle⟩ := run_writeEntry_of_writable pack hPath f.contents
        have hHoldsMiddle := writes_entry f.path f.contents pack middle done hMiddle hHolds
        obtain ⟨last, hRun, hRunNamed, hLast⟩ := ih hHoldsMiddle hInside.2 hNonzero.2
        rw [hNamed, run_writeEach_cons]
        refine ⟨last, ?_, ?_, by simpa using hLast⟩
        · simp only [hMiddle, hRun, List.map_cons, outcomeOf, hEmpty, if_false]
        · simp only [hMiddle, hRunNamed, List.map_cons]

/-- Files written one by one come back. Those whose path is empty when it is normalized are refused
and leave no trace; a reader with large enough limits gets all others, in order, each under its
normalized path with its contents. -/
theorem readEntries_writeEach (files : List Entry)
    (hInside : ∀ f ∈ files, ".." ∉ Text.split '/' (EntryPath.normalize f.path))
    (hNonzero : ∀ f ∈ files, '\x00' ∉ (EntryPath.normalize f.path).toList) :
    ∃ pack, (writeEach files).run .empty = (files.map outcomeOf, pack) ∧
      (writeEach (named files)).run .empty = ((named files).map fun _ => .ok (), pack) ∧
      ∀ options : ReadOptions, pack.toArchive.length < Nat.pow 2 64 →
        ((named files).map (·.contents.length)).sum ≤ options.maxBytes →
        (named files).length ≤ options.maxEntries →
        readEntries options pack.finish =
          .ok ((named files).map fun f => ⟨EntryPath.normalize f.path, f.contents⟩) := by
  obtain ⟨pack, hRun, hRunNamed, hHolds⟩ := run_writeEach Holds.empty hInside hNonzero
  rw [List.nil_append] at hHolds
  refine ⟨pack, hRun, hRunNamed, fun options hFits hTotal hEntries => ?_⟩
  apply hHolds.readEntries_files ?_ hFits hTotal hEntries
  intro f hf _
  obtain ⟨hMem, hNamed⟩ := List.mem_filter.mp hf
  exact EntryPath.Writable.hasParent_eq_false
    ⟨by simpa using hNamed, hInside f hMem, hNonzero f hMem⟩

/-- A path of which nothing is left, between one that is not normalized and one beyond ASCII. -/
theorem readEntries_writeEach_refusedBetween :
    let files : List Entry := [⟨"a//./b", [1]⟩, ⟨"/.", [7]⟩, ⟨"é", [2, 3]⟩]
    ∃ pack, (writeEach files).run .empty = ([.ok (), .error .emptyPath, .ok ()], pack) ∧
      readEntries ⟨true, .v1, 3, 2⟩ pack.finish = .ok [⟨"a/b", [1]⟩, ⟨"é", [2, 3]⟩] := by
  intro files
  obtain ⟨pack, hRun, -, hRead⟩ := readEntries_writeEach files (by decide +kernel)
    (by decide +kernel)
  have hSize := size_writeEach_le files .empty
  have hRoom : (files.map Entry.room).sum ≤ 10000 := by decide +kernel
  have hEmpty : Pack.empty.written.size = 0 := rfl
  have hFits : pack.toArchive.length < Nat.pow 2 64 := by
    have hLarge : 12000 < Nat.pow 2 64 := by decide
    simp only [hRun] at hSize
    simp only [Pack.toArchive, List.length_append, Array.length_toList, Pack.zeros,
      List.length_replicate, blockSize]
    omega
  have hResults : files.map outcomeOf = [.ok (), .error .emptyPath, .ok ()] := by decide +kernel
  have hNamed : (named files).map (fun f => (⟨EntryPath.normalize f.path, f.contents⟩ : Entry)) =
      [⟨"a/b", [1]⟩, ⟨"é", [2, 3]⟩] := by decide +kernel
  refine ⟨pack, hResults ▸ hRun, ?_⟩
  rw [← hNamed]
  exact hRead _ hFits (by decide +kernel) (by decide +kernel)

end Bundle

end PolicyBundle
