import PolicyBundle.Proofs.Archive.Unpacking
import PolicyBundle.Proofs.Bundle.EntryPath
import PolicyBundle.Proofs.Log.Attempts
import Mathlib.Algebra.Ring.Nat

/-! What an archive holds while a bundle is written into it, file by file, and what a reader whose
limits are large enough gets out of it. -/

namespace PolicyBundle.Bundle

open Archive

/-- An archive that files were written into, each for its path. Of their names, only a long one may
lead out of the directory that it is in: the field for a short one does not take it. -/
structure Holds (pack : Pack) (files : List Entry) : Prop where
  lists : Listing.Lists pack.written.toList
    (files.map fun f => Pack.fileMember (Text.utf8 (EntryPath.normalize f.path)) f.contents)
  size : (files.map (·.contents.length)).sum + files.length ≤ pack.written.size
  named : ∀ f ∈ files, EntryPath.segments f.path ≠ []
  inside : ∀ f ∈ files, EntryPath.hasParent f.path = true →
    Pack.pathWidth ≤ (Text.utf8 (EntryPath.normalize f.path)).length

theorem Holds.empty : Holds .empty [] :=
  ⟨Listing.Lists.nil, Nat.le_refl _, by simp, by simp⟩

/-- One more file in an archive. -/
theorem Holds.add {pack next : Pack} {files : List Entry} (hHolds : Holds pack files)
    {path : String} {contents : Bytes} (hName : EntryPath.segments path ≠ [])
    (hAdd : pack.add (Text.utf8 (EntryPath.normalize path)) contents = .ok next) :
    Holds next (files ++ [⟨path, contents⟩]) := by
  have hSegs : ∀ s ∈ (EntryPath.segments path).map Text.utf8, Pack.IsSegment s :=
    fun s hs => EntryPath.isSegment_of_mem hs
  have hSome : (EntryPath.segments path).map Text.utf8 ≠ [] := by
    simpa using hName
  obtain ⟨name, isCut, hField, hWritten⟩ := Pack.add_eq_ok hAdd
  rw [EntryPath.utf8_normalize] at hField hWritten
  obtain ⟨hShort, hWhole, hLong⟩ := Pack.nameField_eq_ok hSegs hSome hField
  constructor
  · rw [hWritten, List.map_append, List.map_singleton, EntryPath.utf8_normalize]
    exact hHolds.lists.append (Pack.lists_fileBlocks contents hSegs hSome hField)
  · have hMore := Pack.length_le_fileBlocks
      (['/'.toUInt8].intercalate ((EntryPath.segments path).map Text.utf8)) contents isCut hShort
    have hSize := hHolds.size
    rw [← Array.length_toList] at hSize ⊢
    rw [hWritten, List.length_append]
    simp only [List.map_append, List.sum_append, List.length_append, List.map_singleton,
      List.sum_singleton, List.length_singleton]
    omega
  · intro f hf
    rcases List.mem_append.mp hf with hf | hf
    · exact hHolds.named f hf
    · obtain rfl := List.mem_singleton.mp hf
      exact hName
  · intro f hf hParent
    rcases List.mem_append.mp hf with hf | hf
    · exact hHolds.inside f hf hParent
    · obtain rfl := List.mem_singleton.mp hf
      rw [EntryPath.utf8_normalize]
      cases isCut with
      | false =>
          exact absurd ((EntryPath.parentSegment_mem_iff path).mpr hParent) (hWhole rfl).2.1
      | true => exact hLong rfl

/-- A writing that writes these files, if it succeeds. -/
def Writes (writing : Writing Unit) (files : List Entry) : Prop :=
  ∀ (pack next : Pack) (done : List Entry),
    (ExceptT.run writing).run pack = (.ok (), next) → Holds pack done → Holds next (done ++ files)

theorem writes_pure : Writes (pure ()) [] := by
  intro pack next done hRun hHolds
  cases hRun
  simpa using hHolds

theorem Writes.bind {first second : Writing Unit} {files more : List Entry}
    (hFirst : Writes first files) (hSecond : Writes second more) :
    Writes (first >>= fun _ => second) (files ++ more) := by
  intro pack next done hRun hHolds
  rw [ExceptT.run_bind, StateT.run_bind] at hRun
  rcases hBegin : (ExceptT.run first).run pack with ⟨result, middle⟩
  rw [hBegin] at hRun
  cases result with
  | error e => cases hRun
  | ok =>
      rw [← List.append_assoc]
      exact hSecond middle next _ hRun (hFirst pack middle done hBegin hHolds)

theorem archive_eq_ok {writing : Writing Unit} {output : Bytes}
    (h : archive writing = .ok output) :
    ∃ pack, (ExceptT.run writing).run .empty = (.ok (), pack) ∧ pack.finish = output := by
  rw [archive] at h
  rcases hRun : (ExceptT.run writing).run .empty with ⟨result, pack⟩
  rw [hRun] at h
  cases result with
  | error e => cases h
  | ok done => exact ⟨pack, rfl, Except.ok.inj h⟩

theorem run_get_bind (rest : Pack → Writing Unit) (pack : Pack) :
    (ExceptT.run (get >>= rest)).run pack = (ExceptT.run (rest pack)).run pack := rfl

/-- What becomes of writing a file. -/
theorem run_writeEntry (path : String) (contents : Bytes) (pack : Pack) :
    (ExceptT.run (writeEntry path contents)).run pack =
      if (EntryPath.normalize path).isEmpty then (.error .emptyPath, pack)
      else
        match pack.add (Text.utf8 (EntryPath.normalize path)) contents with
        | .ok next => (.ok (), next)
        | .error error => (.error (.path error), pack) := by
  simp only [writeEntry]
  split
  · rfl
  · rw [run_get_bind]
    generalize pack.add (Text.utf8 (EntryPath.normalize path)) contents = added
    cases added <;> rfl

theorem writes_entry (path : String) (contents : Bytes) :
    Writes (writeEntry path contents) [⟨path, contents⟩] := by
  intro pack next done hRun hHolds
  rw [run_writeEntry] at hRun
  split at hRun
  · cases hRun
  · rename_i hName
    have hSome : EntryPath.segments path ≠ [] := fun hEmpty => hName (by
      simp [EntryPath.normalize_eq_join, hEmpty, Text.join])
    split at hRun
    · rename_i hAdd
      cases hRun
      exact hHolds.add hSome hAdd
    · cases hRun

theorem writes_forM {α : Type} (items : List α) {write : α → Writing Unit} {file : α → Entry}
    (hWrite : ∀ item, Writes (write item) [file item]) :
    Writes (items.forM write) (items.map file) := by
  induction items with
  | nil => exact writes_pure
  | cons item items ih => exact (hWrite item).bind ih

/-- A file under the name that it has in an archive. -/
def Entry.named (f : Entry) : Entry :=
  ⟨EntryPath.normalize f.path, f.contents⟩

/-- A reader takes all files that its limits allow. -/
theorem entriesFrom_files {options : ReadOptions} {files : List Entry} (count total : Nat)
    (hNamed : ∀ f ∈ files, EntryPath.segments f.path ≠ [])
    (hInside : ∀ f ∈ files, EntryPath.hasParent f.path = false)
    (hCount : count + files.length ≤ options.maxEntries)
    (hTotal : total + (files.map (·.contents.length)).sum ≤ options.maxBytes) :
    entriesFrom options count total ((files.map fun f => Pack.fileMember
      (Text.utf8 (EntryPath.normalize f.path)) f.contents).foldr .member .done) =
        .ok (files.map Entry.named) := by
  induction files generalizing count total with
  | nil => rfl
  | cons f files ih =>
      have hPath := EntryPath.entryPath_normalize (hNamed f List.mem_cons_self)
        (hInside f List.mem_cons_self)
      simp only [List.map_cons, List.sum_cons, List.length_cons] at hCount hTotal
      have hMin : min (total + f.contents.length) maxSize ≤ total + f.contents.length :=
        Nat.min_le_left _ _
      have hRest := ih (count + 1) (min (total + f.contents.length) maxSize)
        (fun g hg => hNamed g (List.mem_cons_of_mem _ hg))
        (fun g hg => hInside g (List.mem_cons_of_mem _ hg)) (by omega) (by omega)
      have hCounted : ¬count + 1 > options.maxEntries := by omega
      have hSmall : ¬min (total + f.contents.length) maxSize > options.maxBytes := by omega
      simp only [List.map_cons, List.foldr_cons, entriesFrom, hCounted, if_false, Pack.fileMember,
        treatment, hPath, Log.mapError_ok, bind, Except.bind, hSmall]
      simp only [Pack.fileMember] at hRest
      rw [hRest]
      rfl

/-- The files of a finished archive are those that were written into it. -/
theorem Holds.readEntries_files {pack : Pack} {files : List Entry} (hHolds : Holds pack files)
    (hInside : ∀ f ∈ files, Pack.pathWidth ≤ (Text.utf8 (EntryPath.normalize f.path)).length →
      EntryPath.hasParent f.path = false)
    {options : ReadOptions} (hFits : pack.toArchive.length < Nat.pow 2 64)
    (hTotal : (files.map (·.contents.length)).sum ≤ options.maxBytes)
    (hEntries : files.length ≤ options.maxEntries) :
    readEntries options pack.finish = .ok (files.map Entry.named) := by
  rw [readEntries, Pack.ofStream_finish hHolds.lists hFits]
  apply entriesFrom_files 0 0 hHolds.named
  · intro f hf
    by_cases hParent : EntryPath.hasParent f.path = true
    · exact hInside f hf (hHolds.inside f hf hParent)
    · simpa using hParent
  · omega
  · omega

/-- An archive within the limits of a reader gives the files that were written into it. -/
theorem Holds.readEntries_finish {pack : Pack} {files : List Entry} (hHolds : Holds pack files)
    (hInside : ∀ f ∈ files, Pack.pathWidth ≤ (Text.utf8 (EntryPath.normalize f.path)).length →
      EntryPath.hasParent f.path = false)
    {options : ReadOptions} (hSize : pack.toArchive.length ≤ options.maxBytes)
    (hCounted : options.maxBytes ≤ maxSize) (hEntries : files.length ≤ options.maxEntries) :
    readEntries options pack.finish = .ok (files.map Entry.named) := by
  have hMax : maxSize < Nat.pow 2 64 := by decide
  have hSum := hHolds.size
  apply hHolds.readEntries_files hInside (by omega) ?_ hEntries
  rw [Pack.toArchive, List.length_append, Array.length_toList] at hSize
  omega

end PolicyBundle.Bundle
