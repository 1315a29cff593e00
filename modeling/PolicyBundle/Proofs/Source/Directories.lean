import PolicyBundle.Proofs.Bundle.ReadBack
import PolicyBundle.Proofs.Bundle.RoundTrip
import PolicyBundle.Proofs.Files.Walks
import PolicyBundle.Source.Loader

/-! A bundle directory and the archive that is made of it come to the same bundle, except that only the
archive is held to the roots of its manifest: each file of the directory that belongs into a bundle
becomes an entry of the same path, the loader and the reader take both in the same way, and they find
the same manifest. -/

namespace PolicyBundle.Bundle

open Files

/-- A bundle directory: regular files and directories alone, none of the files an archive, and no name
directly inside that begins with a drive. -/
structure IsDirectory (entries : List (String × Node)) : Prop where
  plain : Plain (.dir entries)
  noArchive : ∀ front last contents,
    (Node.dir entries).at? (front ++ [last]) = some (.file contents) → isArchiveName last = false
  noDrive : ∀ e ∈ entries, EntryPath.dropDrive e.1.toList = e.1.toList

/-- A file of a bundle directory, of which the path is that of its entry. -/
structure Regular (found : Found) : Prop where
  nonempty : found.relative ≠ ""
  slashed : Text.replace '\\' '/' found.relative = found.relative
  name : (Text.dirAndName found.relative).2 = fileName found.path
  normal : EntryPath.normalize found.relative = found.relative
  writable : EntryPath.Writable found.relative
  noArchive : isArchiveName (fileName found.path) = false

/-- The file under some names. -/
structure Stands (dir : String) (entries : List (String × Node)) (front : List String)
    (last : String) (found : Found) : Prop where
  place : (Node.dir entries).at? (front ++ [last]) = some (.file found.contents)
  path : found.path = (front ++ [last]).foldl within dir
  relative : found.relative = Text.join "/" (front ++ [last])

section Walk

variable {tree : Tree} {dir : String} {location : Location} {entries : List (String × Node)}
  {links : Nat} {found : Found}

theorem mem_walk_iff_stands (h : tree.node false dir = .ok (location, .dir entries, links))
    (hPlain : Plain (.dir entries)) (follow : Bool) :
    .ok found ∈ tree.walk follow keepAll dir ↔ ∃ front last, Stands dir entries front last found := by
  rw [Tree.mem_walk_iff h hPlain]
  constructor
  · rintro ⟨names, hPlace, hPath, hRelative⟩
    rcases List.eq_nil_or_concat names with rfl | ⟨front, last, rfl⟩
    · cases hPlace
    · rw [List.concat_eq_append] at hPlace hPath hRelative
      exact ⟨front, last, hPlace, hPath, hRelative⟩
  · rintro ⟨front, last, hPlace, hPath, hRelative⟩
    exact ⟨_, hPlace, hPath, hRelative⟩

theorem Stands.fileName_eq {front : List String} {last : String}
    (h : Stands dir entries front last found) (hPlain : Plain (.dir entries)) :
    fileName found.path = last := by
  have hProper := proper_of_at? hPlain h.place
  rw [h.path]
  exact fileName_foldl dir front (hProper last (List.mem_append_right _ List.mem_cons_self))

/-- A file under proper names of which the first begins with no drive. -/
theorem regular_of_proper {front : List String} {last : String}
    (hProper : ∀ name ∈ front ++ [last], Proper name)
    (hDrive : ∀ name ∈ (front ++ [last]).head?, EntryPath.dropDrive name.toList = name.toList)
    (hArchive : isArchiveName last = false) (dir : String) (contents : Bytes) :
    Regular ⟨(front ++ [last]).foldl within dir, Text.join "/" (front ++ [last]), contents⟩ := by
  have hSome : front ++ [last] ≠ [] := by simp
  have hSplit := split_join hSome hProper
  have hSegments := entrySegments_join hSome hProper hDrive
  have hNormal : EntryPath.normalize (Text.join "/" (front ++ [last])) =
      Text.join "/" (front ++ [last]) := by
    rw [EntryPath.normalize_eq_join, hSegments]
  have hNonempty : Text.join "/" (front ++ [last]) ≠ "" := by
    rw [← hNormal, ne_eq, EntryPath.normalize_eq_empty_iff, hSegments]
    exact hSome
  have hNonzero : '\x00' ∉ (Text.join "/" (front ++ [last])).toList := by
    intro hMem
    obtain ⟨name, hName, hZero⟩ := mem_join (by decide) hMem
    exact (hProper name hName).noZero hZero
  have hLast : Proper last := hProper last (List.mem_append_right _ List.mem_cons_self)
  have hName := fileName_foldl dir front hLast
  refine ⟨hNonempty, replace_join hProper, ?_, hNormal, ⟨hNormal.symm ▸ hNonempty, ?_, ?_⟩, ?_⟩
  · exact (congrArg Prod.snd (Text.dirAndName_join front hLast.noSlash)).trans hName.symm
  · rw [hNormal, hSplit]
    exact fun hMem => (hProper _ hMem).notParent rfl
  · rwa [hNormal]
  · exact (congrArg isArchiveName hName).trans hArchive

theorem Stands.regular {front : List String} {last : String}
    (h : Stands dir entries front last found) (hDirectory : IsDirectory entries) :
    Regular found := by
  obtain ⟨path, relative, contents⟩ := found
  obtain ⟨hPlace, rfl, rfl⟩ := h
  refine regular_of_proper (proper_of_at? hDirectory.plain hPlace) ?_
    (hDirectory.noArchive front last contents hPlace) dir contents
  intro name hName
  obtain ⟨rest, hNames⟩ := List.head?_eq_some_iff.mp hName
  rw [hNames, Node.at?_dir_cons] at hPlace
  obtain ⟨child, hChild, -⟩ := Option.bind_eq_some_iff.mp hPlace
  exact hDirectory.noDrive _ ((lookup_eq_some_iff hDirectory.plain.names_nodup name child).mp hChild)

end Walk

/-- The files of a walk that belong into a bundle. -/
def collectedOf (step : Except WalkError Found) : List Entry :=
  match step with
  | .ok found =>
    if isCollected (fileName found.path) then [⟨found.relative, found.contents⟩] else []
  | .error _ => []

def collected (steps : Steps) : List Entry :=
  steps.flatMap collectedOf

/-- Steps of a walk that come upon regular files. -/
def AllRegular (steps : Steps) : Prop :=
  ∀ step ∈ steps, ∃ found, step = .ok found ∧ Regular found

theorem mem_collected_iff {steps : Steps} {f : Entry} :
    f ∈ collected steps ↔
      ∃ found, .ok found ∈ steps ∧ isCollected (fileName found.path) = true ∧
        f = ⟨found.relative, found.contents⟩ := by
  rw [collected, List.mem_flatMap]
  constructor
  · rintro ⟨step, hStep, hMem⟩
    cases step with
    | error e => cases hMem
    | ok found =>
        simp only [collectedOf] at hMem
        split at hMem
        · rename_i hCollected
          exact ⟨found, hStep, hCollected, List.mem_singleton.mp hMem⟩
        · cases hMem
  · rintro ⟨found, hStep, hCollected, rfl⟩
    refine ⟨_, hStep, ?_⟩
    simp only [collectedOf, hCollected, if_true]
    exact List.mem_singleton_self _

theorem named_collected {steps : Steps} (hSteps : AllRegular steps) :
    (collected steps).map Entry.named = collected steps := by
  apply (List.map_congr_left ?_).trans (List.map_id' _)
  intro f hf
  obtain ⟨found, hFound, -, rfl⟩ := mem_collected_iff.mp hf
  obtain ⟨other, hOther, hRegular⟩ := hSteps _ hFound
  obtain rfl := Except.ok.inj hOther
  exact named_of_normalize hRegular.normal found.contents

/-- The archive of a directory. No pattern leaves out a file, so any builder of sets gives the same. -/
def archiveOf (tree : Tree) (dir : String) : Except WriteError Bytes :=
  archive ((fun _ => ()) <$> writeDirectory tree dir [])

section Writing

/-- One step of a walk after the other is written. -/
theorem run_forIn {body : Except WalkError Found → Nat → Writing (ForInStep Nat)} {steps : Steps}
    (hBody : ∀ step ∈ steps, ∀ (written : Nat) (pack : Archive.Pack) (done : List Entry),
      Holds pack done → ∃ next, (ExceptT.run (body step written)).run pack =
        (.ok (.yield (written + (collectedOf step).length)), next) ∧
          Holds next (done ++ collectedOf step) ∧
            next.written.size ≤ pack.written.size + ((collectedOf step).map Entry.room).sum)
    (written : Nat) (pack : Archive.Pack) (done : List Entry) (hHolds : Holds pack done) :
    ∃ last, (ExceptT.run (forIn steps written body)).run pack =
      (.ok (written + (collected steps).length), last) ∧ Holds last (done ++ collected steps) ∧
        last.written.size ≤ pack.written.size + ((collected steps).map Entry.room).sum := by
  induction steps generalizing written pack done with
  | nil => exact ⟨pack, rfl, by simpa [collected] using hHolds, Nat.le_refl _⟩
  | cons step steps ih =>
      obtain ⟨middle, hMiddle, hHoldsMiddle, hSizeMiddle⟩ :=
        hBody step List.mem_cons_self written pack done hHolds
      obtain ⟨last, hLast, hHoldsLast, hSizeLast⟩ := ih
        (fun other hOther => hBody other (List.mem_cons_of_mem _ hOther))
        (written + (collectedOf step).length) middle _ hHoldsMiddle
      have hCons : collected (step :: steps) = collectedOf step ++ collected steps := rfl
      refine ⟨last, ?_, ?_, ?_⟩
      · rw [List.forIn_cons, ExceptT.run_bind, StateT.run_bind, hMiddle, hCons, List.length_append,
          ← Nat.add_assoc, ← hLast]
        rfl
      · rw [hCons, ← List.append_assoc]
        exact hHoldsLast
      · rw [hCons, List.map_append, List.sum_append]
        omega

/-- A directory of regular files is written file by file. -/
theorem archiveOf_directory {tree : Tree} {dir : String}
    (hSteps : AllRegular (tree.walk false keepAll dir)) :
    ∃ pack, archiveOf tree dir = .ok pack.finish ∧
      Holds pack (collected (tree.walk false keepAll dir)) ∧
        pack.toArchive.length ≤
          ((collected (tree.walk false keepAll dir)).map Entry.room).sum + 2 * Archive.blockSize := by
  have hPatterns : Glob.built (Glob.ofTexts []).1 = [] := Glob.built_nil
  have hNone (name : String) : Glob.anyMatches [] name = false := rfl
  obtain ⟨pack, hRun, hHolds, hSize⟩ : ∃ pack,
      (ExceptT.run (writeDirectory tree dir [])).run .empty =
        (.ok (0 + (collected (tree.walk false keepAll dir)).length), pack) ∧
          Holds pack ([] ++ collected (tree.walk false keepAll dir)) ∧
            pack.written.size ≤ Archive.Pack.empty.written.size +
              ((collected (tree.walk false keepAll dir)).map Entry.room).sum := by
    simp only [writeDirectory, hPatterns, bind_pure]
    refine run_forIn (fun step hStep written pack done hHolds => ?_) 0 .empty [] Holds.empty
    obtain ⟨found, rfl, hRegular⟩ := hSteps step hStep
    simp only [collectedOf, hRegular.slashed, hNone, Bool.not_false, Bool.and_true, pure_bind]
    split
    · obtain ⟨next, hNext, hRoom⟩ := fits_entry hRegular.writable found.contents pack
      refine ⟨next, ?_, writes_entry _ _ _ _ _ hNext hHolds, hRoom⟩
      rw [ExceptT.run_bind, StateT.run_bind, hNext]
      rfl
    · exact ⟨pack, rfl, by simpa using hHolds, Nat.le_refl _⟩
  refine ⟨pack, ?_, hHolds, ?_⟩
  · rw [archiveOf, archive, ExceptT.run_map, StateT.run_map, hRun]
    rfl
  · have hEmpty : Archive.Pack.empty.written.size = 0 := rfl
    rw [length_toArchive]
    omega

end Writing

end PolicyBundle.Bundle
