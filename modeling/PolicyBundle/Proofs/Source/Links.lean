import PolicyBundle.Proofs.Files.Links
import PolicyBundle.Proofs.Source.Loading

/-! What links do to a source directory whose walk passes over them. The walk does not depend on where
they point; the manifest of a bundle directory does, because it is read through a link of its name. So
the links have no effect exactly if no bundle directory is loaded whose manifest is a link. -/

namespace PolicyBundle.Source

open PolicyBundle.Bundle Files Node

namespace Loader

/-- The manifest in a file. -/
def manifestIn (path : String) (contents : Bytes) : Except Error Manifest := do
  let text ← textOf path contents
  (Manifest.ofJson (Text.utf8 text)).mapError fun fault =>
    .document manifestName (.manifest fault)

/-- The manifest of a bundle directory depends on a single file. -/
theorem manifestAt_eq (loader : Loader) (tree : Tree) (root : String) :
    loader.manifestAt tree root =
      match if loader.bundleMode then tree.contents? (join root manifestName) else none with
      | some contents => manifestIn (join root manifestName) contents
      | none => .ok .empty := by
  rw [manifestAt, Tree.isFile_eq]
  cases loader.bundleMode with
  | false => rfl
  | true =>
      cases hContents : tree.contents? (join root manifestName) with
      | none => rfl
      | some contents =>
          have hText : tree.readText (join root manifestName) = Tree.textOf contents := by
            rw [Tree.readText, Tree.read_of_contents? hContents]
            rfl
          simp only [hText]
          rfl

/-- A tree is loaded through the path alone, its manifest and its walk. -/
theorem load_congr {loader : Loader} {left right : Tree} {root : String}
    (hExists : left.pathExists root = right.pathExists root)
    (hManifest : loader.manifestAt left root = loader.manifestAt right root)
    (hWalk : left.walk loader.followLinks loader.keeps root =
      right.walk loader.followLinks loader.keeps root) :
    loader.load left root = loader.load right root := by
  rw [load, load, hExists, hManifest, hWalk]

end Loader

/-- A tree has a directory at a path, with some entries but for where the links in it point. The path
may itself lead through links. -/
def Shows (tree : Tree) (path : String) (entries : List (String × Node)) : Prop :=
  ∃ location own links, tree.node true path = .ok (location, .dir own, links) ∧
    unlinkedEntries own = unlinkedEntries entries

/-- The loader, where links are passed over. -/
def Loader.passing (loader : Loader) : Loader := { loader with followLinks := false }

/-- Where the links of a source directory point, and what is there, makes no difference to what is
loaded while links are not followed. -/
def LinksIgnored (loader : Loader) (entries : List (String × Node)) : Prop :=
  ∀ left right path, Shows left path entries → Shows right path entries →
    loader.passing.load left path = loader.passing.load right path

section Ignored

variable {loader : Loader} {entries : List (String × Node)} {tree : Tree} {path : String}

theorem Shows.pathExists (h : Shows tree path entries) : tree.pathExists path = true := by
  obtain ⟨location, own, links, hNode, -⟩ := h
  rw [Tree.pathExists, hNode]
  rfl

/-- The walk of a directory is one of its entries, without where their links point. -/
theorem Shows.walk_eq (h : Shows tree path entries) :
    tree.walk false loader.keeps path =
      inOrder (stillEntries loader.keeps ⟨path, "", 0⟩ entries) := by
  obtain ⟨location, own, links, hNode, hOwn⟩ := h
  rw [Tree.walk_of_node hNode (keeps_beginning loader _), ← stillEntries_unlinked, hOwn,
    stillEntries_unlinked]

/-- A manifest that is no link is the file of that name. -/
theorem Shows.contents?_manifest (h : Shows tree path entries)
    (hNoLink : ¬ IsLink (entries.lookup manifestName)) :
    tree.contents? (join path manifestName) =
      if (join path manifestName).utf8ByteSize ≤ 4095 then contents? (entries.lookup manifestName)
      else none := by
  obtain ⟨location, own, links, hNode, hOwn⟩ := h
  have hLookup : (own.lookup manifestName).map unlinked = (entries.lookup manifestName).map unlinked := by
    rw [← lookup_unlinkedEntries, hOwn, lookup_unlinkedEntries]
  have hNoLinkOwn : ¬ IsLink (own.lookup manifestName) := by
    rwa [← isLink_unlinked_iff, hLookup, isLink_unlinked_iff]
  rw [Tree.contents?_join hNode proper_manifestName (by decide) hNoLinkOwn,
    ← contents?_unlinked, hLookup, contents?_unlinked]

theorem linksIgnored_of_no_link
    (h : ¬ (loader.bundleMode = true ∧ IsLink (entries.lookup manifestName))) :
    LinksIgnored loader entries := by
  intro left right path hLeft hRight
  refine Loader.load_congr (hLeft.pathExists.trans hRight.pathExists.symm) ?_
    (hLeft.walk_eq.trans hRight.walk_eq.symm)
  rw [Loader.manifestAt_eq, Loader.manifestAt_eq]
  by_cases hMode : loader.bundleMode = true
  · have hNoLink : ¬ IsLink (entries.lookup manifestName) := fun hLink => h ⟨hMode, hLink⟩
    rw [hLeft.contents?_manifest hNoLink, hRight.contents?_manifest hNoLink]
  · have hPassing : loader.passing.bundleMode = false := Bool.eq_false_iff.mpr hMode
    rw [hPassing]
    rfl

end Ignored

section Linked

variable (entries : List (String × Node)) (contents : Bytes)

/-- A directory whose manifest is a link to a file beside the directory. -/
def linkedTree : Tree :=
  ⟨.dir [("w", .dir (setEntry manifestName (.link "/m") entries)), ("m", .file contents)], []⟩

theorem node_linkedTree : (linkedTree entries contents).node true "w" =
    .ok (["w"], .dir (setEntry manifestName (.link "/m") entries), maxLinks) := by
  rw [Tree.node_eq_ok_iff, Tree.resolve_of_usable _ _ ⟨by decide, by decide, by decide⟩]
  exact resolveFrom_name rfl ⟨by decide, by decide, by decide, by decide, by decide, by decide⟩
    (by decide) rfl (fun target hTarget => by cases hTarget)

theorem shows_linkedTree {target : String}
    (hLink : entries.lookup manifestName = some (.link target)) :
    Shows (linkedTree entries contents) "w" entries :=
  ⟨_, _, _, node_linkedTree entries contents, unlinkedEntries_setEntry "/m" hLink⟩

/-- The file that the link points to stands for the manifest. -/
theorem contents?_linkedTree :
    (linkedTree entries contents).contents? (join "w" manifestName) = some contents := by
  have hDir := Tree.at?_of_node (node_linkedTree entries contents)
  have hTarget : segments "/m" ++ [] = ["", "m"] := by decide
  have hFile : resolveFrom (linkedTree entries contents).root true 39 [] ["m"] =
      .ok (.found ["m"] (.file contents), 39) :=
    resolveFrom_name rfl ⟨by decide, by decide, by decide, by decide, by decide, by decide⟩
      (by decide) rfl (fun target hTarget => by cases hTarget)
  have hResolve : (linkedTree entries contents).resolve true (join "w" manifestName) =
      .ok (.found ["m"] (.file contents), 39) := by
    rw [Tree.resolve_join (node_linkedTree entries contents) proper_manifestName (by decide),
      maxLinks, resolveFrom_link hDir proper_manifestName (by decide)
        (lookup_setEntry manifestName (.link "/m") entries), hTarget, if_pos (by decide),
      resolveFrom_dot_cons _ _ (.inl rfl), hFile]
  rw [Tree.contents?, Tree.node_eq_ok_iff.mpr hResolve]

/-- Where the file is no manifest, its fault is the error. -/
theorem value_load_linkedTree (loader : Loader) (hMode : loader.bundleMode = true) {target : String}
    (hLink : entries.lookup manifestName = some (.link target)) {text : String} {fault : Json.Fault}
    (hFault : Manifest.ofJson (Text.utf8 text) = .error fault) :
    (loader.load (linkedTree entries (Text.utf8 text)) "w").outcome.value =
      .error (.document manifestName (.manifest fault)) := by
  have hManifest : loader.manifestAt (linkedTree entries (Text.utf8 text)) "w" =
      .error (.document manifestName (.manifest fault)) := by
    rw [Loader.manifestAt_eq, hMode, if_pos rfl, contents?_linkedTree]
    simp only [Loader.manifestIn, textOf_eq_ok_iff.mpr (Text.ofUtf8?_utf8 text), bind, Except.bind,
      hFault, Log.mapError_error]
  rw [value_load_of_exists (shows_linkedTree entries _ hLink).pathExists, hManifest]
  rfl

theorem not_linksIgnored_of_link {loader : Loader} (hMode : loader.bundleMode = true)
    {target : String} (hLink : entries.lookup manifestName = some (.link target)) :
    ¬ LinksIgnored loader entries := by
  intro hIgnored
  -- Two files that are no manifests, for different reasons, stand for it.
  have hEmpty : Manifest.ofJson (Text.utf8 "") = .error ⟨.unfinishedValue, 1, 0⟩ := rfl
  have hLetter : Manifest.ofJson (Text.utf8 "x") = .error ⟨.expectedValue, 1, 1⟩ := rfl
  have hSame := congrArg (·.outcome.value) (hIgnored _ _ "w"
    (shows_linkedTree entries (Text.utf8 "") hLink) (shows_linkedTree entries (Text.utf8 "x") hLink))
  rw [value_load_linkedTree entries loader.passing hMode hLink hEmpty,
    value_load_linkedTree entries loader.passing hMode hLink hLetter] at hSame
  cases hSame

end Linked

/-- Links have no effect on what is loaded from a source directory while they are not followed, except
where it is a bundle directory and its manifest is a link. -/
theorem linksIgnored_iff (loader : Loader) (entries : List (String × Node)) :
    LinksIgnored loader entries ↔
      ¬ (loader.bundleMode = true ∧ ∃ target, entries.lookup manifestName = some (.link target)) := by
  refine ⟨?_, linksIgnored_of_no_link⟩
  rintro hIgnored ⟨hMode, target, hLink⟩
  exact not_linksIgnored_of_link entries hMode hLink hIgnored

/-- A manifest that is a link out of the directory is read through the link. -/
theorem not_linksIgnored_linkedManifest :
    ¬ LinksIgnored ⟨⟨true, []⟩, true, .undefined, false, true, .default⟩
      [(".manifest", .link "../outside"),
        ("p.rego", .file (Text.utf8 "package p\nx := 1\n"))] :=
  not_linksIgnored_of_link _ rfl rfl

end PolicyBundle.Source
