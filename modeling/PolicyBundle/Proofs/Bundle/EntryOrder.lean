import Mathlib.Data.List.Nodup
import PolicyBundle.Proofs.Bundle.DocumentOrder
import PolicyBundle.Proofs.Bundle.Limits
import PolicyBundle.Proofs.Bundle.ReadBack
import PolicyBundle.Proofs.Bundle.RoundTrip

/-! The order of the members of an archive. What a reader asks of a member it asks of it alone, except
for two things: the first manifest is the one that counts, and data documents are united one after
the other. So an archive is read alike in all orders of its members exactly if all its manifests say
the same, and no document has an object without fields where another one has a value that is no
object. -/

namespace PolicyBundle.Bundle

open Archive Log Policy
open DataTree (GivesWay union?)

/-- The file that a reader makes of a member. -/
def fileOf? (m : Member) : Option Entry :=
  match treatment m.kind with
  | .take => do
    let path ← (entryPath m.path).toOption
    let contents ← m.contents.toOption
    some ⟨path, contents⟩
  | _ => none

/-- The files among some members. -/
def filesAmong (members : List Member) : List Entry :=
  members.filterMap fileOf?

/-- A member that a reader gets past: one that it passes over, or a file that can be taken. -/
inductive Opens (m : Member) : Prop where
  | passOver (hKind : treatment m.kind = .passOver)
  | take {path : String} {size : Nat} {contents : Bytes} (hKind : treatment m.kind = .take)
      (hPath : entryPath m.path = .ok path) (hSize : m.size = .ok size)
      (hContents : m.contents = .ok contents)

/-- Whether a reader may look at so many members, with so many bytes in their files. -/
def Counted (options : ReadOptions) (members : List Member) : Prop :=
  members.length ≤ options.maxEntries ∧ min (declared members) maxSize ≤ options.maxBytes

theorem fileOf?_passOver {m : Member} (h : treatment m.kind = .passOver) : fileOf? m = none := by
  rw [fileOf?, h]

theorem fileOf?_take {m : Member} {path : String} {contents : Bytes}
    (hKind : treatment m.kind = .take) (hPath : entryPath m.path = .ok path)
    (hContents : m.contents = .ok contents) : fileOf? m = some ⟨path, contents⟩ := by
  rw [fileOf?, hKind, hPath, hContents]
  rfl

theorem unpacks_iff {members : List Member} {files : List Entry} :
    Unpacks members files ↔ (∀ m ∈ members, Opens m) ∧ files = filesAmong members := by
  constructor
  · intro h
    induction h with
    | nil => exact ⟨by simp, rfl⟩
    | passOver hKind rest ih =>
        refine ⟨List.forall_mem_cons.mpr ⟨.passOver hKind, ih.1⟩, ?_⟩
        rw [ih.2, filesAmong, filesAmong, List.filterMap_cons_none (fileOf?_passOver hKind)]
    | take hKind hPath hSize hContents rest ih =>
        refine ⟨List.forall_mem_cons.mpr ⟨.take hKind hPath hSize hContents, ih.1⟩, ?_⟩
        rw [ih.2, filesAmong, filesAmong,
          List.filterMap_cons_some (fileOf?_take hKind hPath hContents)]
  · rintro ⟨hOpens, rfl⟩
    induction members with
    | nil => exact .nil
    | cons m members ih =>
        obtain ⟨hFirst, hRest⟩ := List.forall_mem_cons.mp hOpens
        cases hFirst with
        | passOver hKind =>
            rw [filesAmong, List.filterMap_cons_none (fileOf?_passOver hKind)]
            exact .passOver hKind (ih hRest)
        | take hKind hPath hSize hContents =>
            rw [filesAmong, List.filterMap_cons_some (fileOf?_take hKind hPath hContents)]
            exact .take hKind hPath hSize hContents (ih hRest)

/-- The listing of an archive that has these members and ends behind them. -/
def listingOf (members : List Member) : Listing :=
  members.foldr .member .done

@[simp] theorem members_listingOf (members : List Member) :
    (listingOf members).members = members :=
  Listing.members_foldr members

@[simp] theorem isWhole_listingOf (members : List Member) :
    (listingOf members).isWhole = true := by
  induction members with
  | nil => rfl
  | cons m members ih => exact ih

theorem listingOf_members {listing : Listing} (h : listing.isWhole = true) :
    listingOf listing.members = listing := by
  induction listing with
  | done => rfl
  | broken fault => cases h
  | member m rest ih => exact congrArg (Listing.member m) (ih h)

/-- What becomes of reading an archive that has these members and ends behind them. -/
def readMembers (options : ReadOptions) (members : List Member) : Except ReadError Bundle :=
  (entriesFrom options 0 0 (listingOf members)).bind fun entries =>
    (manifestOf entries).bind fun manifest =>
      entries.foldlM (addEntry options.annotations (options.dialectOf manifest))
        { empty with manifest }

/-- An archive that can be read to its end is read as its members are. -/
theorem value_read_eq_readMembers (options : ReadOptions) {bytes : Bytes} (hSome : bytes ≠ [])
    (hWhole : (Listing.ofStream (Gzip.decode bytes)).isWhole = true) :
    (read options bytes).outcome.value = readMembers options (membersOf bytes) := by
  have hNonempty : ¬bytes.isEmpty = true := by simpa using hSome
  rw [value_read, if_neg hNonempty, readMembers, membersOf, listingOf_members hWhole]
  rfl

section Files

variable {annotations : Bool} {dialect : Dialect} {bundle next : Bundle} {entry : Entry}

/-- The module in a file. -/
def moduleIn? (annotations : Bool) (dialect : Dialect) (entry : Entry) : Option Module :=
  if isModuleName (Text.dirAndName entry.path).2 then
    (Text.ofUtf8? entry.contents).bind fun source =>
      (moduleOf annotations dialect entry.path source).toOption
  else none

/-- The data document in a file, in objects along the path of its directory. -/
def documentIn? (entry : Entry) : Option Json :=
  if (Text.dirAndName entry.path).2 = dataName then
    (Json.parse entry.contents).toOption.map
      (DataTree.wrap (DataTree.pathOf (Text.dirAndName entry.path).1))
  else none

/-- A file that can be read, whatever the others are. -/
structure Readable (annotations : Bool) (dialect : Dialect) (manifest : Manifest) (entry : Entry) :
    Prop where
  module : isModuleName (Text.dirAndName entry.path).2 = true →
    ∃ m, moduleIn? annotations dialect entry = some m ∧
      manifest.owns (Text.replace '.' '/' m.package) = true
  document : (Text.dirAndName entry.path).2 = dataName → ∃ d, documentIn? entry = some d

theorem moduleIn?_eq_some_iff {m : Module} :
    moduleIn? annotations dialect entry = some m ↔
      isModuleName (Text.dirAndName entry.path).2 = true ∧ ∃ source,
        Text.ofUtf8? entry.contents = some source ∧
          moduleOf annotations dialect entry.path source = .ok m := by
  rw [moduleIn?]
  split
  · rename_i hName
    simp [hName, Option.bind_eq_some_iff, toOption_eq_some_iff]
  · rename_i hName
    simp [hName]

theorem documentIn?_eq_some_iff {d : Json} :
    documentIn? entry = some d ↔ (Text.dirAndName entry.path).2 = dataName ∧ ∃ value,
      Json.parse entry.contents = .ok value ∧
        DataTree.wrap (DataTree.pathOf (Text.dirAndName entry.path).1) value = d := by
  rw [documentIn?]
  split
  · rename_i hName
    simp [hName, toOption_eq_some_iff]
  · rename_i hName
    simp [hName]

theorem isModuleName_dataName : isModuleName dataName = false := by decide

theorem ne_dataName_of_isModuleName {name : String} (h : isModuleName name = true) :
    name ≠ dataName := by
  rintro rfl
  rw [isModuleName_dataName] at h
  cases h

theorem moduleIn?_eq_none (h : isModuleName (Text.dirAndName entry.path).2 = false) :
    moduleIn? annotations dialect entry = none := by
  rw [moduleIn?, if_neg (by simp [h])]

theorem documentIn?_eq_none (h : (Text.dirAndName entry.path).2 ≠ dataName) :
    documentIn? entry = none :=
  if_neg h

theorem documentIn?_formed {d : Json} (h : documentIn? entry = some d) : Json.Formed d := by
  obtain ⟨-, value, hValue, rfl⟩ := documentIn?_eq_some_iff.mp h
  exact DataTree.wrap_formed (Json.parse_formed hValue).1 _

theorem mount_eq_none_iff {tree data value : Json} (h : Json.Formed value) (path : List String) :
    DataTree.mount tree path value = (data, none) ↔
      union? tree (DataTree.wrap path value) = some data := by
  rw [DataTree.union?_eq_some_iff, DataTree.mount, DataTree.mountAt_eq_merge tree path h]
  rcases DataTree.merge tree (DataTree.wrap path value) with ⟨result, _ | conflict⟩ <;> simp

/-- A policy module is taken if it can be read and the bundle owns its package. -/
theorem takes_module_iff (hName : isModuleName (Text.dirAndName entry.path).2 = true) :
    Takes annotations dialect bundle entry next ↔
      ∃ m, moduleIn? annotations dialect entry = some m ∧
        bundle.manifest.owns (Text.replace '.' '/' m.package) = true ∧
        { bundle with modules := bundle.modules ++ [m] } = next := by
  constructor
  · intro h
    cases h with
    | module _ hText hModule hOwned =>
        exact ⟨_, moduleIn?_eq_some_iff.mpr ⟨hName, _, hText, hModule⟩, hOwned, rfl⟩
    | data hOther => rw [hName] at hOther; cases hOther
    | other hOther => rw [hName] at hOther; cases hOther
  · rintro ⟨m, hFound, hOwned, rfl⟩
    obtain ⟨-, source, hText, hModule⟩ := moduleIn?_eq_some_iff.mp hFound
    exact .module hName hText hModule hOwned

/-- A data document is taken if it can be united with the data. -/
theorem takes_document_iff (hName : (Text.dirAndName entry.path).2 = dataName) :
    Takes annotations dialect bundle entry next ↔
      ∃ d, documentIn? entry = some d ∧
        ∃ data, union? bundle.data d = some data ∧ { bundle with data } = next := by
  constructor
  · intro h
    cases h with
    | module hOther => exact absurd hName (ne_dataName_of_isModuleName hOther)
    | data _ _ hValue hMount =>
        exact ⟨_, documentIn?_eq_some_iff.mpr ⟨hName, _, hValue, rfl⟩, _,
          (mount_eq_none_iff (Json.parse_formed hValue).1 _).mp hMount, rfl⟩
    | other _ hOther => exact absurd hName hOther
  · rintro ⟨d, hFound, data, hUnited, rfl⟩
    obtain ⟨-, value, hValue, rfl⟩ := documentIn?_eq_some_iff.mp hFound
    exact .data (hName ▸ isModuleName_dataName) hName hValue
      ((mount_eq_none_iff (Json.parse_formed hValue).1 _).mpr hUnited)

/-- Every other file is taken, and left out. -/
theorem takes_other_iff (hName : isModuleName (Text.dirAndName entry.path).2 = false)
    (hData : (Text.dirAndName entry.path).2 ≠ dataName) :
    Takes annotations dialect bundle entry next ↔ bundle = next := by
  constructor
  · intro h
    cases h with
    | module hOther => rw [hName] at hOther; cases hOther
    | data _ hOther => exact absurd hOther hData
    | other => rfl
  · rintro rfl
    exact .other hName hData

/-- What a file does to a bundle: it can be read, its module is the last one, and its document is
united with the data. -/
theorem takes_iff :
    Takes annotations dialect bundle entry next ↔
      Readable annotations dialect bundle.manifest entry ∧
        (documentIn? entry).toList.foldlM union? bundle.data = some next.data ∧
        next.manifest = bundle.manifest ∧
        next.modules = bundle.modules ++ (moduleIn? annotations dialect entry).toList := by
  obtain ⟨manifest, modules, data⟩ := next
  by_cases hModule : isModuleName (Text.dirAndName entry.path).2 = true
  · have hOther := ne_dataName_of_isModuleName hModule
    rw [takes_module_iff hModule, documentIn?_eq_none hOther]
    constructor
    · rintro ⟨m, hFound, hOwned, hNext⟩
      cases hNext
      exact ⟨⟨fun _ => ⟨m, hFound, hOwned⟩, fun h => absurd h hOther⟩, rfl, rfl, by rw [hFound]; rfl⟩
    · rintro ⟨hReadable, hData, rfl, hModules⟩
      obtain ⟨m, hFound, hOwned⟩ := hReadable.module hModule
      obtain rfl : bundle.data = data := Option.some.inj hData
      rw [hFound] at hModules
      exact ⟨m, hFound, hOwned, congrArg (Bundle.mk _ · _) hModules.symm⟩
  · rw [Bool.not_eq_true] at hModule
    have hNever {P : Prop} (h : isModuleName (Text.dirAndName entry.path).2 = true) : P := by
      rw [hModule] at h
      cases h
    rw [moduleIn?_eq_none hModule, Option.toList_none, List.append_nil]
    by_cases hDocument : (Text.dirAndName entry.path).2 = dataName
    · rw [takes_document_iff hDocument]
      constructor
      · rintro ⟨d, hFound, united, hUnited, hNext⟩
        cases hNext
        refine ⟨⟨hNever, fun _ => ⟨d, hFound⟩⟩, ?_, rfl, rfl⟩
        rw [hFound, Option.toList_some, List.foldlM_cons, hUnited]
        rfl
      · rintro ⟨hReadable, hData, rfl, rfl⟩
        obtain ⟨d, hFound⟩ := hReadable.document hDocument
        rw [hFound, Option.toList_some, List.foldlM_cons] at hData
        obtain ⟨united, hUnited, hRest⟩ := Option.bind_eq_some_iff.mp hData
        exact ⟨d, hFound, united, hUnited, congrArg (Bundle.mk _ _) (Option.some.inj hRest)⟩
    · rw [takes_other_iff hModule hDocument, documentIn?_eq_none hDocument]
      constructor
      · rintro rfl
        exact ⟨⟨hNever, fun h => absurd h hDocument⟩, rfl, rfl, rfl⟩
      · rintro ⟨-, hData, rfl, rfl⟩
        exact congrArg (Bundle.mk _ _) (Option.some.inj hData)

theorem filterMap_cons_eq {α β : Type} (f : α → Option β) (x : α) (items : List α) :
    (x :: items).filterMap f = (f x).toList ++ items.filterMap f := by
  cases h : f x <;> simp [h]

/-- Files make a bundle if each of them can be read and their documents are united. -/
theorem foldlM_addEntry_eq_ok_iff {entries : List Entry} :
    entries.foldlM (addEntry annotations dialect) bundle = .ok next ↔
      (∀ e ∈ entries, Readable annotations dialect bundle.manifest e) ∧
        (entries.filterMap documentIn?).foldlM union? bundle.data = some next.data ∧
        next.manifest = bundle.manifest ∧
        next.modules = bundle.modules ++ entries.filterMap (moduleIn? annotations dialect) := by
  induction entries generalizing bundle with
  | nil =>
      obtain ⟨manifest, modules, data⟩ := next
      obtain ⟨manifest', modules', data'⟩ := bundle
      simp only [List.foldlM_nil, pure, Except.pure, Except.ok.injEq, mk.injEq, List.not_mem_nil,
        false_implies, implies_true, List.filterMap_nil, Option.some.injEq, List.append_nil, true_and]
      tauto
  | cons e entries ih =>
      rw [List.foldlM_cons, filterMap_cons_eq, filterMap_cons_eq, List.foldlM_append,
        List.forall_mem_cons]
      constructor
      · intro h
        obtain ⟨middle, hMiddle, hRest⟩ := bind_eq_ok h
        obtain ⟨hReadable, hData, hManifest, hModules⟩ := takes_iff.mp (addEntry_eq_ok_iff.mp hMiddle)
        obtain ⟨hReadables, hMore, hSame, hAll⟩ := ih.mp hRest
        rw [hManifest] at hReadables hSame
        refine ⟨⟨hReadable, hReadables⟩, ?_, hSame, ?_⟩
        · rw [hData]
          exact hMore
        · rw [hAll, hModules, List.append_assoc]
      · rintro ⟨⟨hReadable, hReadables⟩, hData, hManifest, hModules⟩
        obtain ⟨data, hFirst, hMore⟩ := Option.bind_eq_some_iff.mp hData
        have hTakes : Takes annotations dialect bundle e ⟨bundle.manifest,
            bundle.modules ++ (moduleIn? annotations dialect e).toList, data⟩ :=
          takes_iff.mpr ⟨hReadable, hFirst, rfl, rfl⟩
        rw [addEntry_eq_ok_iff.mpr hTakes]
        refine ih.mpr ⟨hReadables, hMore, hManifest, ?_⟩
        rw [hModules, List.append_assoc]

end Files

/-- The data documents among some members, each in objects along the path of its directory. -/
def documentsAmong (members : List Member) : List Json :=
  (filesAmong members).filterMap documentIn?

/-- The module that a reader makes of a member, if any. -/
def moduleOf? (annotations : Bool) (dialect : Dialect) (m : Member) : Option Module :=
  (fileOf? m).bind (moduleIn? annotations dialect)

theorem documentsAmong_formed (members : List Member) :
    ∀ d ∈ documentsAmong members, Json.Formed d := by
  intro d hd
  obtain ⟨entry, -, hDocument⟩ := List.mem_filterMap.mp hd
  exact documentIn?_formed hDocument

/-- What a reader asks of the members of an archive, and what it makes of them. -/
theorem readMembers_eq_ok_iff {options : ReadOptions} {members : List Member} {bundle : Bundle} :
    readMembers options members = .ok bundle ↔
      Counted options members ∧ (∀ m ∈ members, Opens m) ∧
        manifestOf (filesAmong members) = .ok bundle.manifest ∧
        (∀ f ∈ filesAmong members, Readable options.annotations
          (options.dialectOf bundle.manifest) bundle.manifest f) ∧
        (documentsAmong members).foldlM union? Json.emptyObject = some bundle.data ∧
        bundle.modules = members.filterMap
          (moduleOf? options.annotations (options.dialectOf bundle.manifest)) := by
  have hEntries (files : List Entry) : entriesFrom options 0 0 (listingOf members) = .ok files ↔
      Counted options members ∧ (∀ m ∈ members, Opens m) ∧ files = filesAmong members := by
    rw [entriesFrom_eq_ok_iff (Nat.zero_le _) (Nat.zero_le _), isWhole_listingOf, members_listingOf,
      unpacks_iff, Nat.zero_add, Nat.zero_add, Counted, and_iff_right rfl, and_assoc]
  have hModules (dialect : Dialect) : (filesAmong members).filterMap
      (moduleIn? options.annotations dialect) =
        members.filterMap (moduleOf? options.annotations dialect) :=
    List.filterMap_filterMap
  simp only [readMembers, bind_eq_ok_iff, hEntries, foldlM_addEntry_eq_ok_iff]
  constructor
  · rintro ⟨_, ⟨hCounted, hOpens, rfl⟩, manifest, hManifest, hReadable, hData, hSame, hAll⟩
    rw [hModules] at hAll
    subst hSame
    exact ⟨hCounted, hOpens, hManifest, hReadable, hData, hAll⟩
  · rintro ⟨hCounted, hOpens, hManifest, hReadable, hData, hAll⟩
    rw [← hModules] at hAll
    exact ⟨_, ⟨hCounted, hOpens, rfl⟩, bundle.manifest, hManifest, hReadable, hData, rfl, hAll⟩

/-- All manifests among some files say the same. -/
def ManifestsAgree (files : List Entry) : Prop :=
  ∀ f ∈ files, ∀ g ∈ files, f.path = manifestName → g.path = manifestName →
    Manifest.ofJson f.contents = Manifest.ofJson g.contents

/-- Two readings that are both refused, or that have one manifest, one tree of data, and modules that
stand as the members stand that they are made of. -/
inductive ReadAlike (options : ReadOptions) (first second : List Member) : Prop where
  | refused {error other : ReadError} (hFirst : readMembers options first = .error error)
      (hSecond : readMembers options second = .error other)
  | accepted {bundle other : Bundle} (hFirst : readMembers options first = .ok bundle)
      (hSecond : readMembers options second = .ok other)
      (manifest : other.manifest = bundle.manifest) (data : other.data = bundle.data)
      (modules : bundle.modules = first.filterMap
        (moduleOf? options.annotations (options.dialectOf bundle.manifest)))
      (modules' : other.modules = second.filterMap
        (moduleOf? options.annotations (options.dialectOf bundle.manifest)))

section Orders

variable {options : ReadOptions} {first second : List Member} {bundle : Bundle}

theorem filesAmong_perm (h : first.Perm second) : (filesAmong first).Perm (filesAmong second) :=
  h.filterMap _

theorem documentsAmong_perm (h : first.Perm second) :
    (documentsAmong first).Perm (documentsAmong second) :=
  (filesAmong_perm h).filterMap _

theorem Counted.of_perm (hPerm : first.Perm second) (h : Counted options first) :
    Counted options second := by
  rw [Counted, declared] at h ⊢
  rwa [← hPerm.length_eq, ← (hPerm.map declaredSize).sum_nat]

theorem ManifestsAgree.of_perm {files others : List Entry} (hPerm : files.Perm others)
    (h : ManifestsAgree files) : ManifestsAgree others :=
  fun f hf g hg => h f (hPerm.mem_iff.mpr hf) g (hPerm.mem_iff.mpr hg)

/-- Where all manifests say the same, the first one is any of them. -/
theorem manifestOf_of_perm {files others : List Entry} (hPerm : files.Perm others)
    (hAgree : ManifestsAgree files) {manifest : Manifest} (h : manifestOf files = .ok manifest) :
    manifestOf others = .ok manifest := by
  rw [manifestOf] at h ⊢
  cases hFound : files.find? (·.path = manifestName) with
  | none =>
      rw [hFound] at h
      have hNone : others.find? (·.path = manifestName) = none := by
        rw [List.find?_eq_none] at hFound ⊢
        exact fun f hf => hFound f (hPerm.mem_iff.mpr hf)
      rw [hNone]
      exact h
  | some f =>
      rw [hFound] at h
      have hName := List.find?_some hFound
      have hMem := hPerm.mem_iff.mp (List.mem_of_find?_eq_some hFound)
      cases hOther : others.find? (·.path = manifestName) with
      | none => exact absurd hName (List.find?_eq_none.mp hOther f hMem)
      | some g =>
          have hSame := hAgree f (List.mem_of_find?_eq_some hFound) g
            (hPerm.mem_iff.mpr (List.mem_of_find?_eq_some hOther))
            (by simpa using hName) (by simpa using List.find?_some hOther)
          simpa [← hSame] using h

/-- What is read in one order is read in every other one, if the manifests say the same and no
document gives way to another. -/
theorem readMembers_of_perm (hPerm : first.Perm second) (hAgree : ManifestsAgree (filesAmong first))
    (hStay : ∀ d ∈ documentsAmong first, ∀ e ∈ documentsAmong first, ¬GivesWay d e)
    (h : readMembers options first = .ok bundle) :
    readMembers options second = .ok { bundle with
      modules := second.filterMap
        (moduleOf? options.annotations (options.dialectOf bundle.manifest)) } := by
  obtain ⟨hCounted, hOpens, hManifest, hReadable, hData, -⟩ := readMembers_eq_ok_iff.mp h
  have hFormed := documentsAmong_formed first
  have hPairs := DataTree.pairwise_fits_of_perm (documentsAmong_perm hPerm) hStay
    ((DataTree.exists_foldlM_union?_emptyObject_iff hFormed).mp ⟨_, hData⟩)
  obtain ⟨data, hOther⟩ :=
    (DataTree.exists_foldlM_union?_emptyObject_iff (documentsAmong_formed second)).mpr hPairs
  obtain rfl := DataTree.foldlM_union?_eq_of_perm (.object List.Pairwise.nil (by simp)) hFormed
    (documentsAmong_perm hPerm) hData hOther
  exact readMembers_eq_ok_iff.mpr ⟨hCounted.of_perm hPerm,
    fun m hm => hOpens m (hPerm.mem_iff.mpr hm),
    manifestOf_of_perm (filesAmong_perm hPerm) hAgree hManifest,
    fun f hf => hReadable f ((filesAmong_perm hPerm).mem_iff.mpr hf), hOther, rfl⟩

theorem ReadAlike.accepts (h : ReadAlike options first second)
    (hFirst : readMembers options first = .ok bundle) :
    ∃ other, readMembers options second = .ok other ∧ other.manifest = bundle.manifest := by
  cases h with
  | refused hError => rw [hFirst] at hError; cases hError
  | accepted hOk hSecond manifest =>
      obtain rfl := Except.ok.inj (hFirst.symm.trans hOk)
      exact ⟨_, hSecond, manifest⟩

theorem ReadAlike.accepted_of (h : ReadAlike options first second)
    (hSecond : readMembers options second = .ok bundle) :
    ∃ other, readMembers options first = .ok other ∧ bundle.manifest = other.manifest := by
  cases h with
  | refused _ hError => rw [hSecond] at hError; cases hError
  | accepted hFirst hOk manifest =>
      obtain rfl := Except.ok.inj (hSecond.symm.trans hOk)
      exact ⟨_, hFirst, manifest⟩

end Orders

/-- A manifest in front of all other files is the one that counts. -/
theorem ofJson_of_manifestOf {f : Entry} {files : List Entry} {manifest : Manifest}
    (hName : f.path = manifestName) (h : manifestOf (f :: files) = .ok manifest) :
    Manifest.ofJson f.contents = .ok manifest := by
  rw [manifestOf, List.find?_cons_of_pos (by simpa using hName)] at h
  exact mapError_eq_ok h

/-- A member of a list can stand in front of the others. -/
theorem exists_front {members : List Member} {m : Member} (h : m ∈ members) :
    ∃ rest, (m :: rest).Perm members := by
  obtain ⟨before, behind, rfl⟩ := List.append_of_mem h
  exact ⟨before ++ behind, List.perm_middle.symm⟩

/-- Two members of a list can stand in front of the others, in either order. -/
theorem exists_front_two {members : List Member} {m n : Member} (hm : m ∈ members) (hn : n ∈ members)
    (hNe : n ≠ m) : ∃ rest, (m :: n :: rest).Perm members := by
  obtain ⟨rest, hRest⟩ := exists_front hm
  obtain ⟨others, hOthers⟩ :=
    exists_front ((List.mem_cons.mp (hRest.mem_iff.mpr hn)).resolve_left hNe)
  exact ⟨others, (hOthers.cons m).trans hRest⟩

/-- A document that is given way to may stand in front of the one that gives way: then an archive is
refused. -/
theorem not_accepted_of_givesWay {options : ReadOptions} {m n : Member} {f g : Entry} {d e : Json}
    {rest : List Member} (hm : fileOf? m = some f) (hn : fileOf? n = some g)
    (hd : documentIn? f = some d) (he : documentIn? g = some e) (hWay : GivesWay e d)
    (bundle : Bundle) : readMembers options (m :: n :: rest) ≠ .ok bundle := by
  intro h
  obtain ⟨-, -, -, -, hData, -⟩ := readMembers_eq_ok_iff.mp h
  have hFormed := documentsAmong_formed (m :: n :: rest)
  have hPairs := (DataTree.exists_foldlM_union?_emptyObject_iff hFormed).mp ⟨_, hData⟩
  have hDocuments : documentsAmong (m :: n :: rest) = d :: e :: documentsAmong rest := by
    rw [documentsAmong, filesAmong, List.filterMap_cons_some hm, List.filterMap_cons_some hn,
      List.filterMap_cons_some hd, List.filterMap_cons_some he]
    rfl
  rw [hDocuments] at hPairs
  exact hWay.not_fits ((List.pairwise_cons.mp hPairs).1 e List.mem_cons_self)

theorem manifestsAgree_of_nodup {files : List Entry} (h : (files.map (·.path)).Nodup) :
    ManifestsAgree files := by
  intro f hf g hg hfName hgName
  rw [List.inj_on_of_nodup_map h hf hg (hfName.trans hgName.symm)]

/-- An archive that can be read to its end is read as its members are. It is read alike in all orders
of its members exactly if, where any of them is accepted, all manifests among them say the same, as
they do where all paths differ, and no document has an object without fields where another one has a
value that is no object. -/
theorem readAlike_orders_iff (options : ReadOptions) (members : List Member) :
    (∀ bytes, bytes ≠ [] → (Listing.ofStream (Gzip.decode bytes)).isWhole = true →
        membersOf bytes = members →
          (read options bytes).outcome.value = readMembers options members) ∧
    (((filesAmong members).map (·.path)).Nodup → ManifestsAgree (filesAmong members)) ∧
    ((∀ order, order.Perm members → ReadAlike options members order) ↔
      ∀ order bundle, order.Perm members → readMembers options order = .ok bundle →
        ManifestsAgree (filesAmong members) ∧
          ∀ d ∈ documentsAmong members, ∀ e ∈ documentsAmong members, ¬GivesWay d e) := by
  refine ⟨fun bytes hSome hWhole hMembers => hMembers ▸ value_read_eq_readMembers options hSome hWhole,
    manifestsAgree_of_nodup, fun hAlike order bundle hPerm hRead => ⟨?_, ?_⟩, fun hOrders order hPerm => ?_⟩
  · obtain ⟨given, hGiven, -⟩ := (hAlike order hPerm).accepted_of hRead
    have hFront : ∀ f ∈ filesAmong members, f.path = manifestName →
        Manifest.ofJson f.contents = .ok given.manifest := by
      intro f hf hName
      obtain ⟨m, hm, hFile⟩ := List.mem_filterMap.mp hf
      obtain ⟨rest, hRest⟩ := exists_front hm
      obtain ⟨other, hOther, hSame⟩ := (hAlike _ hRest).accepts hGiven
      obtain ⟨-, -, hManifest, -⟩ := readMembers_eq_ok_iff.mp hOther
      rw [filesAmong, List.filterMap_cons_some hFile, hSame] at hManifest
      exact ofJson_of_manifestOf hName hManifest
    intro f hf g hg hfName hgName
    rw [hFront f hf hfName, hFront g hg hgName]
  · obtain ⟨given, hGiven, -⟩ := (hAlike order hPerm).accepted_of hRead
    intro d hd e he hWay
    obtain ⟨f, hf, hDocument⟩ := List.mem_filterMap.mp hd
    obtain ⟨g, hg, hOther⟩ := List.mem_filterMap.mp he
    obtain ⟨m, hm, hFile⟩ := List.mem_filterMap.mp hf
    obtain ⟨n, hn, hOtherFile⟩ := List.mem_filterMap.mp hg
    -- one document is not both at a position, so the two stand in two members
    have hNe : m ≠ n := by
      rintro rfl
      obtain rfl : f = g := Option.some.inj (hFile.symm.trans hOtherFile)
      obtain rfl : d = e := Option.some.inj (hDocument.symm.trans hOther)
      obtain ⟨position, value, hEmpty, hValue, hScalar⟩ := hWay
      obtain rfl : Json.emptyObject = value := Option.some.inj (hEmpty.symm.trans hValue)
      cases hScalar
    obtain ⟨rest, hRest⟩ := exists_front_two hn hm hNe
    obtain ⟨bundle, hAccepted, -⟩ := (hAlike _ hRest).accepts hGiven
    exact not_accepted_of_givesWay hOtherFile hFile hOther hDocument hWay bundle hAccepted
  · cases hMembers : readMembers options members with
    | ok bundle =>
        obtain ⟨hAgree, hStay⟩ := hOrders members bundle (.refl _) hMembers
        have hOrder := readMembers_of_perm hPerm.symm hAgree hStay hMembers
        obtain ⟨-, -, -, -, -, hModules⟩ := readMembers_eq_ok_iff.mp hMembers
        exact .accepted hMembers hOrder rfl rfl hModules rfl
    | error error =>
        cases hOrder : readMembers options order with
        | error other => exact .refused hMembers hOrder
        | ok bundle =>
            obtain ⟨hAgree, hStay⟩ := hOrders order bundle hPerm hOrder
            have hBack := readMembers_of_perm hPerm (hAgree.of_perm (filesAmong_perm hPerm.symm))
              (fun d hd e he => hStay d ((documentsAmong_perm hPerm).mem_iff.mp hd) e
                ((documentsAmong_perm hPerm).mem_iff.mp he)) hOrder
            rw [hMembers] at hBack
            cases hBack

/-- The archive of some files. -/
def packed (files : List Entry) : Bytes :=
  ((writeEach files).run .empty).2.finish

/-- Files whose paths are normal are read from their archive as they are. -/
theorem value_read_packed {files : List Entry} {options : ReadOptions}
    (hPaths : ∀ f ∈ files, EntryPath.Writable f.path ∧ EntryPath.normalize f.path = f.path)
    (hRoom : (files.map Entry.room).sum + 2 * blockSize < Nat.pow 2 64)
    (hTotal : (files.map (·.contents.length)).sum ≤ options.maxBytes)
    (hEntries : files.length ≤ options.maxEntries) :
    (read options (packed files)).outcome.value = (manifestOf files).bind fun manifest =>
      files.foldlM (addEntry options.annotations (options.dialectOf manifest))
        { empty with manifest } := by
  obtain ⟨pack, hRun, -, hHolds⟩ := run_writeEach Holds.empty
    (fun f hf => (hPaths f hf).1.inside) (fun f hf => (hPaths f hf).1.nonzero)
  have hNamed : [] ++ named files = files := by
    simpa [named] using fun f hf => (hPaths f hf).1.named
  have hSame : files.map Entry.named = files := by
    rw [List.map_congr_left fun f hf => named_of_normalize (hPaths f hf).2 f.contents]
    exact List.map_id _
  rw [hNamed] at hHolds
  have hSize := size_writeEach_le files .empty
  have hEmpty : Pack.empty.written.size = 0 := rfl
  simp only [hRun, hEmpty, Nat.zero_add] at hSize
  have hFits : pack.toArchive.length < Nat.pow 2 64 := by
    rw [length_toArchive]
    omega
  have hPacked : packed files = pack.finish := by rw [packed, hRun]
  rw [hPacked, hHolds.value_read (fun f hf _ => (hPaths f hf).1.hasParent_eq_false) hFits hTotal
    hEntries, hSame]

/-- An object without fields, and then a document that has a number in its place. -/
def placeholderFirst : List Entry :=
  [⟨"a/data.json", Text.utf8 "\x7b\x7d"⟩, ⟨"data.json", Text.utf8 "\x7b\"a\":1\x7d"⟩]

/-- In one order the number takes the place of the object, in the other one the object is refused. -/
theorem not_isOk_read_packed_perm :
    ¬∀ files order : List Entry, order.Perm files → (files.map (·.path)).Nodup →
      ∀ options, (read options (packed files)).outcome.value.isOk =
        (read options (packed order)).outcome.value.isOk := by
  intro h
  have hPaths : ∀ f ∈ placeholderFirst,
      EntryPath.Writable f.path ∧ EntryPath.normalize f.path = f.path := by
    simp only [placeholderFirst, List.forall_mem_cons]
    refine ⟨⟨⟨?_, ?_, ?_⟩, ?_⟩, ⟨⟨?_, ?_, ?_⟩, ?_⟩, by simp⟩ <;> decide +kernel
  have hSame := h placeholderFirst placeholderFirst.reverse (List.reverse_perm _) (by decide)
    ⟨true, .v1, 9, 2⟩
  rw [value_read_packed hPaths (by decide +kernel) (by decide +kernel) (by decide),
    value_read_packed (fun f hf => hPaths f (List.mem_reverse.mp hf)) (by decide +kernel)
      (by decide +kernel) (by decide)] at hSame
  revert hSame
  decide +kernel

end PolicyBundle.Bundle
