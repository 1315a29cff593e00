import Mathlib.Data.List.Infix
import PolicyBundle.Proofs.Build.Pruning

/-! Two ways to collect texts, each once: in the order in which they are met, and in increasing order.
The second forgets the order of what it is given. The first keeps it, so things that give texts can be
put in any order exactly if of any two of them the new texts of one begin those of the other: then the
longest of them tells them all. -/

namespace PolicyBundle.Build

section Met

variable {α : Type} {give : α → List String} {start : List String} {items others : List α}

/-- One of two lists is a beginning of the other. -/
def OneBegins (left right : List String) : Prop :=
  left <+: right ∨ right <+: left

theorem addOnce_of_mem {paths : List String} {path : String} (h : path ∈ paths) :
    addOnce paths path = paths :=
  if_pos (List.contains_iff_mem.mpr h)

theorem addOnce_of_notMem {paths : List String} {path : String} (h : path ∉ paths) :
    addOnce paths path = paths ++ [path] :=
  if_neg fun hOld => h (List.contains_iff_mem.mp hOld)

theorem prefix_addOnce (paths : List String) (path : String) : paths <+: addOnce paths path := by
  rw [addOnce]
  split
  · exact List.prefix_refl _
  · exact List.prefix_append _ _

theorem prefix_foldl_addOnce (more paths : List String) : paths <+: more.foldl addOnce paths := by
  induction more generalizing paths with
  | nil => exact List.prefix_refl _
  | cons path more ih => exact (prefix_addOnce paths path).trans (ih _)

theorem foldl_addOnce_of_subset {more paths : List String} (h : more ⊆ paths) :
    more.foldl addOnce paths = paths := by
  induction more with
  | nil => rfl
  | cons path more ih =>
      obtain ⟨hFirst, hRest⟩ := List.cons_subset.mp h
      rw [List.foldl_cons, addOnce_of_mem hFirst, ih hRest]

theorem prefix_antisymm {left right : List String} (h : left <+: right) (hBack : right <+: left) :
    left = right :=
  h.eq_of_length (Nat.le_antisymm h.length_le hBack.length_le)

/-- Texts that are collected on top of a beginning of what they come to come to the same. -/
theorem foldl_addOnce_of_prefix {more paths : List String} (hStart : start <+: paths)
    (hPaths : paths <+: more.foldl addOnce start) :
    more.foldl addOnce paths = more.foldl addOnce start := by
  induction more generalizing start with
  | nil => exact prefix_antisymm hPaths hStart
  | cons path more ih =>
      rw [List.foldl_cons] at hPaths
      rw [List.foldl_cons, List.foldl_cons]
      by_cases hOld : path ∈ start
      · rw [addOnce_of_mem hOld] at hPaths ⊢
        rw [addOnce_of_mem (hStart.subset hOld), ih hStart hPaths]
      · rw [addOnce_of_notMem hOld] at hPaths ⊢
        have hLonger (h : start ++ [path] <+: paths) :
            more.foldl addOnce (addOnce paths path) = more.foldl addOnce (start ++ [path]) := by
          rw [addOnce_of_mem (h.subset (by simp)), ih h hPaths]
        -- the paths stand between the start and the start with the next text behind it
        rcases List.prefix_or_prefix_of_prefix (prefix_foldl_addOnce more (start ++ [path])) hPaths with
          h | h
        · exact hLonger h
        · rcases List.prefix_concat_iff.mp h with rfl | h
          · exact hLonger (List.prefix_refl _)
          · obtain rfl := prefix_antisymm hStart h
            rw [addOnce_of_notMem hOld]

/-- All of some texts, each once, in the order in which they occur first. -/
structure FirstOccurrences (texts listed : List String) : Prop where
  mem : ∀ text, text ∈ listed ↔ text ∈ texts
  ordered : listed.Pairwise fun a b => texts.idxOf a < texts.idxOf b

theorem FirstOccurrences.nodup {texts listed : List String} (h : FirstOccurrences texts listed) :
    listed.Nodup :=
  h.ordered.imp fun {a b} (hLess : texts.idxOf a < texts.idxOf b) (hEq : a = b) =>
    Nat.lt_irrefl _ (hEq ▸ hLess)

/-- There is only one such list. -/
theorem FirstOccurrences.unique {texts listed others : List String}
    (h : FirstOccurrences texts listed) (hOthers : FirstOccurrences texts others) :
    listed = others := by
  have hPerm : listed.Perm others := (List.perm_ext_iff_of_nodup h.nodup hOthers.nodup).mpr
    fun text => (h.mem text).trans (hOthers.mem text).symm
  exact hPerm.eq_of_pairwise (fun a b _ _ hLess hMore => absurd hMore (Nat.lt_asymm hLess))
    h.ordered hOthers.ordered

theorem firstOccurrences_foldl_addOnce (texts : List String) :
    FirstOccurrences texts (texts.foldl addOnce []) := by
  induction texts using List.reverseRecOn with
  | nil => exact ⟨by simp, List.Pairwise.nil⟩
  | append_singleton texts last ih =>
      -- a text that occurs already keeps its place when one more follows
      have hPlace {text : String} (h : text ∈ texts.foldl addOnce []) :
          (texts ++ [last]).idxOf text = texts.idxOf text :=
        List.idxOf_append_of_mem ((ih.mem text).mp h)
      have hOld : (texts.foldl addOnce []).Pairwise fun a b =>
          (texts ++ [last]).idxOf a < (texts ++ [last]).idxOf b :=
        ih.ordered.imp_of_mem fun ha hb hLess => by rwa [hPlace ha, hPlace hb]
      refine ⟨fun text => by rw [mem_foldl_addOnce]; simp, ?_⟩
      rw [List.foldl_append, List.foldl_cons, List.foldl_nil]
      by_cases hMem : last ∈ texts.foldl addOnce []
      · rwa [addOnce_of_mem hMem]
      · have hNew : last ∉ texts := fun h => hMem ((ih.mem last).mpr h)
        rw [addOnce_of_notMem hMem, List.pairwise_append]
        refine ⟨hOld, List.pairwise_singleton _ _, ?_⟩
        intro a ha b hb
        obtain rfl := List.mem_singleton.mp hb
        rw [hPlace ha, List.idxOf_append_of_notMem hNew]
        exact Nat.lt_of_lt_of_le (List.idxOf_lt_length_iff.mpr ((ih.mem a).mp ha))
          (Nat.le_add_right _ _)

theorem prefix_flatMap_front (first : α) (rest : List α) :
    (give first).foldl addOnce start <+: ((first :: rest).flatMap give).foldl addOnce start := by
  rw [List.flatMap_cons, List.foldl_append]
  exact prefix_foldl_addOnce _ _

/-- What several things give begins with what each of them gives, and is what one of them gives, if of
any two of them one begins the other. -/
theorem foldl_addOnce_flatMap_greatest
    (h : ∀ x ∈ items, ∀ y ∈ items,
      OneBegins ((give x).foldl addOnce start) ((give y).foldl addOnce start)) :
    (∀ x ∈ items, (give x).foldl addOnce start <+: (items.flatMap give).foldl addOnce start) ∧
      ((items.flatMap give).foldl addOnce start = start ∨
        ∃ x ∈ items, (items.flatMap give).foldl addOnce start = (give x).foldl addOnce start) := by
  induction items using List.reverseRecOn with
  | nil => exact ⟨by simp, .inl rfl⟩
  | append_singleton items last ih =>
      obtain ⟨hAll, hOne⟩ := ih fun x hx y hy =>
        h x (List.mem_append_left _ hx) y (List.mem_append_left _ hy)
      have hLast : ((items ++ [last]).flatMap give).foldl addOnce start =
          (give last).foldl addOnce ((items.flatMap give).foldl addOnce start) := by
        rw [List.flatMap_append, List.foldl_append, List.flatMap_singleton]
      have hGrows := prefix_foldl_addOnce (give last) ((items.flatMap give).foldl addOnce start)
      have hStart := prefix_foldl_addOnce (items.flatMap give) start
      have hBegins : OneBegins ((items.flatMap give).foldl addOnce start)
          ((give last).foldl addOnce start) := by
        rcases hOne with hOne | ⟨x, hx, hOne⟩
        · rw [hOne]
          exact .inl (prefix_foldl_addOnce _ _)
        · rw [hOne]
          exact h x (List.mem_append_left _ hx) last (by simp)
      rw [hLast]
      rcases hBegins with hLess | hMore
      · have hNew := foldl_addOnce_of_prefix hStart hLess
        refine ⟨fun x hx => ?_, .inr ⟨last, by simp, hNew⟩⟩
        rcases List.mem_append.mp hx with hx | hx
        · exact (hAll x hx).trans hGrows
        · rw [List.mem_singleton.mp hx, hNew]
      · have hSame : (give last).foldl addOnce ((items.flatMap give).foldl addOnce start) =
            (items.flatMap give).foldl addOnce start := by
          refine foldl_addOnce_of_subset fun path hPath => hMore.subset ?_
          exact (mem_foldl_addOnce _ _ _).mpr (.inr hPath)
        rw [hSame]
        refine ⟨fun x hx => ?_, hOne.imp_right fun ⟨x, hx, hEq⟩ => ⟨x, List.mem_append_left _ hx, hEq⟩⟩
        rcases List.mem_append.mp hx with hx | hx
        · exact hAll x hx
        · rw [List.mem_singleton.mp hx]
          exact hMore

/-- Things of which any two give texts of which one begins the other give the same in every order. -/
theorem foldl_addOnce_flatMap_eq
    (h : ∀ x ∈ items, ∀ y ∈ items,
      OneBegins ((give x).foldl addOnce start) ((give y).foldl addOnce start))
    (hSame : ∀ x, x ∈ others ↔ x ∈ items) :
    (others.flatMap give).foldl addOnce start = (items.flatMap give).foldl addOnce start := by
  obtain ⟨hAll, hOne⟩ := foldl_addOnce_flatMap_greatest h
  have hOthers : ∀ x ∈ others, ∀ y ∈ others,
      OneBegins ((give x).foldl addOnce start) ((give y).foldl addOnce start) :=
    fun x hx y hy => h x ((hSame x).mp hx) y ((hSame y).mp hy)
  obtain ⟨hAllOther, hOneOther⟩ := foldl_addOnce_flatMap_greatest hOthers
  refine prefix_antisymm ?_ ?_
  · rcases hOneOther with hEq | ⟨x, hx, hEq⟩
    · rw [hEq]
      exact prefix_foldl_addOnce _ _
    · rw [hEq]
      exact hAll x ((hSame x).mp hx)
  · rcases hOne with hEq | ⟨x, hx, hEq⟩
    · rw [hEq]
      exact prefix_foldl_addOnce _ _
    · rw [hEq]
      exact hAllOther x ((hSame x).mpr hx)

end Met

section Sorted

theorem mem_insertText {text other : String} {texts : List String} :
    other ∈ insertText text texts ↔ other = text ∨ other ∈ texts := by
  induction texts with
  | nil => simp [insertText]
  | cons first texts ih =>
      rw [insertText]
      split
      · rename_i hSame
        subst hSame
        simp
      · split
        · simp
        · rw [List.mem_cons, ih, List.mem_cons]
          tauto

theorem pairwise_insertText {text : String} {texts : List String} (h : texts.Pairwise (· < ·)) :
    (insertText text texts).Pairwise (· < ·) := by
  induction texts with
  | nil => exact List.pairwise_singleton _ _
  | cons first texts ih =>
      obtain ⟨hFirst, hRest⟩ := List.pairwise_cons.mp h
      rw [insertText]
      split
      · exact h
      · rename_i hNe
        split
        · rename_i hLess
          refine List.pairwise_cons.mpr ⟨fun other hOther => ?_, h⟩
          rcases List.mem_cons.mp hOther with rfl | hOther
          · exact hLess
          · exact String.lt_trans hLess (hFirst other hOther)
        · rename_i hNotLess
          have hMore : first < text := by
            by_contra hNotMore
            exact hNe (String.le_antisymm (String.not_lt.mp hNotMore) (String.not_lt.mp hNotLess))
          refine List.pairwise_cons.mpr ⟨fun other hOther => ?_, ih hRest⟩
          rcases mem_insertText.mp hOther with rfl | hOther
          · exact hMore
          · exact hFirst other hOther

theorem mem_sortedSet {text : String} {texts : List String} : text ∈ sortedSet texts ↔ text ∈ texts := by
  induction texts with
  | nil => simp [sortedSet]
  | cons first texts ih =>
      rw [sortedSet, List.foldr_cons, mem_insertText, List.mem_cons, ← ih]
      rfl

theorem pairwise_sortedSet (texts : List String) : (sortedSet texts).Pairwise (· < ·) := by
  induction texts with
  | nil => exact List.Pairwise.nil
  | cons first texts ih => exact pairwise_insertText ih

/-- The set of some texts has no other order than its own. -/
theorem sortedSet_congr {texts others : List String} (h : ∀ text, text ∈ texts ↔ text ∈ others) :
    sortedSet texts = sortedSet others := by
  have hNodup (texts : List String) : (sortedSet texts).Nodup :=
    (pairwise_sortedSet texts).imp fun {text other} (hLess : text < other) (hEq : text = other) =>
      String.lt_irrefl other (hEq ▸ hLess)
  have hPerm : (sortedSet texts).Perm (sortedSet others) :=
    (List.perm_ext_iff_of_nodup (hNodup texts) (hNodup others)).mpr fun text => by
      rw [mem_sortedSet, mem_sortedSet, h]
  exact hPerm.eq_of_pairwise (fun a b _ _ hLess hMore => absurd hMore (String.lt_asymm hLess))
    (pairwise_sortedSet texts) (pairwise_sortedSet others)

end Sorted

end PolicyBundle.Build
