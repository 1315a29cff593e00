import PolicyBundle.Build.Reachable
import PolicyBundle.Proofs.Text.Pieces
import Mathlib.Order.Bounds.Basic
import Mathlib.Data.Set.Basic
import Mathlib.Logic.Relation

/-! Pruning keeps the modules of the least set of packages that holds those of the entrypoints and
follows references. The search for that set stops after finitely many steps from any state. -/

namespace PolicyBundle.Build

open Policy

/-- One dotted path is the other, or begins it segment by segment, in either order. -/
def SegmentRelated (a b : String) : Prop :=
  Text.split '.' a <+: Text.split '.' b ∨ Text.split '.' b <+: Text.split '.' a

theorem isWithin_iff (path outer : String) :
    isWithin path outer = true ↔ Text.split '.' outer <+: Text.split '.' path := by
  have hDot : (outer ++ ".").toList = outer.toList ++ ['.'] := String.toList_append
  rw [isWithin, Bool.or_eq_true, decide_eq_true_eq, Text.startsWith_iff, hDot,
    Text.split_prefix_iff]

theorem related_iff (a b : String) : related a b = true ↔ SegmentRelated a b := by
  rw [related, Bool.or_eq_true, isWithin_iff, isWithin_iff, SegmentRelated, or_comm]

instance (a b : String) : Decidable (SegmentRelated a b) :=
  decidable_of_iff _ (related_iff a b)

/-- What a module refers to: a document that its source names, or an import below `data`. -/
def RefersTo (m : Module) (reference : String) : Prop :=
  reference ∈ m.dataRefs ∨ ∃ i ∈ m.imports, i.path = "data." ++ reference

theorem mem_references_iff (m : Module) (reference : String) :
    reference ∈ m.references ↔ RefersTo m reference := by
  rw [Module.references, List.mem_append, List.mem_filterMap, RefersTo]
  simp only [Text.after?_eq_some_iff]

/-- A set of packages that has those of the entrypoints and, with a package, all packages that its
modules refer to. -/
structure IsClosed (modules : List Module) (entrypoints : List String) (packages : Set String) :
    Prop where
  start : ∀ m ∈ modules, ∀ e ∈ entrypoints, SegmentRelated m.package e → m.package ∈ packages
  follow : ∀ m ∈ modules, m.package ∈ packages → ∀ reference, RefersTo m reference →
    ∀ n ∈ modules, SegmentRelated n.package reference → n.package ∈ packages

theorem isClosed_iff {modules : List Module} {entrypoints : List String} {packages : Set String} :
    IsClosed modules entrypoints packages ↔
      (∀ m ∈ modules, ∀ e ∈ entrypoints, SegmentRelated m.package e → m.package ∈ packages) ∧
        ∀ m ∈ modules, m.package ∈ packages → ∀ reference ∈ m.references,
          ∀ n ∈ modules, SegmentRelated n.package reference → n.package ∈ packages := by
  simp only [mem_references_iff]
  exact ⟨fun h => ⟨h.start, h.follow⟩, fun h => ⟨h.1, h.2⟩⟩

instance {modules : List Module} {entrypoints : List String} {packages : Set String}
    [DecidablePred (· ∈ packages)] : Decidable (IsClosed modules entrypoints packages) :=
  decidable_of_iff _ isClosed_iff.symm

/-- What is closed is closed among fewer modules as well, and among modules that refer to less. -/
theorem IsClosed.anti {modules others : List Module} {entrypoints more : List String}
    {packages : Set String} (hClosed : IsClosed others more packages) (hMore : entrypoints ⊆ more)
    (hModules : ∀ m ∈ modules, ∃ n ∈ others, n.package = m.package ∧
      ∀ reference, RefersTo m reference → RefersTo n reference) :
    IsClosed modules entrypoints packages := by
  constructor
  · intro m hm e he hRelated
    obtain ⟨n, hn, hPackage, -⟩ := hModules m hm
    rw [← hPackage] at hRelated ⊢
    exact hClosed.start n hn e (hMore he) hRelated
  · intro m hm hReached reference hRefers target hTarget hRelated
    obtain ⟨n, hn, hPackage, hReferences⟩ := hModules m hm
    obtain ⟨other, hOther, hSame, -⟩ := hModules target hTarget
    rw [← hPackage] at hReached
    rw [← hSame] at hRelated ⊢
    exact hClosed.follow n hn hReached reference (hReferences reference hRefers) other hOther hRelated

namespace Search

variable {modules : List Module} {entrypoints : List String}

theorem mem_leadsTo_iff {reached : List String} {reference package : String} :
    package ∈ leadsTo modules reached reference ↔
      package ∉ reached ∧ ∃ n ∈ modules, n.package = package ∧ SegmentRelated package reference := by
  simp only [leadsTo, List.mem_map, List.mem_filter, Bool.and_eq_true, Bool.not_eq_true',
    List.contains_eq_mem, decide_eq_false_iff_not, related_iff]
  constructor
  · rintro ⟨n, ⟨hn, hNew, hRelated⟩, rfl⟩
    exact ⟨hNew, n, hn, rfl, hRelated⟩
  · rintro ⟨hNew, n, hn, rfl, hRelated⟩
    exact ⟨n, ⟨hn, hNew, hRelated⟩, rfl⟩

theorem mem_referencesOf_iff {package reference : String} :
    reference ∈ referencesOf modules package ↔
      ∃ m ∈ modules, m.package = package ∧ RefersTo m reference := by
  simp only [referencesOf, List.mem_flatMap, List.mem_filter, decide_eq_true_eq,
    mem_references_iff, and_assoc]

/-- What the search keeps true. Nothing is found that a closed set does not have; the packages of
the entrypoints are found; and what a marked package leads to is found. -/
structure Inv (modules : List Module) (entrypoints : List String) (s : Search) : Prop where
  sound : ∀ packages, IsClosed modules entrypoints packages →
    ∀ p, p ∈ s.reached ∨ p ∈ s.queue → p ∈ packages
  start : ∀ m ∈ modules, ∀ e ∈ entrypoints, SegmentRelated m.package e →
    m.package ∈ s.reached ∨ m.package ∈ s.queue
  follow : ∀ m ∈ modules, m.package ∈ s.reached → ∀ reference, RefersTo m reference →
    ∀ n ∈ modules, SegmentRelated n.package reference →
      n.package ∈ s.reached ∨ n.package ∈ s.queue

theorem inv_start (modules : List Module) (entrypoints : List String) :
    Inv modules entrypoints (start modules entrypoints) := by
  have hQueue (p : String) : p ∈ (start modules entrypoints).queue ↔
      ∃ m ∈ modules, (∃ e ∈ entrypoints, SegmentRelated m.package e) ∧ m.package = p := by
    simp only [start, List.mem_map, List.mem_filter, List.any_eq_true, related_iff, and_assoc]
  constructor
  · rintro packages hClosed p (hReached | hWaits)
    · cases hReached
    · obtain ⟨m, hm, ⟨e, he, hRelated⟩, rfl⟩ := (hQueue p).mp hWaits
      exact hClosed.start m hm e he hRelated
  · intro m hm e he hRelated
    exact Or.inr ((hQueue m.package).mpr ⟨m, hm, ⟨e, he, hRelated⟩, rfl⟩)
  · intro m _ hReached
    cases hReached

/-- A package leads to another one if a module of the one refers to the other. -/
def LeadsTo (modules : List Module) (package p : String) : Prop :=
  ∃ m ∈ modules, m.package = package ∧ ∃ reference, RefersTo m reference ∧
    ∃ n ∈ modules, n.package = p ∧ SegmentRelated p reference

theorem mem_reached_visit_iff {reached rest : List String} {package p : String} :
    p ∈ (visit modules reached package rest).reached ↔
      p ∈ reached ∨ package ∉ reached ∧ p = package := by
  by_cases hOld : package ∈ reached
  · rw [visit, if_pos (by simpa using hOld)]
    simp [hOld]
  · rw [visit, if_neg (by simpa using hOld)]
    simp [hOld, or_comm]

/-- What is found after the look at a package: what was found before, and what the package leads to
if it was not marked yet. -/
theorem found_visit_iff {reached rest : List String} {package p : String} :
    p ∈ (visit modules reached package rest).reached ∨
        p ∈ (visit modules reached package rest).queue ↔
      (p ∈ reached ∨ p ∈ package :: rest) ∨ package ∉ reached ∧ LeadsTo modules package p := by
  by_cases hOld : package ∈ reached
  · rw [visit, if_pos (by simpa using hOld), List.mem_cons]
    constructor
    · rintro (hReached | hWaits)
      · exact Or.inl (Or.inl hReached)
      · exact Or.inl (Or.inr (Or.inr hWaits))
    · rintro ((hReached | rfl | hWaits) | ⟨hNew, -⟩)
      · exact Or.inl hReached
      · exact Or.inl hOld
      · exact Or.inr hWaits
      · exact absurd hOld hNew
  · have hJoins : p ∈ (referencesOf modules package).flatMap (leadsTo modules (package :: reached)) ↔
        p ∉ package :: reached ∧ LeadsTo modules package p := by
      simp only [List.mem_flatMap, mem_referencesOf_iff, mem_leadsTo_iff, LeadsTo]
      constructor
      · rintro ⟨reference, ⟨m, hm, hPackage, hRefers⟩, hNew, hTarget⟩
        exact ⟨hNew, m, hm, hPackage, reference, hRefers, hTarget⟩
      · rintro ⟨hNew, m, hm, hPackage, reference, hRefers, hTarget⟩
        exact ⟨reference, ⟨m, hm, hPackage, hRefers⟩, hNew, hTarget⟩
    rw [visit, if_neg (by simpa using hOld), List.mem_append, hJoins, List.mem_cons, List.mem_cons]
    tauto

/-- The look at a package keeps the invariant. A package that is marked already only leaves the
queue; a new one brings along all that it leads to. -/
theorem inv_step {s t : Search} (hInv : Inv modules entrypoints s)
    (hStep : step? modules s = some t) : Inv modules entrypoints t := by
  obtain ⟨reached, queue⟩ := s
  cases queue with
  | nil => cases hStep
  | cons package rest =>
      obtain rfl : visit modules reached package rest = t := Option.some.inj hStep
      constructor
      · intro packages hClosed p hFound
        rcases found_visit_iff.mp hFound with
          hFound | ⟨-, m, hm, hPackage, reference, hRefers, n, hn, rfl, hRelated⟩
        · exact hInv.sound packages hClosed p hFound
        · have hReached : m.package ∈ packages := by
            rw [hPackage]
            exact hInv.sound packages hClosed package (Or.inr List.mem_cons_self)
          exact hClosed.follow m hm hReached reference hRefers n hn hRelated
      · intro m hm e he hRelated
        exact found_visit_iff.mpr (Or.inl (hInv.start m hm e he hRelated))
      · intro m hm hMarked reference hRefers n hn hRelated
        rw [found_visit_iff]
        rcases mem_reached_visit_iff.mp hMarked with hReached | ⟨hNew, hPackage⟩
        · exact Or.inl (hInv.follow m hm hReached reference hRefers n hn hRelated)
        · exact Or.inr ⟨hNew, m, hm, hPackage, reference, hRefers, n, hn, rfl, hRelated⟩

/-- One step of the search leads from a state to the next one. -/
def Step (modules : List Module) (s t : Search) : Prop :=
  step? modules s = some t

/-- No search goes on for ever, from whatever state it begins. -/
theorem step_wellFounded (modules : List Module) :
    WellFounded fun t s : Search => Step modules s t := by
  apply Subrelation.wf (r := InvImage (Prod.Lex (· < ·) (· < ·))
    fun s : Search => (s.unreached modules, s.queue.length))
  · intro t s hStep
    rcases step?_lt hStep with hLess | ⟨hSame, hLess⟩
    · exact Prod.Lex.left _ _ hLess
    · show Prod.Lex _ _ (t.unreached modules, _) (s.unreached modules, _)
      rw [hSame]
      exact Prod.Lex.right _ hLess
  · exact InvImage.wf _ (WellFounded.prod_lex Nat.lt_wfRel.wf Nat.lt_wfRel.wf)

/-- The search runs step by step until the queue is empty. -/
theorem steps_run (modules : List Module) (s : Search) :
    Relation.ReflTransGen (Step modules) s (run modules s) ∧ (run modules s).queue = [] := by
  fun_induction run modules s with
  | case1 s hEnd =>
      refine ⟨Relation.ReflTransGen.refl, ?_⟩
      obtain ⟨reached, queue⟩ := s
      cases queue with
      | nil => rfl
      | cons package rest => cases hEnd
  | case2 s t hStep ih =>
      exact ⟨Relation.ReflTransGen.head hStep ih.1, ih.2⟩

theorem inv_steps {s t : Search} (hInv : Inv modules entrypoints s)
    (hSteps : Relation.ReflTransGen (Step modules) s t) : Inv modules entrypoints t := by
  induction hSteps with
  | refl => exact hInv
  | tail _ hStep ih => exact inv_step ih hStep

/-- Where nothing waits any more, what is marked is the least closed set. -/
theorem Inv.isLeast {s : Search} (hInv : Inv modules entrypoints s) (hEnd : s.queue = []) :
    IsLeast {packages | IsClosed modules entrypoints packages} {p | p ∈ s.reached} := by
  have hFound (p : String) : p ∈ s.reached ∨ p ∈ s.queue → p ∈ s.reached := by
    rw [hEnd]
    rintro (hReached | hWaits)
    · exact hReached
    · cases hWaits
  constructor
  · constructor
    · intro m hm e he hRelated
      exact hFound _ (hInv.start m hm e he hRelated)
    · intro m hm hReached reference hRefers n hn hRelated
      exact hFound _ (hInv.follow m hm hReached reference hRefers n hn hRelated)
  · intro packages hClosed p hReached
    exact hInv.sound packages hClosed p (Or.inl hReached)

end Search

open scoped Classical in
/-- Pruning keeps, in their order, exactly the modules whose package is in the least closed set. The
queue is empty after finitely many steps, and no state begins an endless search. -/
theorem prune_eq_filter_least (modules : List Module) (entrypoints : List String) :
    (∃ packages : Set String,
      IsLeast {packages | IsClosed modules entrypoints packages} packages ∧
        prune modules entrypoints = modules.filter fun m => m.package ∈ packages) ∧
      (∃ last : Search, Relation.ReflTransGen (Search.Step modules)
          (Search.start modules entrypoints) last ∧ last.queue = [] ∧
        prune modules entrypoints = modules.filter fun m => last.reached.contains m.package) ∧
      WellFounded fun t s : Search => Search.Step modules s t := by
  obtain ⟨hSteps, hEnd⟩ := Search.steps_run modules (Search.start modules entrypoints)
  have hInv := Search.inv_steps (Search.inv_start modules entrypoints) hSteps
  refine ⟨⟨_, hInv.isLeast hEnd, ?_⟩, ⟨_, hSteps, hEnd, rfl⟩, Search.step_wellFounded modules⟩
  rw [prune]
  apply List.filter_congr
  intro m _
  rw [reachable, List.contains_eq_mem]
  exact decide_eq_decide.mpr Iff.rfl

end PolicyBundle.Build
