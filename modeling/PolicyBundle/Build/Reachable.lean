import PolicyBundle.Build.Entrypoint

/-!
# Reachable modules

The modules that entrypoints need: those whose package is related to one of them, and those whose
package is related to a document that a needed module refers to or imports. Modules of one package
are needed together. The packages are found by a search that keeps a queue: a package is marked when
it leaves the queue, and then the packages that its modules lead to join the queue.
-/

namespace PolicyBundle

/-- The documents that a module refers to or imports. -/
def Policy.Module.references (m : Policy.Module) : List String :=
  m.dataRefs ++ m.imports.filterMap fun i => Text.after? "data." i.path

namespace Build

open Policy

/-- The documents that the modules of a package refer to or import. -/
def referencesOf (modules : List Module) (package : String) : List String :=
  (modules.filter (·.package = package)).flatMap (·.references)

/-- A search for the packages that are needed. -/
structure Search where
  /-- The packages that are marked as reached. -/
  reached : List String
  /-- The packages that are to be looked at. A package may wait more than once, and may have been
  reached since it joined. -/
  queue : List String
  deriving DecidableEq, Repr

namespace Search

/-- The packages that a reference leads to, apart from those that are reached. -/
def leadsTo (modules : List Module) (reached : List String) (reference : String) : List String :=
  (modules.filter fun m => !reached.contains m.package && related m.package reference).map
    (·.package)

/-- The search after a look at a package that has left the queue. -/
def visit (modules : List Module) (reached : List String) (package : String)
    (rest : List String) : Search :=
  if reached.contains package then ⟨reached, rest⟩
  else
    let reached := package :: reached
    ⟨reached, rest ++ (referencesOf modules package).flatMap (leadsTo modules reached)⟩

/-- The search after one more package has left the queue; none when the queue is empty. -/
def step? (modules : List Module) (s : Search) : Option Search :=
  match s.queue with
  | [] => none
  | package :: rest => some (visit modules s.reached package rest)

/-- How many modules have a package that is not reached. -/
def unreached (modules : List Module) (s : Search) : Nat :=
  (modules.filter fun m => !s.reached.contains m.package).length

/-- What a package leads to, where no module has it. -/
theorem referencesOf_eq_nil {modules : List Module} {package : String}
    (h : ∀ m ∈ modules, m.package ≠ package) : referencesOf modules package = [] := by
  have hNone : modules.filter (·.package = package) = [] := by
    rw [List.filter_eq_nil_iff]
    intro m hm
    simpa using h m hm
  rw [referencesOf, hNone, List.flatMap_nil]

/-- A step marks the package of a module, or it marks none and the queue becomes shorter. -/
theorem step?_lt {modules : List Module} {s t : Search} (h : step? modules s = some t) :
    t.unreached modules < s.unreached modules ∨
      t.unreached modules = s.unreached modules ∧ t.queue.length < s.queue.length := by
  obtain ⟨reached, queue⟩ := s
  cases queue with
  | nil => cases h
  | cons package rest =>
      simp only [step?, visit, Option.some.injEq] at h
      split at h
      · subst h
        exact Or.inr ⟨rfl, Nat.lt_succ_self _⟩
      · rename_i hNew
        subst h
        by_cases hSome : ∃ m ∈ modules, m.package = package
        · obtain ⟨m, hm, rfl⟩ := hSome
          left
          have hFilter : (modules.filter fun n => !(m.package :: reached).contains n.package) =
              (modules.filter fun n => !reached.contains n.package).filter
                (fun n => n.package ≠ m.package) := by
            rw [List.filter_filter]
            apply List.filter_congr
            intro n _
            simp [Bool.not_or]
          rw [unreached, unreached, hFilter]
          apply List.length_filter_lt_length_iff_exists.mpr
          exact ⟨m, List.mem_filter.mpr ⟨hm, by simpa using hNew⟩, by simp⟩
        · right
          have hNone : ∀ m ∈ modules, m.package ≠ package := fun m hm he => hSome ⟨m, hm, he⟩
          constructor
          · simp only [unreached]
            congr 1
            apply List.filter_congr
            intro n hn
            simp [hNone n hn]
          · simp [referencesOf_eq_nil hNone]

/-- The search at its end, when the queue is empty. -/
def run (modules : List Module) (s : Search) : Search :=
  match _step : step? modules s with
  | none => s
  | some t => run modules t
termination_by (s.unreached modules, s.queue.length)
decreasing_by
  rcases step?_lt _step with hLess | ⟨hSame, hLess⟩
  · exact Prod.Lex.left _ _ hLess
  · rw [hSame]
    exact Prod.Lex.right _ hLess

/-- The search before its first step: the packages related to an entrypoint wait. -/
def start (modules : List Module) (entrypoints : List String) : Search :=
  ⟨[], (modules.filter fun m => entrypoints.any (related m.package)).map (·.package)⟩

end Search

/-- The packages that some entrypoints need. -/
def reachable (modules : List Module) (entrypoints : List String) : List String :=
  ((Search.start modules entrypoints).run modules).reached

/-- The modules that some entrypoints need. -/
def prune (modules : List Module) (entrypoints : List String) : List Module :=
  let packages := reachable modules entrypoints
  modules.filter fun m => packages.contains m.package

end Build

end PolicyBundle
