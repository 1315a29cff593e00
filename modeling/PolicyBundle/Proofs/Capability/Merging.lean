import Mathlib.Data.Fintype.EquivFin
import PolicyBundle.Capability.Basic

/-! What merged capabilities permit. Merging writes lists one behind the other, so it is associative
and the empty set is its unit. Builtins, features, keywords and versions add up. Hosts add up only
as far as they are listed: a set that leaves them unset permits every host, and merged with a set
that lists some it permits those alone. -/

namespace PolicyBundle.Capabilities

/-- What a policy may be permitted. -/
inductive Ability where
  | builtin (name : String)
  | feature (name : String)
  | futureKeyword (keyword : String)
  | abiVersion (version : AbiVersion)
  | host (name : String)
  deriving DecidableEq, Repr

/-- Whether a set permits something. Every host is permitted where the hosts are unset. -/
def permits (c : Capabilities) : Ability → Bool
  | .builtin name => c.hasBuiltin name
  | .feature name => c.hasFeature name
  | .futureKeyword keyword => c.hasFutureKeyword keyword
  | .abiVersion version => c.abiVersions.contains version
  | .host name => c.allowNet.all (·.contains name)

/-- A set with the lists of one set, each followed by that of another, whose hosts are unset only if
they are unset in both. -/
structure Appended (a b merged : Capabilities) : Prop where
  builtins : merged.builtins = a.builtins ++ b.builtins
  futureKeywords : merged.futureKeywords = a.futureKeywords ++ b.futureKeywords
  abiVersions : merged.abiVersions = a.abiVersions ++ b.abiVersions
  features : merged.features = a.features ++ b.features
  hosts : merged.allowNet.getD [] = a.allowNet.getD [] ++ b.allowNet.getD []
  unset : merged.allowNet = none ↔ a.allowNet = none ∧ b.allowNet = none

/-- What two sets lose when they are merged: a host that one of them permits only because it leaves
the hosts unset. -/
def Withdraws (a b : Capabilities) : Ability → Prop
  | .host name =>
    (a.allowNet = none ∧ b.permits (.host name) = false) ∨
      (b.allowNet = none ∧ a.permits (.host name) = false)
  | _ => False

/-- Whether two sets lose nothing when they are merged. -/
def KeepsAbilities (a b : Capabilities) : Prop :=
  ∀ ability, a.permits ability = true ∨ b.permits ability = true →
    (a.merge b).permits ability = true

section Hosts

theorem mergeHosts_eq_none_iff {a b : Option (List String)} :
    mergeHosts a b = none ↔ a = none ∧ b = none := by
  cases a <;> cases b <;> simp [mergeHosts]

theorem getD_mergeHosts (a b : Option (List String)) :
    (mergeHosts a b).getD [] = a.getD [] ++ b.getD [] := by
  cases a <;> cases b <;> simp [mergeHosts]

/-- Hosts are known from their list and from whether they are unset. -/
theorem hosts_ext {a b : Option (List String)} (hList : a.getD [] = b.getD [])
    (hUnset : a = none ↔ b = none) : a = b := by
  cases a <;> cases b <;> simp_all

/-- There is always one more host. -/
theorem exists_otherHost (hosts : List String) : ∃ name, name ∉ hosts := by
  obtain ⟨name, hName⟩ := Infinite.exists_notMem_finset hosts.toFinset
  exact ⟨name, fun h => hName (List.mem_toFinset.mpr h)⟩

end Hosts

variable {a b : Capabilities}

theorem appended_merge (a b : Capabilities) : Appended a b (a.merge b) :=
  ⟨rfl, rfl, rfl, rfl, getD_mergeHosts a.allowNet b.allowNet, mergeHosts_eq_none_iff⟩

/-- The lists and what is unset determine the merged set. -/
theorem eq_merge_iff {merged : Capabilities} : merged = a.merge b ↔ Appended a b merged := by
  constructor
  · rintro rfl
    exact appended_merge a b
  · intro h
    have hMerge := appended_merge a b
    have hHosts : merged.allowNet = (a.merge b).allowNet :=
      hosts_ext (h.hosts.trans hMerge.hosts.symm) (h.unset.trans hMerge.unset.symm)
    cases merged
    rw [merge, mk.injEq]
    exact ⟨h.builtins, h.futureKeywords, h.abiVersions, h.features, hHosts⟩

theorem merge_assoc (a b c : Capabilities) : (a.merge b).merge c = a.merge (b.merge c) := by
  rw [eq_merge_iff]
  have hLeft := appended_merge (a.merge b) c
  have hInner := appended_merge a b
  have hRight := appended_merge b c
  constructor
  · rw [hLeft.builtins, hInner.builtins, hRight.builtins, List.append_assoc]
  · rw [hLeft.futureKeywords, hInner.futureKeywords, hRight.futureKeywords, List.append_assoc]
  · rw [hLeft.abiVersions, hInner.abiVersions, hRight.abiVersions, List.append_assoc]
  · rw [hLeft.features, hInner.features, hRight.features, List.append_assoc]
  · rw [hLeft.hosts, hInner.hosts, hRight.hosts, List.append_assoc]
  · rw [hLeft.unset, hInner.unset, hRight.unset, and_assoc]

theorem empty_merge (a : Capabilities) : empty.merge a = a := by
  symm
  rw [eq_merge_iff]
  exact ⟨rfl, rfl, rfl, rfl, rfl, (and_iff_right rfl).symm⟩

theorem merge_empty (a : Capabilities) : a.merge empty = a := by
  symm
  rw [eq_merge_iff]
  refine ⟨?_, ?_, ?_, ?_, ?_, (and_iff_left rfl).symm⟩ <;> exact (List.append_nil _).symm

/-- The hosts of two sets add up, less those that they withdraw. -/
theorem permits_host_merge (a b : Capabilities) (name : String) :
    (a.merge b).permits (.host name) = true ↔
      (a.permits (.host name) = true ∨ b.permits (.host name) = true) ∧
        ¬Withdraws a b (.host name) := by
  cases hA : a.allowNet <;> cases hB : b.allowNet <;>
    simp [permits, Withdraws, merge, mergeHosts, hA, hB]

/-- Merged sets permit what one of them permits, less what they withdraw. -/
theorem permits_merge_iff (a b : Capabilities) (ability : Ability) :
    (a.merge b).permits ability = true ↔
      (a.permits ability = true ∨ b.permits ability = true) ∧ ¬Withdraws a b ability := by
  cases ability with
  | builtin name => simp [permits, Withdraws]
  | feature name => simp [permits, Withdraws]
  | futureKeyword keyword => simp [permits, Withdraws]
  | abiVersion version => simp [permits, Withdraws, (appended_merge a b).abiVersions]
  | host name => exact permits_host_merge a b name

/-- A set with unset hosts loses some of them to a set that lists hosts. -/
theorem exists_withdraws (hA : a.allowNet = none) (hB : b.allowNet ≠ none) :
    ∃ ability, a.permits ability = true ∧ Withdraws a b ability := by
  obtain ⟨hosts, hHosts⟩ := Option.ne_none_iff_exists'.mp hB
  obtain ⟨name, hName⟩ := exists_otherHost hosts
  refine ⟨.host name, by simp [permits, hA], Or.inl ⟨hA, ?_⟩⟩
  simpa [permits, hHosts] using hName

theorem withdraws_comm (a b : Capabilities) (ability : Ability) :
    Withdraws a b ability ↔ Withdraws b a ability := by
  cases ability with
  | host name => exact or_comm
  | _ => exact Iff.rfl

theorem KeepsAbilities.not_withdraws (h : KeepsAbilities a b) {ability : Ability}
    (hPermits : a.permits ability = true ∨ b.permits ability = true) : ¬Withdraws a b ability :=
  ((permits_merge_iff a b ability).mp (h ability hPermits)).2

/-- Nothing is lost exactly if the hosts are unset in both sets or in neither. -/
theorem keepsAbilities_iff : KeepsAbilities a b ↔ (a.allowNet = none ↔ b.allowNet = none) := by
  constructor
  · intro hKeeps
    constructor
    · intro hA
      by_contra hB
      obtain ⟨ability, hPermits, hLost⟩ := exists_withdraws hA hB
      exact hKeeps.not_withdraws (.inl hPermits) hLost
    · intro hB
      by_contra hA
      obtain ⟨ability, hPermits, hLost⟩ := exists_withdraws hB hA
      exact hKeeps.not_withdraws (.inr hPermits) ((withdraws_comm b a ability).mp hLost)
  · intro hSame ability hPermits
    refine (permits_merge_iff a b ability).mpr ⟨hPermits, ?_⟩
    cases ability with
    | host name =>
        -- Where the hosts of one set are unset those of the other are, and then it permits all.
        rintro (⟨hA, hOther⟩ | ⟨hB, hOther⟩)
        · simp [permits, hSame.mp hA] at hOther
        · simp [permits, hSame.mpr hB] at hOther
    | _ => exact not_false

/-- Merging is associative, with the empty set as its unit on both sides, and is known from its
lists: each is that of the first set and then that of the second. The merged set permits what either
permits, but for the hosts that one permits only by leaving them unset. So nothing is lost exactly if
the hosts are unset in both sets or in neither. -/
theorem merge_laws (a b c : Capabilities) :
    (a.merge b).merge c = a.merge (b.merge c) ∧ empty.merge a = a ∧ a.merge empty = a ∧
      (∀ merged, merged = a.merge b ↔ Appended a b merged) ∧
      (∀ ability, (a.merge b).permits ability = true ↔
        (a.permits ability = true ∨ b.permits ability = true) ∧ ¬Withdraws a b ability) ∧
      (KeepsAbilities a b ↔ (a.allowNet = none ↔ b.allowNet = none)) :=
  ⟨merge_assoc a b c, empty_merge a, merge_empty a, fun _ => eq_merge_iff, permits_merge_iff a b,
    keepsAbilities_iff⟩

/-- A set that lists one host. -/
def exampleHost : Capabilities := { empty with allowNet := some ["a.example.com"] }

/-- The empty set permits every host. Merged with a set of one host it permits that one alone. -/
theorem not_keepsAbilities_exampleHost : ¬KeepsAbilities empty exampleHost := by
  intro hKeeps
  have hOther : empty.permits (.host "b.example.com") = true := by decide
  exact absurd (hKeeps (.host "b.example.com") (Or.inl hOther)) (by decide)

end PolicyBundle.Capabilities
