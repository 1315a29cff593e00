import PolicyBundle.Proofs.Archive.Unpacking
import PolicyBundle.Proofs.Log.Attempts
import Mathlib.Algebra.Ring.Nat

/-! The members of a listing that reaches the end of its archive. Their contents stand one behind the
other in the stream, so together they are no longer than a position can be. -/

namespace PolicyBundle.Archive

open Log

namespace Stream

variable {s after : Stream} {found : Bytes} {count : Nat}

theorem take_eq_ok (h : s.take count = .ok (found, after)) :
    found = s.data.take count ∧ after = s.drop count := by
  simp only [take] at h
  split at h
  · split at h
    · cases h
    · cases h
      exact ⟨rfl, rfl⟩
  · cases h
    exact ⟨rfl, rfl⟩

theorem position_le_of_block? (h : s.block? count = .ok (some (found, after))) :
    s.position ≤ after.position := by
  obtain ⟨⟨bytes, behind⟩, hTake, h⟩ := bind_eq_ok h
  obtain ⟨rfl, rfl⟩ := take_eq_ok hTake
  simp only at h
  split at h
  · cases h
  · split at h
    · cases h
    · cases h
      exact Nat.le_add_right _ _

/-- Skipping goes forward by as much as is skipped. -/
theorem position_of_skip (h : s.skip count = .ok after) :
    after.position = s.position + count := by
  simp only [skip, List.length_take] at h
  split at h
  · cases h
  · rename_i hLong
    cases h
    simp only [drop]
    omega

end Stream

namespace Member

/-- The length of what is read of a member. -/
def length (m : Member) : Nat :=
  match m.contents with
  | .ok contents => contents.length
  | .error _ => 0

end Member

namespace Listing

/-- The members of a listing. -/
def members : Listing → List Member
  | .done => []
  | .broken _ => []
  | .member m rest => m :: rest.members

@[simp] theorem members_foldr (members : List Member) :
    (members.foldr Listing.member .done).members = members := by
  induction members with
  | nil => rfl
  | cons m members ih => rw [List.foldr_cons, Listing.members, ih]

/-- Whether a listing reaches the end of the archive. -/
def isWhole : Listing → Bool
  | .done => true
  | .broken _ => false
  | .member _ rest => rest.isWhole

theorem header?_eq_ok {e : Extensions} {s after : Stream} {h : Header} {size : Nat}
    (eq : header? e s = .ok (some (h, size, after))) :
    e.size h = .ok size ∧ s.position ≤ after.position ∧
      after.position + wholeBlocks size < Nat.pow 2 64 := by
  simp only [header?] at eq
  split at eq
  · cases eq
  · cases eq
  · rename_i block behind hBlock
    split at eq
    · cases eq
    · obtain ⟨found, -, eq⟩ := bind_eq_ok eq
      obtain ⟨given, hSize, eq⟩ := bind_eq_ok eq
      split at eq
      · cases eq
      · rename_i hFits
        cases eq
        exact ⟨hSize, Stream.position_le_of_block? hBlock, Nat.not_le.mp hFits⟩

theorem length_memberOf_le (e : Extensions) (h : Header) (size : Nat) (s : Stream) :
    (memberOf e h size s).length ≤ size := by
  simp only [memberOf, Member.length]
  split
  · rename_i contents hContents
    cases hTake : s.take size with
    | error fault =>
        rw [hTake] at hContents
        cases hContents
    | ok found =>
        rw [hTake] at hContents
        cases hContents
        have hFound := (Stream.take_eq_ok hTake).1
        simp only [hFound]
        exact List.length_take_le _ _
  · exact Nat.zero_le _

/-- What a stream begins with: the end of the archive, or a header, which is that of a record or of a
member. -/
theorem front_eq_ok {e : Extensions} {s : Stream} {f : Front} (hFront : front e s = .ok f) :
    f = .ending ∨ ∃ h size after, header? e s = .ok (some (h, size, after)) ∧
      ((∃ next, f = .extended next (after.skip (wholeBlocks size))) ∨
        f = .member (memberOf e h size after) (after.skip (wholeBlocks size))) := by
  obtain ⟨found, hFound, hFront⟩ := bind_eq_ok hFront
  split at hFront
  · split at hFront
    · exact .inl (Except.ok.inj hFront).symm
    · cases hFront
  · rename_i h size after
    refine .inr ⟨h, size, after, hFound, ?_⟩
    split at hFront
    · obtain ⟨next, -, hNext⟩ := bind_eq_ok hFront
      exact .inl ⟨next, (Except.ok.inj hNext).symm⟩
    · simp only at hFront
      split at hFront
      · obtain ⟨-, -, hMember⟩ := bind_eq_ok hFront
        exact .inr (Except.ok.inj hMember).symm
      · exact .inr (Except.ok.inj hFront).symm

/-- Behind a header and what belongs to it, the position has grown by that at least. -/
theorem position_of_header {e : Extensions} {s after behind : Stream} {h : Header} {size : Nat}
    (hHeader : header? e s = .ok (some (h, size, after)))
    (hSkip : after.skip (wholeBlocks size) = .ok behind) :
    s.position + size ≤ behind.position ∧ behind.position < Nat.pow 2 64 := by
  have hBehind := Stream.position_of_skip hSkip
  obtain ⟨-, hAfter, hFits⟩ := header?_eq_ok hHeader
  have hLe := le_wholeBlocks size
  omega

theorem position_of_extended {e next : Extensions} {s behind : Stream}
    (hFront : front e s = .ok (.extended next (.ok behind))) :
    s.position ≤ behind.position ∧ behind.position < Nat.pow 2 64 := by
  rcases front_eq_ok hFront with hEnd | ⟨h, size, after, hHeader, ⟨_, hNext⟩ | hMember⟩
  · cases hEnd
  · have hReached := position_of_header hHeader (Front.extended.inj hNext).2.symm
    omega
  · cases hMember

theorem position_of_member {e : Extensions} {s behind : Stream} {m : Member}
    (hFront : front e s = .ok (.member m (.ok behind))) :
    s.position + m.length ≤ behind.position ∧ behind.position < Nat.pow 2 64 := by
  rcases front_eq_ok hFront with hEnd | ⟨h, size, after, hHeader, ⟨_, hNext⟩ | hMember⟩
  · cases hEnd
  · cases hNext
  · obtain ⟨rfl, hSkip⟩ := Front.member.inj hMember
    have hReached := position_of_header hHeader hSkip.symm
    have hLength := length_memberOf_le e h size after
    omega

/-- The contents of an archive that can be read to its end, all in all. -/
theorem sum_length_lt (e : Extensions) (s : Stream) (hStart : s.position < Nat.pow 2 64)
    (hWhole : (listFrom e s).isWhole = true) :
    s.position + ((listFrom e s).members.map Member.length).sum < Nat.pow 2 64 := by
  fun_induction listFrom e s with
  | case1 e s fault found => cases hWhole
  | case2 e s found => exact hStart
  | case3 e s next fault found => cases hWhole
  | case4 e s next behind found ih =>
      obtain ⟨hReached, hFits⟩ := position_of_extended found
      have hRest := ih hFits hWhole
      omega
  | case5 e s m fault found => cases hWhole
  | case6 e s m behind found ih =>
      obtain ⟨hReached, hFits⟩ := position_of_member found
      have hRest := ih hFits hWhole
      rw [members, List.map_cons, List.sum_cons]
      omega

end Listing

theorem Gzip.position_decode (bytes : Bytes) : (Gzip.decode bytes).position = 0 := by
  simp only [decode]
  split
  · rfl
  · split <;> rfl

end PolicyBundle.Archive
