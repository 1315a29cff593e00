import PolicyBundle.Archive.Gzip

/-!
# Reading a stream piece by piece

A read that stays within the data succeeds. One that goes beyond meets the fault behind the data,
and where there is none it gets what is left.
-/

namespace PolicyBundle.Archive.Stream

/-- The stream behind the next `count` bytes or, where there are fewer, at its end. -/
def drop (s : Stream) (count : Nat) : Stream :=
  { s with data := s.data.drop count, position := s.position + min count s.data.length }

/-- The next `count` bytes, fewer at the end of the stream, and the stream behind them. -/
def take (s : Stream) (count : Nat) : Except Fault (Bytes × Stream) :=
  let found := s.data.take count
  match s.fault with
  | some fault => if found.length < count then .error fault else .ok (found, s.drop count)
  | none => .ok (found, s.drop count)

/-- The next `count` bytes or none at the end of the stream. -/
def block? (s : Stream) (count : Nat) : Except Fault (Option (Bytes × Stream)) := do
  let (found, after) ← s.take count
  if found.isEmpty then .ok none
  else if found.length < count then .error .partialBlock
  else .ok (some (found, after))

/-- The stream behind the next `count` bytes, all of which must be there. -/
def skip (s : Stream) (count : Nat) : Except Fault Stream :=
  if (s.data.take count).length < count then .error (s.fault.getD .skippedPastEnd)
  else .ok (s.drop count)

/-- The stream behind a block is shorter. -/
theorem block?_shorter {s after : Stream} {found : Bytes} {count : Nat}
    (h : s.block? count = .ok (some (found, after))) : after.data.length < s.data.length := by
  simp only [block?, take, bind, Except.bind] at h
  split at h
  · cases h
  · rename_i v hv
    split at h
    · cases h
    · split at h
      · cases h
      · rename_i hne _
        simp only [Except.ok.injEq, Option.some.injEq, Prod.mk.injEq] at h
        obtain ⟨rfl, rfl⟩ := h
        have key : v.1 = s.data.take count ∧ v.2.data = s.data.drop count := by
          split at hv
          · split at hv
            · cases hv
            · cases hv
              exact ⟨rfl, rfl⟩
          · cases hv
            exact ⟨rfl, rfl⟩
        obtain ⟨hf, ha⟩ := key
        rw [ha, List.length_drop]
        have hpos : 0 < (s.data.take count).length := by
          rw [← hf]
          exact List.length_pos_iff.mpr (by simpa using hne)
        rw [List.length_take] at hpos
        omega

/-- Skipping does not make a stream longer. -/
theorem skip_not_longer {s after : Stream} {count : Nat} (h : s.skip count = .ok after) :
    after.data.length ≤ s.data.length := by
  simp only [skip] at h
  split at h
  · cases h
  · cases h
    simp [drop]

end PolicyBundle.Archive.Stream
