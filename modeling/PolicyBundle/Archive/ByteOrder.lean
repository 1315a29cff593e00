import PolicyBundle.Text.Utf8

/-!
# Numbers in bytes

A number in so many bytes, with the lowest byte first or with the highest. What does not fit is
left out at the top, so a number that fits is read back from its bytes.
-/

namespace PolicyBundle.Archive

/-- A number of so many bytes, the lowest first. -/
def littleEndian : (width : Nat) → Nat → Bytes
  | 0, _ => []
  | width + 1, n => UInt8.ofNat (n % 256) :: littleEndian width (n / 256)

/-- The number that bytes stand for, the lowest first. -/
def ofLittleEndian : Bytes → Nat
  | [] => 0
  | byte :: higher => byte.toNat + 256 * ofLittleEndian higher

/-- A number of so many bytes, the highest first. -/
def bigEndian (width n : Nat) : Bytes :=
  (littleEndian width n).reverse

/-- The number that bytes stand for, the highest first. -/
def ofBigEndian (bytes : Bytes) : Nat :=
  ofLittleEndian bytes.reverse

@[simp] theorem length_littleEndian (width n : Nat) : (littleEndian width n).length = width := by
  induction width generalizing n with
  | zero => rfl
  | succ width ih => simp [littleEndian, ih]

@[simp] theorem length_bigEndian (width n : Nat) : (bigEndian width n).length = width := by
  simp [bigEndian]

/-- What is read back is the part of a number that fits. -/
theorem ofLittleEndian_littleEndian (width n : Nat) :
    ofLittleEndian (littleEndian width n) = n % Nat.pow 256 width := by
  induction width generalizing n with
  | zero => exact (Nat.mod_one n).symm
  | succ width ih =>
    have low : (UInt8.ofNat (n % 256)).toNat = n % 256 := by simp
    have high : Nat.pow 256 (width + 1) = 256 * Nat.pow 256 width := Nat.mul_comm _ _
    rw [littleEndian, ofLittleEndian, ih, low, high, Nat.mod_mul]

theorem ofBigEndian_bigEndian (width n : Nat) :
    ofBigEndian (bigEndian width n) = n % Nat.pow 256 width := by
  simp [ofBigEndian, bigEndian, ofLittleEndian_littleEndian]

end PolicyBundle.Archive
