/-!
# Numbers of double precision

A finite number of the binary format with 64 bits, kept as its bits. Arithmetic is exact on
fractions of natural numbers and rounds once at the end, so nothing here depends on the floating
point unit of the machine. A result too large for the format is `none`; the format's infinities and
its values that are no numbers do not occur.
-/

namespace PolicyBundle.Json

/-- A finite number of double precision. -/
structure Binary64 where
  /-- The sign bit, eleven bits of exponent and fifty-two bits of fraction. -/
  bits : UInt64
  deriving DecidableEq, Repr

namespace Binary64

/-- Whether the sign bit is set. This tells the two zeros apart. -/
def negative (x : Binary64) : Bool :=
  x.bits ≥ 0x8000000000000000

/-- The bits of the magnitude. -/
def magnitude (x : Binary64) : Nat :=
  x.bits.toNat % Nat.pow 2 63

/-- The number with this magnitude and sign. -/
def withSign (isNegative : Bool) (magnitude : Nat) : Binary64 :=
  ⟨UInt64.ofNat (magnitude + if isNegative then Nat.pow 2 63 else 0)⟩

/-- How many magnitudes there are between two powers of two: the fraction has fifty-two bits. -/
def unit : Nat := Nat.pow 2 52

/-- How often the smallest number of the format goes into one. -/
def resolution : Nat := Nat.pow 2 1074

/-- The whole factor of a magnitude: a magnitude is its factor times a power of two. -/
def factor (magnitude : Nat) : Nat :=
  if magnitude / unit = 0 then magnitude else magnitude % unit + unit

/-- The power of two by which a magnitude is its factor, counted from the smallest power of the
format, which is `-1074`. -/
def power (magnitude : Nat) : Nat :=
  magnitude / unit - 1

/-- A magnitude as a fraction: numerator and denominator. -/
def fraction (magnitude : Nat) : Nat × Nat :=
  (factor magnitude * Nat.pow 2 (power magnitude), resolution)

/-- A quotient rounded to the nearest natural number, a half going to the even neighbour. -/
def roundHalfEven (num den : Nat) : Nat :=
  let q := num / den
  let r := num % den
  if 2 * r < den then q
  else if 2 * r > den then q + 1
  else if q % 2 = 0 then q else q + 1

/-- The magnitude nearest to a fraction; none when it is too large for the format. The scale is
chosen so that the rounded factor has 53 bits, or fewer at the small end. -/
def nearest? (num den : Nat) : Option Nat :=
  if num = 0 then some 0
  else
    let scaled := num * resolution
    -- The number of bits by which the quotient exceeds 53.
    let guess := (scaled.log2 + 1) - (den.log2 + 53)
    let quotient := scaled / (den * Nat.pow 2 guess)
    let power :=
      if quotient < unit then guess - 1 else if quotient ≥ 2 * unit then guess + 1 else guess
    let magnitude := power * unit + roundHalfEven scaled (den * Nat.pow 2 power)
    if magnitude < 0x7FF * unit then some magnitude else none

/-- The magnitude nearest to a power of ten. -/
def powerOfTen (exponent : Nat) : Nat :=
  (nearest? (Nat.pow 10 exponent) 1).getD 0

/-- The magnitude nearest to a product. -/
def times? (x y : Nat) : Option Nat :=
  let (a, b) := fraction x
  let (c, d) := fraction y
  nearest? (a * c) (b * d)

/-- The magnitude nearest to a quotient by a number other than zero. -/
def over? (x y : Nat) : Option Nat :=
  let (a, b) := fraction x
  let (c, d) := fraction y
  nearest? (a * d) (b * c)

/-- A magnitude divided by a power of ten. Powers beyond `308` are divided out in steps, and
`rounds` bounds their number; four rounds bring every magnitude to zero. -/
def shrink (rounds x exponent : Nat) : Nat :=
  match rounds with
  | 0 => 0
  | rounds + 1 =>
    if exponent ≤ 308 then (over? x (powerOfTen exponent)).getD 0
    else if x = 0 then 0
    else shrink rounds ((over? x (powerOfTen 308)).getD 0) (exponent - 308)

/-- The magnitude that stands for `digits · 10 ^ exponent`, where `digits` is below `2 ^ 64`. It is
rounded twice: first the digits, then their product or quotient with the power of ten. None when the
product is too large for the format. -/
def ofDecimal? (digits : Nat) (exponent : Int) : Option Nat := do
  let x ← nearest? digits 1
  if exponent < 0 then some (shrink 4 x exponent.natAbs)
  else if exponent ≤ 308 then times? x (powerOfTen exponent.toNat)
  else if x = 0 then some 0
  else none

end Binary64

end PolicyBundle.Json
