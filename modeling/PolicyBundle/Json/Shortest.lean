import PolicyBundle.Json.Binary64

/-!
# The shortest decimal of a number

The decimal with the fewest digits that lies closer to a number than to any other number of the
format, and among those the one nearest to it. The search tries one digit, two digits and so on, and
for each looks only at the two decimals next to the number; seventeen digits always suffice.
-/

namespace PolicyBundle.Json.Binary64

/-- The real numbers that round to a magnitude, as multiples of a quarter of its unit: lower end,
the magnitude itself, upper end. Below a power of two the neighbour is half as far away. -/
def interval (magnitude : Nat) : Nat × Nat × Nat :=
  let m := factor magnitude
  let low := if m = unit && power magnitude > 0 then 4 * m - 1 else 4 * m - 2
  (low, 4 * m, 4 * m + 2)

/-- The exponent of the leading decimal digit of a fraction that is at least one. -/
def leadingOfLarge (num den : Nat) : Nat :=
  (Nat.toDigits 10 (num / den)).length - 1

/-- How many places after the point the first digit of a fraction below one stands; `rounds` bounds
the search. -/
def leadingOfSmall (rounds num den : Nat) : Nat :=
  match rounds with
  | 0 => 0
  | rounds + 1 => if 10 * num ≥ den then 1 else leadingOfSmall rounds (10 * num) den + 1

/-- The exponent of the leading decimal digit of a positive fraction. -/
def leading (num den : Nat) : Int :=
  if num ≥ den then leadingOfLarge num den else -(leadingOfSmall 400 num den : Int)

/-- A decimal without its final zeros; `rounds` bounds their number. -/
def withoutZeros (rounds digits : Nat) (exponent : Int) : Nat × Int :=
  match rounds with
  | 0 => (digits, exponent)
  | rounds + 1 =>
    if digits % 10 = 0 && digits ≠ 0 then withoutZeros rounds (digits / 10) (exponent + 1)
    else (digits, exponent)

/-- The decimal with at most `count` digits nearest to a positive magnitude, if it rounds to it. An
exact tie goes to the even digit. -/
def ofCount? (magnitude count : Nat) : Option (Nat × Int) :=
  let (low, middle, high) := interval magnitude
  -- Everything is scaled by one power of two and one power of ten to whole numbers.
  let step := Nat.pow 2 (power magnitude)
  let den := 4 * resolution
  let exponent := leading (middle * step) den - (count - 1 : Int)
  let (scale, grid) := if exponent ≥ 0 then (1, den * Nat.pow 10 exponent.toNat)
    else (Nat.pow 10 exponent.natAbs, den)
  let at' (x : Nat) := x * step * scale
  let below := at' middle / grid
  let inside (d : Nat) :=
    if factor magnitude % 2 = 0 then at' low ≤ d * grid && d * grid ≤ at' high
    else at' low < d * grid && d * grid < at' high
  let up := below + 1
  let toBelow := at' middle - below * grid
  let toUp := up * grid - at' middle
  let nearer := if toBelow < toUp then below
    else if toUp < toBelow then up
    else if below % 2 = 0 then below else up
  let other := if nearer = below then up else below
  if inside nearer then some (nearer, exponent)
  else if inside other then some (other, exponent)
  else none

/-- The first count from `count` on, of `rounds` many, that gives a decimal. -/
def search (magnitude rounds count : Nat) : Nat × Int :=
  match rounds with
  | 0 => (0, 0)
  | rounds + 1 =>
    match ofCount? magnitude count with
    | some (digits, exponent) => withoutZeros 20 digits exponent
    | none => search magnitude rounds (count + 1)

/-- The digits and the exponent of ten of the shortest decimal of a magnitude. -/
def shortest (magnitude : Nat) : Nat × Int :=
  if magnitude = 0 then (0, 0) else search magnitude 17 1

end PolicyBundle.Json.Binary64
