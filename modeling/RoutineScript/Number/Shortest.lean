/-
The shortest decimal that reads back as a given number. The reals that
round to `mantissa · 2 ^ exponent` form an interval around it. Among the
grids of multiples of a power of ten, the coarsest one that has a point in
the interval gives the fewest digits, and of its points next to the number
the nearer is taken, the greater one when both are equally near.

All comparisons are between natural numbers: the number, the ends of its
interval and the points of the grid are brought to one denominator.
-/

namespace RoutineScript.Number

/-- A decimal `digits · 10 ^ exponent`. -/
structure Decimal where
  digits : Nat
  exponent : Int
  deriving DecidableEq

-- ============================================================= the interval

/-- The reals that round to one number, in units of `2 ^ unit`: those from
`centre - below` to `centre + above`. The ends belong to the interval when
`closed` is set. -/
structure Interval where
  centre : Nat
  below : Nat
  above : Nat
  unit : Int
  closed : Bool

/-- The interval of `mantissa · 2 ^ exponent`. It reaches half way to either
neighbour; the neighbour below a power of two is only half as far away,
except at the bottom of the scale. A tie goes to the even mantissa. -/
def Interval.around (mantissa : Nat) (exponent : Int) : Interval where
  centre := 4 * mantissa
  below := if mantissa = Nat.pow 2 52 ∧ exponent ≠ -1074 then 1 else 2
  above := 2
  unit := exponent - 2
  closed := mantissa % 2 == 0

/-- Whether a point, in units of `1 / scale` of the interval's own unit, lies
in the interval. -/
def Interval.holds (i : Interval) (scale point : Nat) : Bool :=
  if i.closed then
    decide ((i.centre - i.below) * scale ≤ point) && decide (point ≤ (i.centre + i.above) * scale)
  else
    decide ((i.centre - i.below) * scale < point) && decide (point < (i.centre + i.above) * scale)

-- ================================================================= the grid

/-- The multiple of `10 ^ power` in the interval that is nearest to its
centre, if it has one. With `unit` and `power` as fractions over one
denominator, the grid's points are the multiples of `step` and the interval
is measured in units of `1 / scale`. -/
def Interval.onGrid? (i : Interval) (power : Int) : Option Nat :=
  let scale := Nat.pow 2 i.unit.toNat * Nat.pow 10 (-power).toNat
  let step := Nat.pow 10 power.toNat * Nat.pow 2 (-i.unit).toNat
  let centre := i.centre * scale
  let low := centre / step
  let high := low + 1
  match decide (low ≠ 0) && i.holds scale (low * step), i.holds scale (high * step) with
  | true, true => some (if centre - low * step < high * step - centre then low else high)
  | true, false => some low
  | false, true => some high
  | false, false => none

/-- The first grid, from `10 ^ power` downwards, with a point in the
interval. -/
def Interval.coarsest (i : Interval) (power : Int) : Nat → Decimal
  | 0 => ⟨0, 0⟩
  | fuel + 1 =>
    match i.onGrid? power with
    | some digits => ⟨digits, power⟩
    | none => i.coarsest (power - 1) fuel

/-- A power of ten that is not below `mantissa · 2 ^ exponent`. The decimal
logarithm of two is a little less than 1234 / 4096. -/
def powerAbove (mantissa : Nat) (exponent : Int) : Int :=
  let bits := exponent + mantissa.log2 + 1
  if bits < 0 then -(-bits * 1233 / 4096) + 1 else bits * 1234 / 4096 + 1

/-- The shortest decimal that reads back as `mantissa · 2 ^ exponent`. The
search starts above the number and meets, at the latest, the grid of its
seventeenth digit. -/
def shortest (mantissa : Nat) (exponent : Int) : Decimal :=
  (Interval.around mantissa exponent).coarsest (powerAbove mantissa exponent) 24

end RoutineScript.Number
