/-
Numbers read exactly. A finite number is `± mantissa · 2 ^ exponent`, so its
whole part, its floor and its remainder by another number are questions
about integers, and are answered there without rounding.

The remainder is the one place where an exact result has to become a number
again. `ofParts` does that: it moves the binary point until the mantissa
fills its 53 bits (or the exponent reaches the subnormal floor), which
changes nothing about the value when the value is representable.
-/

namespace RoutineScript.Number

open Float.Model (UnpackedFloat)
open Float.Model.UnpackedFloat (Sign)

-- ============================================================== whole parts

/-- The integer `± mantissa`. -/
def signed (sign : Sign) (mantissa : Nat) : Int :=
  match sign with
  | .positive => mantissa
  | .negative => -mantissa

/-- `n · 2 ^ exponent` rounded by `divide` when the exponent is negative. -/
def scaledBy (divide : Int → Int → Int) (n exponent : Int) : Int :=
  match exponent with
  | .ofNat k => n * Int.pow 2 k
  | .negSucc k => divide n (Int.pow 2 (k + 1))

/-- A finite number rounded to an integer by `divide`; infinities and the
number that is not one have no integer beside them. -/
def rounded (divide : Int → Int → Int) (x : Float) : Option Int :=
  match x.toModel.unpack with
  | .finite sign mantissa exponent _ => some (scaledBy divide (signed sign mantissa) exponent)
  | .zero _ => some 0
  | .infinity _ | .notANumber => none

/-- The integer part, the fraction dropped. -/
def truncated (x : Float) : Option Int :=
  rounded Int.tdiv x

/-- The greatest integer that is not above the number. -/
def floored (x : Float) : Option Int :=
  rounded Int.fdiv x

/-- The integer that a number is, if it is one. -/
def whole? (x : Float) : Option Int :=
  match x.toModel.unpack with
  | .finite sign mantissa (.ofNat k) _ => some (signed sign mantissa * Int.pow 2 k)
  | .finite sign mantissa (.negSucc k) _ =>
    let scale := Nat.pow 2 (k + 1)
    if mantissa % scale = 0 then some (signed sign (mantissa / scale)) else none
  | .zero _ => some 0
  | .infinity _ | .notANumber => none

/-- The integer part held to 64 bits with sign: what is too large stops at
the nearer end, and what is no number counts as zero. -/
def truncatedToInt64 (x : Float) : Int :=
  match truncated x with
  | some n => max (-Int.pow 2 63) (min (Int.pow 2 63 - 1) n)
  | none => if x.isNaN then 0 else if x < 0 then -Int.pow 2 63 else Int.pow 2 63 - 1

/-- How many unit steps lead from `start` up to and including `stop`. The
count is taken once, in integers, so that a range ends even where adding one
to its bound changes nothing; it stops at the largest 64-bit count. -/
def stepCount (start stop : Float) : Nat :=
  let span := stop - start
  match floored span with
  | some n => if n < 0 then 0 else min (n.toNat + 1) (Nat.pow 2 64 - 1)
  | none => if span > 0 then Nat.pow 2 64 - 1 else 0

-- ================================================================ remainder

/-- The number `± mantissa · 2 ^ exponent`, for a value that is representable. -/
def ofParts (sign : Sign) (mantissa : Nat) (exponent : Int) : Float :=
  if h : mantissa = 0 then
    .ofModel (.pack (.zero sign))
  else
    let bits := mantissa.log2
    if bits ≤ 52 then
      let shift := min (52 - bits) (exponent + 1074).toNat
      .ofModel (.pack (.finite sign (mantissa * Nat.pow 2 shift) (exponent - shift)
        (Nat.mul_pos (Nat.pos_of_ne_zero h) (Nat.two_pow_pos shift))))
    else
      let shift := bits - 52
      .ofModel (.pack (.finite sign (mantissa / Nat.pow 2 shift) (exponent + shift)
        (Nat.div_pos
          (Nat.le_trans (Nat.pow_le_pow_right (by decide) (Nat.sub_le bits 52))
            (Nat.log2_self_le h))
          (Nat.two_pow_pos shift))))

/-- What is left of `a` after taking away `b` as often as it fits, towards
zero: the result has the sign of `a` and is smaller in size than `b`. It is
computed without rounding, and is not a number where the division is not
defined. -/
def remainder (a b : Float) : Float :=
  match a.toModel.unpack, b.toModel.unpack with
  | .notANumber, _ | _, .notANumber | .infinity _, _ | _, .zero _ => 0 / 0
  | .zero _, _ | _, .infinity _ => a
  | .finite sign m e _, .finite _ n f _ =>
    let low := min e f
    ofParts sign (m * Nat.pow 2 (e - low).toNat % (n * Nat.pow 2 (f - low).toNat)) low

end RoutineScript.Number
