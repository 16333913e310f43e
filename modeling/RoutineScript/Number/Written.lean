/-
How numbers are written and read. A number is written with the shortest
digits that read back, always positionally: no exponent, and no point unless
digits follow it. In messages and printed values, an integer of fewer than
sixteen digits is written as an integer, which drops the sign of zero.

Reading accepts a sign, digits with an optional point and an optional
exponent, and the names of the infinities and of the number that is not one.
-/
import RoutineScript.Number.Exact
import RoutineScript.Number.Shortest

namespace RoutineScript.Number

-- ================================================================== writing

/-- `digits · 10 ^ exponent` without an exponent. -/
def Decimal.positional (d : Decimal) : String :=
  match d.exponent with
  | .ofNat k => String.ofList (Nat.toDigits 10 d.digits ++ List.replicate k '0')
  | .negSucc k =>
    let places := k + 1
    let digits := Nat.toDigits 10 d.digits
    let padded := List.replicate (places + 1 - digits.length) '0' ++ digits
    let cut := padded.length - places
    String.ofList (padded.take cut ++ '.' :: padded.drop cut)

/-- A number in full: shortest digits, the sign of zero kept. -/
def fullText (x : Float) : String :=
  match x.toModel.unpack with
  | .notANumber => "NaN"
  | .infinity .positive => "inf"
  | .infinity .negative => "-inf"
  | .zero .positive => "0"
  | .zero .negative => "-0"
  | .finite .positive m e _ => (shortest m e).positional
  | .finite .negative m e _ => "-" ++ (shortest m e).positional

/-- A number as printed values show it. -/
def displayText (x : Float) : String :=
  match whole? x with
  | some n => if n.natAbs < Nat.pow 10 15 then toString n else fullText x
  | none => fullText x

-- ================================================================== reading

/-- The number that a decimal digit stands for. -/
def digitValue (c : Char) : Nat :=
  c.toNat - '0'.toNat

/-- A string of decimal digits as a number. -/
def ofDigits (digits : List Char) : Nat :=
  digits.foldl (fun n c => 10 * n + digitValue c) 0

/-- The number nearest to `mantissa · 10 ^ exponent`. Decimals far outside
the range of finite numbers are settled by their magnitude alone. -/
def ofDecimal (mantissa : Nat) (exponent : Int) : Float :=
  let magnitude := exponent + (Nat.toDigits 10 mantissa).length
  if mantissa = 0 ∨ magnitude < -330 then 0
  else if magnitude > 320 then 1 / 0
  else .ofScientific mantissa (exponent < 0) exponent.natAbs

/-- The number written by `whole` before the point and `fraction` behind it. -/
def ofLiteral (whole fraction : List Char) : Float :=
  ofDecimal (ofDigits (whole ++ fraction)) (-fraction.length)

/-- An exponent: an optional sign and at least one digit. -/
def readExponent? (text : List Char) : Option Int :=
  let read (digits : List Char) : Option Int :=
    if digits ≠ [] ∧ digits.all Char.isDigit then some (ofDigits digits) else none
  match text with
  | '-' :: digits => (read digits).map (-·)
  | '+' :: digits => read digits
  | digits => read digits

/-- A number without its sign. -/
def readUnsigned? (text : List Char) : Option Float :=
  match String.ofList (text.map Char.toLower) with
  | "inf" | "infinity" => some (1 / 0)
  | "nan" => some (0 / 0)
  | _ =>
    let whole := text.takeWhile Char.isDigit
    let rest := text.dropWhile Char.isDigit
    let (fraction, rest) :=
      match rest with
      | '.' :: rest => (rest.takeWhile Char.isDigit, rest.dropWhile Char.isDigit)
      | rest => ([], rest)
    if whole ++ fraction = [] then none
    else
      let mantissa := ofDigits (whole ++ fraction)
      match rest with
      | [] => some (ofDecimal mantissa (-fraction.length))
      | c :: exponent =>
        if c = 'e' ∨ c = 'E' then
          (readExponent? exponent).map fun e => ofDecimal mantissa (e - fraction.length)
        else none

/-- The number that a whole text spells. -/
def read? (text : String) : Option Float :=
  match text.toList with
  | '-' :: rest => (readUnsigned? rest).map (-·)
  | '+' :: rest => readUnsigned? rest
  | rest => readUnsigned? rest

end RoutineScript.Number
