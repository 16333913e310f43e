/-
What operators do to values. Logical operators take both operands here; that
the second one may not be evaluated at all is decided where expressions are
evaluated. Comparison orders numbers and texts, texts by code point, and is
false wherever a comparison has no answer. Addition also joins: texts with
anything, lists with lists.
-/
import RoutineScript.Value

namespace RoutineScript.Value

-- ============================================================== comparisons

/-- How two values of one ordered kind compare. Numbers that have no order
compare as nothing. -/
def order? : Value → Value → Option (Option Ordering)
  | number x, number y =>
    some (if x < y then some .lt else if x == y then some .eq else if x > y then some .gt else none)
  | string s, string t => some (some (compare s t))
  | _, _ => none

/-- Which outcomes of a comparison an operator accepts. -/
def comparisonHolds (op : BinaryOp) (outcome : Ordering) : Bool :=
  match op with
  | .lt => outcome == .lt
  | .le => outcome != .gt
  | .gt => outcome == .gt
  | .ge => outcome != .lt
  | _ => false

-- ================================================================ operators

/-- The number that an arithmetic operator makes of two. -/
def arithmetic (op : BinaryOp) (x y : Float) : Float :=
  match op with
  | .sub => x - y
  | .mul => x * y
  | .div => x / y
  | .mod => Number.remainder x y
  | _ => x + y

/-- Applies a binary operator to two evaluated operands. -/
def binary (op : BinaryOp) (left right : Value) : Except Fault Value :=
  let mismatch : Except Fault Value :=
    .error (Cause.operandMismatch op left.kind right.kind)
  match op with
  | .and | .or =>
    match left, right with
    | boolean a, boolean b => .ok (boolean (if op = .and then a && b else a || b))
    | _, _ => mismatch
  | .eq => .ok (boolean (left.equals right))
  | .ne => .ok (boolean (!left.equals right))
  | .lt | .le | .gt | .ge =>
    match order? left right with
    | some (some outcome) => .ok (boolean (comparisonHolds op outcome))
    | some none => .ok (boolean false)
    | none => mismatch
  | .concat => .ok (string (left.display ++ right.display))
  | .add =>
    match left, right with
    | number x, number y => .ok (number (x + y))
    | string _, _ | _, string _ => .ok (string (left.display ++ right.display))
    | list xs, list ys => .ok (list (xs ++ ys))
    | _, _ => mismatch
  | .sub | .mul | .div | .mod =>
    match left, right with
    | number x, number y => .ok (number (arithmetic op x y))
    | _, _ => mismatch

/-- Applies a unary operator to its evaluated operand. -/
def unary (op : UnaryOp) (operand : Value) : Except Fault Value :=
  match op with
  | .neg => operand.expectNumber.map fun x => number (-x)
  | .plus => operand.expectNumber.map number
  | .not => operand.expectBool.map fun b => boolean (!b)

-- ================================================================= indexing

/-- The elements of a list, or the characters of a text. -/
def elements? : Value → Option (List Value)
  | list items => some items
  | string s => some (s.toList.map fun c => string c.toString)
  | _ => none

/-- The element at an index. Its fraction is dropped, towards zero, before
it is looked at; texts count code points. -/
def index (target place : Value) : Except Fault Value := do
  let position ← place.expectNumber
  match target.elements? with
  | none => .error (Cause.notIndexable target.kind)
  | some items =>
    match Number.truncated position with
    | some (.ofNat n) =>
      match items[n]? with
      | some item => .ok item
      | none => .error (Cause.indexOutOfRange (Number.truncatedToInt64 position) items.length)
    | _ => .error (Cause.indexOutOfRange (Number.truncatedToInt64 position) items.length)

end RoutineScript.Value
