/-
Expressions. Calls name their callable, constructions name their class, and
members and methods are reached through the expression of an object.
-/
import RoutineScript.Operator

namespace RoutineScript

/-- What can be evaluated to a value. -/
inductive Expr where
  | number (x : Float)
  | string (s : String)
  | bool (b : Bool)
  | null
  | list (items : List Expr)
  | name (name : String)
  | call (name : String) (args : List Expr)
  | member (object : Expr) (name : String)
  | methodCall (object : Expr) (name : String) (args : List Expr)
  | index (target position : Expr)
  | new (className : String) (args : List Expr)
  | unary (op : UnaryOp) (operand : Expr)
  | binary (op : BinaryOp) (left right : Expr)

instance : Inhabited Expr := ⟨.null⟩

end RoutineScript
