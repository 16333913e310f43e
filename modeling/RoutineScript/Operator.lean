/-
The operators of expressions. A binary operator is logical, relational or
arithmetic, and the arithmetic ones form two families; how a chain of them
groups is told in `Expr/Chain.lean`. Joining texts has an operator of its
own, which is written like addition.
-/

namespace RoutineScript

/-- Operators between two operands. -/
inductive BinaryOp where
  | and | or
  | ge | le | gt | lt | eq | ne
  | concat
  | add | sub | mul | div | mod
  deriving DecidableEq, Repr

/-- Operators in front of one operand. -/
inductive UnaryOp where
  | neg | plus | not
  deriving DecidableEq, Repr

namespace BinaryOp

/-- How an operator is written. -/
def symbol : BinaryOp → String
  | and => "&&"
  | or => "||"
  | ge => ">="
  | le => "<="
  | gt => ">"
  | lt => "<"
  | eq => "=="
  | ne => "!="
  | concat | add => "+"
  | sub => "-"
  | mul => "*"
  | div => "/"
  | mod => "%"

/-- Addition and subtraction. -/
def isAdditive (op : BinaryOp) : Bool :=
  op == add || op == sub

/-- Multiplication, division and remainder. -/
def isMultiplicative (op : BinaryOp) : Bool :=
  op == mul || op == div || op == mod

end BinaryOp

namespace UnaryOp

/-- How an operator is written. -/
def symbol : UnaryOp → String
  | neg => "-"
  | plus => "+"
  | not => "!"

end UnaryOp

end RoutineScript
