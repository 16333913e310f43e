/-
What can go wrong with a script. A `Cause` is one way to fail, with what is
needed to explain it; a `Fault` adds the source line, once it is known. The
innermost statement knows best: a line that is set is never replaced.

Every fault can be handled. It travels up to the nearest `try` block or,
failing that, to whoever started the run.
-/
import RoutineScript.Operator

namespace RoutineScript

-- ==================================================================== kinds

/-- The kinds of values. `any` describes no value: it stands in signatures,
where it accepts every kind. -/
inductive Kind where
  | number | boolean | string | list | null | object | any
  deriving DecidableEq, Repr

/-- The name of a kind in messages and signatures. -/
def Kind.name : Kind → String
  | .number => "Number"
  | .boolean => "Boolean"
  | .string => "String"
  | .list => "List"
  | .null => "Null"
  | .object => "Instance"
  | .any => "Any"

/-- Several kinds, as argument lists are described. -/
def Kind.names (kinds : List Kind) : String :=
  ", ".intercalate (kinds.map Kind.name)

-- =================================================================== causes

/-- The ways in which a script can fail. -/
inductive Cause where
  /-- A quoted literal that is not closed on its line. -/
  | unterminatedQuote (quote : Char)
  /-- A closing delimiter that does not fit the innermost open one. -/
  | mismatchedClose (close opener : Char) (openedAt : Nat)
  /-- A closing delimiter where none is open. -/
  | unmatchedClose (close : Char)
  /-- A delimiter that is still open at the end. -/
  | unclosed (opener : Char)
  /-- A text that no value can be read from. -/
  | notAValue (text : String)
  /-- A text that is no statement of any form. -/
  | notAnInstruction (text : String)
  /-- A variable, callable or class that is not declared. -/
  | notFound (name : String)
  /-- A name that may not be declared. -/
  | illegalName (name : String)
  /-- No overload of a callable takes arguments of these kinds. -/
  | noMatchingOverload (name : String) (args : List Kind)
  /-- No constructor of a class takes arguments of these kinds. -/
  | noMatchingConstructor (className : String) (args : List Kind)
  /-- The parent part of an instance was never constructed. -/
  | superNotInvoked (className : String)
  /-- A callable whose value was wanted ended without one. -/
  | noValueReturned (name : String)
  /-- An index outside a list or a text. -/
  | indexOutOfRange (index : Int) (length : Nat)
  /-- A value of one kind where another is needed. -/
  | wrongKind (expected got : Kind)
  /-- A value that cannot be indexed. -/
  | notIndexable (got : Kind)
  /-- Operands that an operator does not combine. -/
  | operandMismatch (op : BinaryOp) (left right : Kind)
  /-- An expression where the name of a class is needed. -/
  | notAClassName
  /-- Calls nested deeper than allowed. -/
  | depthExceeded (limit : Nat)
  /-- A failure that a host callable reports of itself. -/
  | hostFailure (name message : String)
  deriving DecidableEq, Repr

/-- The explanation of a cause. -/
def Cause.message : Cause → String
  | unterminatedQuote quote => "syntax error: unterminated " ++ quote.toString ++ " quote"
  | mismatchedClose close opener openedAt =>
    "syntax error: '" ++ close.toString ++ "' closes '" ++ opener.toString ++
      "' opened at line " ++ toString openedAt
  | unmatchedClose close => "syntax error: unmatched '" ++ close.toString ++ "'"
  | unclosed opener => "syntax error: unclosed '" ++ opener.toString ++ "'"
  | notAValue text => "'" ++ text ++ "' is not a value"
  | notAnInstruction text => "'" ++ text ++ "' is not an instruction"
  | notFound name => "'" ++ name ++ "' was not found"
  | illegalName name => "'" ++ name ++ "' is not a legal name"
  | noMatchingOverload name args =>
    "no overload of '" ++ name ++ "' accepts (" ++ Kind.names args ++ ")"
  | noMatchingConstructor className args =>
    "no constructor of '" ++ className ++ "' accepts (" ++ Kind.names args ++ ")"
  | superNotInvoked className => "constructor of '" ++ className ++ "' never invoked super"
  | noValueReturned name => "'" ++ name ++ "' finished without returning a value"
  | indexOutOfRange index length =>
    "index " ++ toString index ++ " is out of range for length " ++ toString length
  | wrongKind expected got => mismatch expected.name got.name
  | notIndexable got => mismatch "List or String" got.name
  | operandMismatch op left right =>
    mismatch ("operands for '" ++ op.symbol ++ "'") (left.name ++ " and " ++ right.name)
  | notAClassName => mismatch "class name" "expression"
  | depthExceeded limit => "call depth exceeded the limit of " ++ toString limit
  | hostFailure name message => "native callable '" ++ name ++ "' failed: " ++ message
where
  /-- What was expected and what was there instead. -/
  mismatch (expected got : String) : String :=
    "type mismatch: expected " ++ expected ++ ", got " ++ got

-- =================================================================== faults

/-- A failure, with the line of the statement that raised it. -/
structure Fault where
  cause : Cause
  line : Option Nat
  deriving DecidableEq, Repr

namespace Fault

/-- A failure whose line is not known yet. -/
instance : Coe Cause Fault where
  coe cause := ⟨cause, none⟩

/-- A failure on a given line. -/
def onLine (cause : Cause) (line : Nat) : Fault :=
  ⟨cause, some line⟩

/-- Tells a failure its line, unless it knows one. -/
def atLine (fault : Fault) (line : Nat) : Fault :=
  { fault with line := fault.line <|> some line }

/-- The explanation of a failure, with its line. -/
def message (fault : Fault) : String :=
  match fault.line with
  | some line => fault.cause.message ++ " at line " ++ toString line
  | none => fault.cause.message

/-- The innermost line wins. -/
@[simp] theorem atLine_atLine (fault : Fault) (inner outer : Nat) :
    (fault.atLine inner).atLine outer = fault.atLine inner := by
  rcases fault with ⟨cause, _ | line⟩ <;> rfl

/-- A line is known once one has been told. -/
theorem line_atLine (fault : Fault) (line : Nat) :
    (fault.atLine line).line = some (fault.line.getD line) := by
  rcases fault with ⟨cause, _ | known⟩ <;> rfl

@[simp] theorem cause_atLine (fault : Fault) (line : Nat) :
    (fault.atLine line).cause = fault.cause := rfl

end Fault

end RoutineScript
