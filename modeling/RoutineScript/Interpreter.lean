/-
What a host asks of the interpreter: to execute a source or a program in a
scope, to evaluate a text there, and to deal with objects. A `return` at the
top of a program ends it and its value is dropped.
-/
import RoutineScript.Run.Construct
import RoutineScript.Stmt.Reader

namespace RoutineScript.Interpreter

variable (levels : Nat) (scope : ScopeId)

/-- Executes a program. -/
def runProgram (program : Block) : Run Unit := do
  let _ ← Run.executeAt levels scope program

/-- Reads a program and executes it. -/
def runSource (source : String) : Run Unit := do
  runProgram levels scope (← Run.ofResult (Block.ofSource source))

/-- Reads an expression and evaluates it. -/
def evaluateText (text : String) : Run Value := do
  let e ← Run.ofResult (Expr.ofText text)
  (Below.upTo levels).evaluate scope e

/-- Constructs an object of a class that is visible from a scope. -/
def instantiate (className : String) (args : List Value) : Run Object :=
  Run.holdingValues args ((Below.upTo levels).instantiate scope className args)

/-- Calls a member of an object. -/
def callMember (object : Object) (name : String) (args : List Value) : Run Value :=
  Run.holding [object.scope] <| Run.holdingValues args <|
    (Below.upTo levels).callMember object.scope name args

end RoutineScript.Interpreter
