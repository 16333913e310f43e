/-
Calls. A name may have several overloads; the first that takes the arguments
is the one that is called. A definition runs in a new scope below the scope
it was defined in, with its parameters declared there.

A call statement tries the overloads that need not return a value first. A
call for its value looks only at those that can return one, and fails if the
definition it calls ends without doing so.

Whatever runs in a call runs one level below: `Below` is what a level of
calls may ask of the next one.
-/
import RoutineScript.Run

namespace RoutineScript

/-- How statements end: with the last one, or at a `return`. -/
inductive Flow where
  | finished
  | returned (v : Value)

/-- The level of calls below this one. -/
structure Below where
  /-- Executes a block in a scope. -/
  enter : ScopeId → Block → Run Flow
  /-- Constructs an object of a class. -/
  construct : Class → List Value → Run Object

namespace Below

variable (below : Below)

-- =============================================================== invocation

/-- Declares parameters with the arguments of a call. -/
def bindParams (frame : ScopeId) : List String → List Value → Run Unit
  | param :: params, arg :: args => do
    Run.attempt (·.declare frame param arg)
    bindParams frame params args
  | _, _ => pure ()

/-- The value of a call whose body has ended so. A value that is wanted must
have been returned. -/
def outcome (name : String) (wanted : Bool) : Flow → Run Value
  | .returned v => pure v
  | .finished => if wanted then Run.fail (Cause.noValueReturned name) else pure .null

/-- Calls an overload. `onFrame` is told the scope of a definition's call
once its parameters are declared. -/
def invokeWith (onFrame : ScopeId → Run Unit) (c : Callable) (args : List Value)
    (wanted : Bool) : Run Value :=
  match c.body with
  | .host function => Run.attempt (·.callHost function args)
  | .script params body home => do
    Run.requireLive home c.name
    let frame ← Run.newChild home
    bindParams frame params args
    onFrame frame
    outcome c.name wanted (← Run.deeper (below.enter frame body))
  | .super parent target => do
    Run.requireLive target c.name
    let base ← Run.holding [target] (Run.deeper (below.construct parent args))
    Run.change (·.merge target base.scope)
    Run.change (·.noteSuper target)
    return .null

/-- Calls an overload. -/
def invoke (c : Callable) (args : List Value) (wanted : Bool) : Run Value :=
  below.invokeWith (fun _ => pure ()) c args wanted

/-- Calls the first of some overloads that takes the arguments. -/
def dispatch (name : String) (candidates : List Callable) (args : List Value)
    (wanted : Bool) : Run Value :=
  if candidates.isEmpty then Run.fail (Cause.notFound name)
  else
    match Callable.select? candidates args with
    | some c => below.invoke c args wanted
    | none => Run.fail (Cause.noMatchingOverload name (args.map Value.kind))

-- ==================================================================== calls

/-- Calls a name that is visible from a scope as a statement. -/
def callProcedure (scope : ScopeId) (name : String) (args : List Value) : Run Value := do
  let candidates ← Run.look fun s =>
    (s.scope scope).procedures.named name ++ (s.scope scope).functions.named name
  below.dispatch name candidates args false

/-- Calls a name that is visible from a scope for its value. -/
def callFunction (scope : ScopeId) (name : String) (args : List Value) : Run Value := do
  let functions ← Run.look fun s => (s.scope scope).functions.named name
  let procedures ← Run.look fun s => (s.scope scope).procedures.named name
  if functions.isEmpty && !procedures.isEmpty then Run.fail (Cause.noValueReturned name)
  else below.dispatch name functions args true

/-- Calls a member of an object from the host, for its value if it has
overloads that return one. -/
def callMember (scope : ScopeId) (name : String) (args : List Value) : Run Value := do
  let functions ← Run.look fun s => (s.scope scope).functions.named name
  if functions.isEmpty then
    let procedures ← Run.look fun s => (s.scope scope).procedures.named name
    below.dispatch name procedures args false
  else below.dispatch name functions args true

/-- The class of a name that must be visible from a scope. -/
def findClass (scope : ScopeId) (name : String) : Run Class := do
  match ← Run.look (·.class? scope name) with
  | some c => return c
  | none => Run.fail (Cause.notFound name)

/-- Constructs an object of a class that is visible from a scope. -/
def instantiate (scope : ScopeId) (className : String) (args : List Value) : Run Object := do
  let c ← findClass scope className
  Run.deeper (below.construct c args)

end Below

end RoutineScript
