/-
The execution of statements. The body of a branch or a loop runs in a new
scope, a loop's in one for each round, so what it declares is gone
afterwards. The parts of a `try` run in the scope around it. A `return` ends
all of these and is taken by the call around them.

A loop with a condition may run for ever, so its rounds are counted against
a patience; the other loops count their rounds beforehand.

# Threads

A thread is an independent run of its body: nothing waits for it, and neither
its outcome nor a fault in it comes back to where it was started. Many orders
of its steps and those of the statements behind it are possible. Here it is
always one and the same: the body is run to its end in place, with a count of
nested calls of its own, before the next statement begins. Where the thread
ends, that is one of the possible orders. The others are left out:

- No steps are interleaved. What a thread changes is there when the next
  statement begins, and it never sees what that one does.
- Starting a thread never fails, though a host can be out of threads.
- A thread that does not end uses up the patience of the whole run, so that
  `thread { while (true) { } } ghost();` has no result at any patience, not
  even the fault of the call behind it. Nothing is said here about programs
  whose threads do not end.
-/
import RoutineScript.Run.Evaluate

namespace RoutineScript

-- ==================================================================== loops

namespace Run

/-- Repeats a body while a condition holds, unless patience runs out. -/
def repeatWhile (condition : Run Bool) (body : Run Flow) : Nat → Run Flow
  | 0 => throw .exhausted
  | patience + 1 => do
    if ← condition then
      match ← body with
      | .finished => repeatWhile condition body patience
      | .returned v => return .returned v
    else
      return .finished

/-- Runs a body for each number from `first` on, `rounds` times. -/
def repeatFor (body : Nat → Run Flow) (first : Nat) : Nat → Run Flow
  | 0 => return .finished
  | rounds + 1 => do
    match ← body first with
    | .finished => repeatFor body (first + 1) rounds
    | .returned v => return .returned v

end Run

namespace Below

variable (below : Below)

-- =================================================================== places

/-- The value of a place. -/
def readPlace (scope : ScopeId) : Place → Run Value
  | .name x => Run.lookUp (·.lookup scope x)
  | .member object m => do
    let v ← below.evaluate scope object
    Run.lookUp (·.member v m)

/-- The object that an expression evaluates to. -/
def evaluateObject (scope : ScopeId) (e : Expr) : Run Object := do
  Run.ofResult (← below.evaluate scope e).expectObject

/-- Assigns a place. -/
def assignPlace (scope : ScopeId) (v : Value) : Place → Run Unit
  | .name x => Run.attempt (·.assign scope x v)
  | .member object m => do
    let o ← Run.holdingValues [v] (below.evaluateObject scope object)
    Run.attempt (·.assign o.scope m v)

/-- Removes the variable that a place names. -/
def deletePlace (scope : ScopeId) : Place → Run Unit
  | .name x => do let _ ← Run.attempt (·.remove scope x)
  | .member object m => do
    let o ← below.evaluateObject scope object
    let _ ← Run.attempt (·.remove o.scope m)

-- ======================================================== simple statements

/-- Combines the value of a place with another one. The place is read before
the other value is evaluated. -/
def combine (scope : ScopeId) (place : Place) (op : BinaryOp) (e : Expr) : Run Unit := do
  let current ← below.readPlace scope place
  let operand ← Run.holdingValues [current] (below.evaluate scope e)
  let updated ← Run.ofResult (Value.binary op current operand)
  Run.holdingValues [current, operand] (below.assignPlace scope updated place)

/-- Calls what a statement names. The arguments are evaluated before the
object whose method is called. -/
def callStatement (scope : ScopeId) (callee : Callee) (args : List Expr) : Run Unit := do
  let args ← below.evaluateAll scope args
  Run.holdingValues args do
    match callee with
    | .name f => do let _ ← below.callProcedure scope f args
    | .method object m => do
      let o ← below.evaluateObject scope object
      let _ ← Run.holding [o.scope] (below.callProcedure o.scope m args)

/-- The class that a parent expression names: by its name, or as a member of
an object. -/
def resolveClass (scope : ScopeId) : Expr → Run Class
  | .name c => findClass scope c
  | .member object c => do
    let o ← below.evaluateObject scope object
    findClass o.scope c
  | _ => Run.fail Cause.notAClassName

/-- Declares a class in a scope. -/
def declareClass (scope : ScopeId) (name : String) (parent : Option Expr) (body : Block) :
    Run Unit := do
  Run.ofResult (Name.check name)
  let parent ←
    match parent with
    | none => pure none
    | some e => do pure (some (← below.resolveClass scope e))
  let arities := Block.arities body constructorName
  Run.change (·.declareClass { name, parent, body, home := scope, arities })

/-- The number that an expression must evaluate to. -/
def evaluateNumber (scope : ScopeId) (e : Expr) : Run Float := do
  Run.ofResult (← below.evaluate scope e).expectNumber

/-- The truth value that an expression must evaluate to. -/
def evaluateBool (scope : ScopeId) (e : Expr) : Run Bool := do
  Run.ofResult (← below.evaluate scope e).expectBool

/-- Runs something in a new scope below another one. -/
def inChild {α : Type} (scope : ScopeId) (run : ScopeId → Run α) : Run α := do
  let child ← Run.newChild scope
  Run.holding [child] (run child)

-- =================================================================== blocks

mutual

/-- Executes a statement in a scope. -/
def execute (patience : Nat) (scope : ScopeId) : Stmt → Run Flow
  | .assign place e => do
    let v ← below.evaluate scope e
    below.assignPlace scope v place
    return .finished
  | .compound place op e => do
    below.combine scope place op e
    return .finished
  | .step place delta => do
    let current ← Run.ofResult (← below.readPlace scope place).expectNumber
    below.assignPlace scope (.number (current + delta)) place
    return .finished
  | .delete place => do
    below.deletePlace scope place
    return .finished
  | .make name => do
    Run.attempt (·.declare scope name .null)
    return .finished
  | .call callee args => do
    below.callStatement scope callee args
    return .finished
  | .return none => return .returned .null
  | .return (some e) => do return .returned (← below.evaluate scope e)
  | .branch arms => executeArms patience scope arms
  | .whileLoop condition body =>
    Run.repeatWhile (below.evaluateBool scope condition)
      (inChild scope fun child => executeBlock patience child body) patience
  | .forLoop count body => do
    let count ← below.evaluateNumber scope count
    Run.repeatFor (fun _ => inChild scope fun child => executeBlock patience child body) 0
      (Number.stepCount 0 (count - 1))
  | .countLoop name start stop body => do
    let start ← below.evaluateNumber scope start
    let stop ← below.evaluateNumber scope stop
    Run.repeatFor
      (fun round => inChild scope fun child => do
        Run.attempt (·.declare child name (.number (start + .ofNat round)))
        executeBlock patience child body)
      0 (Number.stepCount start stop)
  | .attempt body none =>
    Run.handling (executeBlock patience scope body) (return .finished)
  | .attempt body (some handler) =>
    Run.handling (executeBlock patience scope body) (executeBlock patience scope handler)
  | .thread body => do
    -- to its end, before the next statement; a fault in it is dropped
    let _ ← Run.handling
      (inChild scope fun child => Run.apart (executeBlock patience child body))
      (return .finished)
    return .finished
  | .define name params body => do
    Run.attempt (·.define scope name params body)
    return .finished
  | .declareClass name parent body => do
    below.declareClass scope name parent body
    return .finished
  | .invalid fault => Run.fail fault

/-- Executes statements one after the other, up to a `return`. -/
def executeBlock (patience : Nat) (scope : ScopeId) : List (Located Stmt) → Run Flow
  | [] => return .finished
  | ⟨line, statement⟩ :: rest => do
    match ← Run.onLine line (execute patience scope statement) with
    | .finished => executeBlock patience scope rest
    | .returned v => return .returned v

/-- Executes the first arm whose condition holds. -/
def executeArms (patience : Nat) (scope : ScopeId) :
    List (Option Expr × List (Located Stmt)) → Run Flow
  | [] => return .finished
  | (none, body) :: _ => inChild scope fun child => executeBlock patience child body
  | (some condition, body) :: rest => do
    if ← below.evaluateBool scope condition then
      inChild scope fun child => executeBlock patience child body
    else
      executeArms patience scope rest

end

end Below

end RoutineScript
