/-
The construction of objects. An object is a scope below the home of its
class, in which these steps are taken in order:

- if there is a parent class, a temporary `super` is installed for each
  number of arguments that the parent's constructors take;
- the body of the class is executed;
- without a constructor of its own, the class gets one that takes nothing and
  does nothing;
- the constructor that takes the arguments is called;
- if there is a parent class and no `super` has been called, the one without
  arguments is;
- `super` and the constructors are dropped from the object.

Calling `super` constructs an object of the parent class and merges its
members into the new one; members that are there already win.
-/
import RoutineScript.Run.Execute

namespace RoutineScript

namespace Below

variable (below : Below)

-- ==================================================================== steps

/-- Installs the temporary `super` overloads of an object. -/
def installSupers (object : ScopeId) (parent : Class) : Run Unit :=
  Run.change fun s =>
    parent.superArities.foldl
      (fun s arity => s.addProcedure object (.ofSuper arity parent object)) s

/-- The overloads that an object itself has of a name. -/
def ownProcedures (object : ScopeId) (name : String) : Run (List Callable) :=
  Run.look fun s => (s.scope object).procedures.ownNamed name

/-- The constructors of an object; one is supplied if there is none. -/
def constructors (object : ScopeId) : Run (List Callable) := do
  let declared ← ownProcedures object constructorName
  if declared.isEmpty then
    let supplied := Callable.ofScript constructorName [] [] object
    Run.change (·.addProcedure object supplied)
    return [supplied]
  else
    return declared

/-- Calls the `super` without arguments, unless one has been called. -/
def completeParent (object : ScopeId) (className : String) : Run Unit := do
  if ← Run.look fun s => (s.scope object).construction.superInvoked then
    return
  match (← ownProcedures object superName).find? (·.signature.arity == 0) with
  | some c => do let _ ← below.invoke c [] false
  | none => Run.fail (Cause.superNotInvoked className)

-- ============================================================= construction

/-- Builds an object: executes the body of its class and calls the constructor
that takes the arguments. -/
def build (patience : Nat) (object : ScopeId) (c : Class) (args : List Value) : Run Object := do
  let _ ← below.executeBlock patience object c.body
  match Callable.select? (← constructors object) args with
  | none => Run.fail (Cause.noMatchingConstructor c.name (args.map Value.kind))
  | some constructor => do
    let _ ← below.invokeWith (fun frame => Run.change (·.noteFrame object frame))
      constructor args false
    if c.parent.isSome then
      below.completeParent object c.name
    Run.change (·.dropCallables object superName)
    Run.change (·.dropCallables object constructorName)
    return ⟨object, c.name⟩

/-- Constructs an object of a class. -/
def constructObject (patience : Nat) (c : Class) (args : List Value) : Run Object := do
  Run.requireLive c.home c.name
  inChild c.home fun object => do
    if let some parent := c.parent then
      installSupers object parent
    below.build patience object c args

end Below

-- =================================================================== levels

mutual

/-- Executes a block, calls nested no deeper than `levels`. -/
def Run.executeAt : Nat → ScopeId → Block → Run Flow
  | 0, _, _ => throw .exhausted
  | levels + 1, scope, block =>
    Run.holding [scope]
      (Below.executeBlock ⟨Run.executeAt levels, Run.constructAt levels⟩ levels scope block)

/-- Constructs an object, calls nested no deeper than `levels`. -/
def Run.constructAt : Nat → Class → List Value → Run Object
  | 0, _, _ => throw .exhausted
  | levels + 1, c, args =>
    Below.constructObject ⟨Run.executeAt levels, Run.constructAt levels⟩ levels c args

end

/-- The level of calls that may nest `levels` deep. -/
def Below.upTo (levels : Nat) : Below :=
  ⟨Run.executeAt levels, Run.constructAt levels⟩

end RoutineScript
