/-
Callables and classes. A callable is one overload of a name: a function of
the host, a definition of a script, or, while an object is under
construction, the means to construct the part that its parent class owns.

A definition and a class remember the scope they were declared in by its
place in the store, which does not keep that scope alive.
-/
import RoutineScript.Signature
import RoutineScript.Stmt
import RoutineScript.Text.Quoted

namespace RoutineScript

/-- A class as it was declared. -/
structure Class where
  name : String
  parent : Option Class
  body : Block
  /-- The scope of the declaration; objects are constructed below it. -/
  home : ScopeId
  /-- The numbers of parameters of the constructors that the body defines. -/
  arities : List Nat

namespace Class

/-- The parent of a class, the parent of that one, and so on. -/
def ancestors (c : Class) : List Class :=
  match c with
  | ⟨_, none, _, _, _⟩ => []
  | ⟨_, some parent, _, _, _⟩ => parent :: parent.ancestors

/-- The numbers of arguments that constructing the parent part of an object
may take when this class is the parent, ascending. A class without a
constructor takes none. -/
def superArities (c : Class) : List Nat :=
  let arities := (c.arities.mergeSort (· ≤ ·)).eraseDups
  if arities.isEmpty then [0] else arities

/-- A class as diagnostics show it. -/
def text (c : Class) : String :=
  let parent :=
    match c.parent with
    | some p => "Some(" ++ Text.quoted p.name ++ ")"
    | none => "None"
  "Class \x7b name: " ++ Text.quoted c.name ++ ", parent: " ++ parent ++ ", constructors: [" ++
    ", ".intercalate (c.arities.map toString) ++ "] \x7d"

end Class

/-- What the functions of the host can change. -/
structure HostState where
  /-- The lines that have been printed, in order. -/
  transcript : Array String
  /-- The time since the start, in nanoseconds. -/
  clock : Nat

/-- The state of a host that has just started. -/
def HostState.start : HostState := ⟨#[], 0⟩

/-- A function of the host: what it makes of its arguments and of the state
of the host. The values in `keeps` stay alive as long as the function. -/
structure HostFunction where
  run : List Value → HostState → Except Fault Value × HostState
  keeps : List Value

/-- What a call of an overload does. -/
inductive Callable.Body where
  | host (function : HostFunction)
  /-- Executes a block in a new scope below the scope of the definition. -/
  | script (params : List String) (body : Block) (home : ScopeId)
  /-- Constructs an object of the parent class and merges it into the object
  under construction whose scope is `target`. -/
  | super (parent : Class) (target : ScopeId)

/-- One overload of a name. -/
structure Callable where
  name : String
  signature : Signature
  body : Callable.Body

namespace Callable

/-- An overload that the host provides. -/
def ofHost (name : String) (signature : Signature) (function : HostFunction) : Callable :=
  ⟨name, signature, .host function⟩

/-- An overload that a script defines. -/
def ofScript (name : String) (params : List String) (body : Block) (home : ScopeId) : Callable :=
  ⟨name, .any params.length, .script params body home⟩

/-- An overload that constructs the parent part of an object. -/
def ofSuper (arity : Nat) (parent : Class) (target : ScopeId) : Callable :=
  ⟨superName, .any arity, .super parent target⟩

/-- Whether the host provides an overload. -/
def isHost (c : Callable) : Bool :=
  match c.body with
  | .host _ => true
  | _ => false

/-- An overload as diagnostics show it. -/
def text (c : Callable) : String :=
  "Callable(" ++ c.name ++ c.signature.text ++ ")"

/-- The first overload that takes the arguments. -/
def select? (candidates : List Callable) (args : List Value) : Option Callable :=
  candidates.find? fun c => c.signature.accepts args

end Callable

end RoutineScript
