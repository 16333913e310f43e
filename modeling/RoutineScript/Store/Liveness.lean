/-
Which scopes are alive. A scope is kept by the scopes that refer to it and
by whoever is working with it. It refers to its parent, to the objects
merged into it, to the objects that its variables hold and to those that its
host functions keep. Definitions and classes remember their home scopes
without keeping them.

A scope dies when nobody works with it and all scopes that refer to it have
died; scopes that keep one another stay. So the living are found by letting
all scopes live and taking away, again and again, those to whom no living
one refers.
-/
import RoutineScript.Store

namespace RoutineScript

-- =============================================================== references

namespace Value

/-- The scopes that some values keep alive. -/
def kept (values : List Value) : List ScopeId :=
  objectsIn values

end Value

/-- The scopes that a callable keeps alive. -/
def Callable.kept (c : Callable) : List ScopeId :=
  match c.body with
  | .host function => Value.kept function.keeps
  | .script .. | .super .. => []

/-- The parent of a scope and the objects merged into it. -/
def Scope.kin (scope : Scope) : List ScopeId :=
  scope.parent.toList ++ scope.bases

namespace Store

/-- The scopes that a scope keeps alive. -/
def references (s : Store) (scope : Scope) : List ScopeId :=
  let slots := scope.bindings.own.values ++ scope.bindings.inherited.values
  let callables := scope.procedures.all ++ scope.functions.all
  scope.kin ++ Value.kept (slots.map s.value) ++ callables.flatMap Callable.kept

-- ================================================================ the living

/-- Marks the scopes of a list. -/
def mark (marks : Array Bool) (ids : List ScopeId) : Array Bool :=
  ids.foldl (fun marks id => marks.setIfInBounds id.index true) marks

/-- The scopes that are worked with, or that a scope among `alive` refers to. -/
def supported (s : Store) (held : List ScopeId) (alive : Array Bool) : Array Bool :=
  (s.scopes.zip alive).foldl
    (fun marks (scope, lives) => if lives then mark marks (s.references scope) else marks)
    (mark (Array.replicate s.scopes.size false) held)

/-- Takes away the scopes to whom no living one refers, until none is left. -/
def settle (s : Store) (held : List ScopeId) (alive : Array Bool) : Nat → Array Bool
  | 0 => alive
  | rounds + 1 =>
    let next := (alive.zip (s.supported held alive)).map fun (lives, kept) => lives && kept
    if next = alive then alive else s.settle held next rounds

/-- The scopes that are alive while those in `held` are worked with. Each
round but the last takes a scope away, so there are no more rounds than
scopes. -/
def living (s : Store) (held : List ScopeId) : Array Bool :=
  s.settle held (Array.replicate s.scopes.size true) (s.scopes.size + 1)

-- ================================================================= shortcuts

/-- Whether a scope is met on the way from some others to their kin, and on
to theirs. The way is no longer than there are scopes. -/
def meets (s : Store) (target : ScopeId) : Nat → List ScopeId → Bool
  | 0, _ => false
  | _, [] => false
  | steps + 1, ids =>
    ids.contains target || s.meets target steps (ids.flatMap fun id => (s.scope id).kin)

/-- Whether a scope is alive while those in `held` are worked with. The kin
of a held scope need no search. -/
def isLive (s : Store) (held : List ScopeId) (id : ScopeId) : Bool :=
  held.any (fun h => s.meets id s.scopes.size [h]) || (s.living held).getD id.index false

end Store

end RoutineScript
