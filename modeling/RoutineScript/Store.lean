/-
The store: everything a run can change. A scope holds names, not values: a
variable names a slot, and a scope below may have inherited the same slot.
So assigning an inherited name writes through to all who share it, while
assigning an own name takes a fresh slot and leaves snapshots as they were.

Each operation that can be refused decides first and changes after, so one
that is refused changes nothing. Scopes and slots are never taken out of the
store; which scopes are still alive is told in `Store/Liveness.lean`.
-/
import RoutineScript.Name
import RoutineScript.Store.Table

namespace RoutineScript

/-- The place of a variable's value in the store. -/
structure SlotId where
  index : Nat
  deriving DecidableEq, Repr

/-- How far the construction of an object has come. -/
structure Construction where
  /-- The parent part has been constructed. -/
  superInvoked : Bool
  /-- The scope in which the constructor is running. -/
  frame : Option ScopeId

/-- One scope: its place among the others and its tables. -/
structure Scope where
  parent : Option ScopeId
  /-- The objects whose members were merged into this one. -/
  bases : List ScopeId
  bindings : Table SlotId
  /-- What may be called as a statement. -/
  procedures : Overloads
  /-- What may be called for its value. -/
  functions : Overloads
  classes : Table Class
  /-- Of interest while the scope is that of an object under construction. -/
  construction : Construction

namespace Scope

/-- A scope without a parent. -/
def root : Scope where
  parent := none
  bases := []
  bindings := .empty
  procedures := .empty
  functions := .empty
  classes := .empty
  construction := ⟨false, none⟩

instance : Inhabited Scope := ⟨root⟩

/-- A scope below the one that is stored at `id`, with what it inherits. -/
def below (parent : Scope) (id : ScopeId) : Scope where
  parent := some id
  bases := []
  bindings := parent.bindings.snapshot
  procedures := parent.procedures.snapshot
  functions := parent.functions.snapshot
  classes := parent.classes.snapshot
  construction := ⟨false, none⟩

/-- A scope that inherits anew from its parent. -/
def inherit (scope parent : Scope) : Scope :=
  { scope with
    bindings := scope.bindings.inherit parent.bindings
    procedures := scope.procedures.inherit parent.procedures
    functions := scope.functions.inherit parent.functions
    classes := scope.classes.inherit parent.classes }

/-- A scope that takes over the members which another one declared. -/
def merge (scope base : Scope) (id : ScopeId) : Scope :=
  { scope with
    bases := scope.bases ++ [id]
    bindings := scope.bindings.merge base.bindings
    procedures := scope.procedures.merge base.procedures
    functions := scope.functions.merge base.functions
    classes := scope.classes.merge base.classes }

end Scope

/-- All scopes and all values of variables, and the state of the host. -/
structure Store where
  slots : Array Value
  scopes : Array Scope
  host : HostState

namespace Store

/-- A store without scopes. -/
def empty : Store := ⟨#[], #[], .start⟩

instance : Inhabited Store := ⟨empty⟩

-- =================================================================== scopes

/-- The scope at a place. -/
def scope (s : Store) (id : ScopeId) : Scope :=
  s.scopes.getD id.index default

/-- Changes the scope at a place. -/
def modifyScope (s : Store) (id : ScopeId) (f : Scope → Scope) : Store :=
  { s with scopes := s.scopes.modify id.index f }

/-- Adds a scope. -/
def addScope (s : Store) (scope : Scope) : ScopeId × Store :=
  (⟨s.scopes.size⟩, { s with scopes := s.scopes.push scope })

/-- Adds a scope without a parent. -/
def addRoot (s : Store) : ScopeId × Store :=
  s.addScope .root

/-- Adds a scope below another one. -/
def addChild (s : Store) (parent : ScopeId) : ScopeId × Store :=
  s.addScope ((s.scope parent).below parent)

/-- Lets a scope inherit anew what its parent now has. -/
def inheritAnew (s : Store) (id : ScopeId) : Store :=
  match (s.scope id).parent with
  | none => s
  | some parent =>
    let parentScope := s.scope parent
    s.modifyScope id fun scope => scope.inherit parentScope

-- ================================================================ variables

/-- The value in a slot. -/
def value (s : Store) (slot : SlotId) : Value :=
  s.slots.getD slot.index .null

/-- The value of a variable that is visible from a scope. -/
def get? (s : Store) (id : ScopeId) (name : String) : Option Value :=
  ((s.scope id).bindings.get? name).map s.value

/-- The value of a variable that must be visible from a scope. -/
def lookup (s : Store) (id : ScopeId) (name : String) : Except Fault Value :=
  match s.get? id name with
  | some v => .ok v
  | none => .error (Cause.notFound name)

/-- The value of a variable that a scope must have declared itself. -/
def lookupOwn (s : Store) (id : ScopeId) (name : String) : Except Fault Value :=
  match (s.scope id).bindings.own[name]? with
  | some slot => .ok (s.value slot)
  | none => .error (Cause.notFound name)

/-- The value of a variable that a scope must have inherited. -/
def lookupInherited (s : Store) (id : ScopeId) (name : String) : Except Fault Value :=
  match (s.scope id).bindings.inherited[name]? with
  | some slot => .ok (s.value slot)
  | none => .error (Cause.notFound name)

/-- The variables that are visible from a scope with their values, by name. -/
def visible (s : Store) (id : ScopeId) : List (String × Value) :=
  (s.scope id).bindings.visible.toList.map fun (name, slot) => (name, s.value slot)

/-- Takes a fresh slot for a value. -/
def addSlot (s : Store) (v : Value) : SlotId × Store :=
  (⟨s.slots.size⟩, { s with slots := s.slots.push v })

/-- Binds a name of a scope to a fresh slot. -/
def bindOwn (s : Store) (id : ScopeId) (name : String) (v : Value) : Store :=
  let (slot, s) := s.addSlot v
  s.modifyScope id fun scope =>
    { scope with bindings := scope.bindings.insertOwn name slot }

/-- Binds a name of a scope to a fresh slot as though it were inherited. -/
def bindInherited (s : Store) (id : ScopeId) (name : String) (v : Value) : Store :=
  let (slot, s) := s.addSlot v
  s.modifyScope id fun scope =>
    { scope with bindings := scope.bindings.insertInherited name slot }

/-- Replaces the value in a slot, for all scopes that share it. -/
def write (s : Store) (slot : SlotId) (v : Value) : Store :=
  { s with slots := s.slots.setIfInBounds slot.index v }

/-- Declares a variable of a scope, or declares it again. -/
def declare (s : Store) (id : ScopeId) (name : String) (v : Value) : Except Fault Unit × Store :=
  match Name.check name with
  | .error fault => (.error fault, s)
  | .ok () => (.ok (), s.bindOwn id name v)

/-- Declares a variable as though the scope had inherited it. -/
def declareInherited (s : Store) (id : ScopeId) (name : String) (v : Value) :
    Except Fault Unit × Store :=
  match Name.check name with
  | .error fault => (.error fault, s)
  | .ok () => (.ok (), s.bindInherited id name v)

/-- How an assignment finds its variable. -/
inductive Target where
  /-- An own name, bound anew to a fresh slot. -/
  | own
  /-- An inherited name, written through its slot. -/
  | shared (slot : SlotId)
  /-- An unknown name, to be declared. -/
  | unknown

/-- How an assignment of a name finds its variable in a scope. -/
def target (s : Store) (id : ScopeId) (name : String) : Target :=
  let bindings := (s.scope id).bindings
  if bindings.own.contains name then .own
  else
    match bindings.inherited[name]? with
    | some slot => .shared slot
    | none => .unknown

/-- Assigns a variable. -/
def assign (s : Store) (id : ScopeId) (name : String) (v : Value) : Except Fault Unit × Store :=
  match s.target id name with
  | .own => (.ok (), s.bindOwn id name v)
  | .shared slot => (.ok (), s.write slot v)
  | .unknown => s.declare id name v

/-- Removes a variable from a scope and tells its last value. An own name is
removed before an inherited one, which then shows again. -/
def remove (s : Store) (id : ScopeId) (name : String) : Except Fault Value × Store :=
  let bindings := (s.scope id).bindings
  match bindings.own[name]?, bindings.inherited[name]? with
  | some slot, _ =>
    let v := s.value slot
    (.ok v, s.modifyScope id fun scope =>
      { scope with bindings := { scope.bindings with own := scope.bindings.own.erase name } })
  | none, some slot =>
    let v := s.value slot
    (.ok v, s.modifyScope id fun scope =>
      { scope with
        bindings := { scope.bindings with inherited := scope.bindings.inherited.erase name } })
  | none, none => (.error (Cause.notFound name), s)

-- =============================================== callables, classes, members

/-- Adds a callable that a statement may call. -/
def addProcedure (s : Store) (id : ScopeId) (c : Callable) : Store :=
  s.modifyScope id fun scope => { scope with procedures := scope.procedures.add c }

/-- Adds a callable that may be called for its value. -/
def addFunction (s : Store) (id : ScopeId) (c : Callable) : Store :=
  s.modifyScope id fun scope => { scope with functions := scope.functions.add c }

/-- Drops every callable of a name from a scope. -/
def dropCallables (s : Store) (id : ScopeId) (name : String) : Store :=
  s.modifyScope id fun scope =>
    { scope with
      procedures := scope.procedures.drop name
      functions := scope.functions.drop name }

/-- Registers a function of the host. -/
def register (s : Store) (id : ScopeId) (name : String) (signature : Signature)
    (returning : Bool) (function : HostFunction) : Except Fault Unit × Store :=
  match Name.check name with
  | .error fault => (.error fault, s)
  | .ok () =>
    let c := Callable.ofHost name signature function
    (.ok (), if returning then s.addFunction id c else s.addProcedure id c)

/-- The first of some names that may not be declared. -/
def checkNames : List String → Except Fault Unit
  | [] => .ok ()
  | name :: names =>
    match Name.check name with
    | .error fault => .error fault
    | .ok () => checkNames names

/-- Defines a callable of a script. Every definition may be called as a
statement; one that mentions `return` may be called for its value too. -/
def define (s : Store) (id : ScopeId) (name : String) (params : List String) (body : Block) :
    Except Fault Unit × Store :=
  match checkNames (name :: params) with
  | .error fault => (.error fault, s)
  | .ok () =>
    let c := Callable.ofScript name params body id
    let s := s.addProcedure id c
    (.ok (), if Block.mentionsReturn body then s.addFunction id c else s)

/-- Declares a class in the scope that is its home. -/
def declareClass (s : Store) (c : Class) : Store :=
  s.modifyScope c.home fun scope =>
    { scope with classes := scope.classes.insertOwn c.name c }

/-- The class of a name that is visible from a scope. -/
def class? (s : Store) (id : ScopeId) (name : String) : Option Class :=
  (s.scope id).classes.get? name

/-- Takes the members that an object declared over into another one, which
keeps what it has declared itself. -/
def merge (s : Store) (id base : ScopeId) : Store :=
  let baseScope := s.scope base
  s.modifyScope id fun scope => scope.merge baseScope base

/-- Notes the scope in which the constructor of an object runs. -/
def noteFrame (s : Store) (id frame : ScopeId) : Store :=
  s.modifyScope id fun scope =>
    { scope with construction := { scope.construction with frame := some frame } }

/-- Notes that the parent part of an object is there, and lets its running
constructor see the members that came with it. -/
def noteSuper (s : Store) (id : ScopeId) : Store :=
  let s := s.modifyScope id fun scope =>
    { scope with construction := { scope.construction with superInvoked := true } }
  match (s.scope id).construction.frame with
  | none => s
  | some frame => s.inheritAnew frame

/-- Calls a function of the host. -/
def callHost (s : Store) (function : HostFunction) (args : List Value) :
    Except Fault Value × Store :=
  let host := s.host
  let s := { s with host := .start }
  let (result, host) := function.run args host
  (result, { s with host })

-- ====================================================== what a change shows

/-- A change of one scope shows at its place and nowhere else. -/
theorem scope_modifyScope (s : Store) {id : ScopeId} (h : id.index < s.scopes.size)
    (f : Scope → Scope) (key : ScopeId) :
    (s.modifyScope id f).scope key = if id = key then f (s.scope key) else s.scope key := by
  by_cases hk : id = key
  · subst hk
    simp [scope, modifyScope, Array.getD_eq_getD_getElem?, h, Array.getElem_modify]
  · have hi : id.index ≠ key.index := fun e => hk (by cases id; cases key; simp_all)
    simp [scope, modifyScope, Array.getD_eq_getD_getElem?, Array.getElem?_modify, hk, hi]

@[simp] theorem slots_modifyScope (s : Store) (id : ScopeId) (f : Scope → Scope) :
    (s.modifyScope id f).slots = s.slots := rfl

@[simp] theorem value_modifyScope (s : Store) (id : ScopeId) (f : Scope → Scope)
    (slot : SlotId) : (s.modifyScope id f).value slot = s.value slot := rfl

/-- A new scope is at the place that is told, and the others stay. -/
theorem scope_addScope (s : Store) (scope : Scope) (key : ScopeId) :
    (s.addScope scope).2.scope key =
      if (s.addScope scope).1 = key then scope else s.scope key := by
  by_cases hk : key.index = s.scopes.size
  · have : (⟨s.scopes.size⟩ : ScopeId) = key := by cases key; simp_all
    simp [Store.scope, addScope, Array.getD_eq_getD_getElem?, hk, this]
  · have : (⟨s.scopes.size⟩ : ScopeId) ≠ key := fun e => hk (e ▸ rfl)
    simp [Store.scope, addScope, Array.getD_eq_getD_getElem?, Array.getElem?_push, hk, this]

@[simp] theorem value_addScope (s : Store) (scope : Scope) (slot : SlotId) :
    (s.addScope scope).2.value slot = s.value slot := rfl

/-- A new scope sees what its parent sees. -/
theorem get?_addChild (s : Store) (parent : ScopeId) (name : String) :
    (s.addChild parent).2.get? (s.addChild parent).1 name = s.get? parent name := by
  have value_eq : (s.addChild parent).2.value = s.value := rfl
  rw [get?, get?, value_eq, addChild, scope_addScope, if_pos rfl]
  exact congrArg (Option.map s.value) (Table.get?_snapshot _ name)

/-- A write shows in its slot and nowhere else. -/
theorem value_write (s : Store) {slot : SlotId} (h : slot.index < s.slots.size) (v : Value)
    (key : SlotId) :
    (s.write slot v).value key = if slot = key then v else s.value key := by
  by_cases hk : slot = key
  · subst hk
    simp [value, write, Array.getD_eq_getD_getElem?, h]
  · have hi : slot.index ≠ key.index := fun e => hk (by cases slot; cases key; simp_all)
    simp [value, write, Array.getD_eq_getD_getElem?, hk, hi]

@[simp] theorem scope_write (s : Store) (slot : SlotId) (v : Value) (id : ScopeId) :
    (s.write slot v).scope id = s.scope id := rfl

/-- A fresh slot holds its value, and the others keep theirs. -/
theorem value_addSlot (s : Store) (v : Value) (key : SlotId) :
    (s.addSlot v).2.value key = if (s.addSlot v).1 = key then v else s.value key := by
  by_cases hk : key.index = s.slots.size
  · have : (⟨s.slots.size⟩ : SlotId) = key := by cases key; simp_all
    simp [value, addSlot, Array.getD_eq_getD_getElem?, hk, this]
  · have : (⟨s.slots.size⟩ : SlotId) ≠ key := fun e => hk (e ▸ rfl)
    simp [value, addSlot, Array.getD_eq_getD_getElem?, Array.getElem?_push, hk, this]

end Store

end RoutineScript
