/-
Which objects a store can hand out.

# Knowledge

Nobody can make up an object. Whatever a script or a host comes to hold is
mentioned by the value of a slot, by a function that was registered, or by
what it has got before. `Knows K` says that a store mentions no object
outside `K`, and that its host functions are honest: they return objects only
that were among their arguments, or that they keep.

An operation whose own values lie within `K` leaves a store knowing `K`.
-/
import RoutineScript.Proofs.Store.Operation
import Mathlib.Data.Set.Insert

namespace RoutineScript

-- ================================================================ mentions

/-- Data that may mention objects. `within K a` says that `a` mentions none
outside of `K`. -/
class Mentions (α : Type) where
  within : Set ScopeId → α → Prop
  mono : ∀ {K L : Set ScopeId} {a : α}, K ⊆ L → within K a → within L a

open Mentions (within)

/-- A function of the host is honest if the objects it returns are among its
arguments or among what it keeps. -/
def HostFunction.Honest (function : HostFunction) : Prop :=
  ∀ args host v state, function.run args host = (.ok v, state) →
    ∀ id ∈ v.objects, id ∈ Value.objectsIn args ∨ id ∈ Value.objectsIn function.keeps

section

variable {K L : Set ScopeId}

instance : Mentions Value where
  within K v := ∀ id ∈ v.objects, id ∈ K
  mono sub h id mem := sub (h id mem)

instance : Mentions Object where
  within K o := o.scope ∈ K
  mono sub h := sub h

instance : Mentions HostFunction where
  within K function := function.Honest ∧ ∀ v ∈ function.keeps, within K v
  mono sub h := ⟨h.1, fun v mem => Mentions.mono sub (h.2 v mem)⟩

instance : Mentions Callable where
  within K c := ∀ function, c.body = .host function → within K function
  mono sub h function body := Mentions.mono sub (h function body)

instance {α : Type} [Mentions α] : Mentions (List α) where
  within K items := ∀ a ∈ items, within K a
  mono sub h a mem := Mentions.mono sub (h a mem)

theorem within_objectsIn {vs : List Value} :
    within K vs ↔ ∀ id ∈ Value.objectsIn vs, id ∈ K := by
  induction vs with
  | nil => simp [within, Value.objectsIn]
  | cons v vs ih =>
    constructor
    · intro h id mem
      rw [Value.objectsIn, List.mem_append] at mem
      rcases mem with first | rest
      · exact h v List.mem_cons_self id first
      · exact ih.1 (fun w mem => h w (List.mem_cons_of_mem _ mem)) id rest
    · intro h w mem
      have rest := ih.2 fun id mem => h id (by rw [Value.objectsIn]; exact List.mem_append_right _ mem)
      rcases List.mem_cons.1 mem with rfl | mem
      · intro id mem
        exact h id (by rw [Value.objectsIn]; exact List.mem_append_left _ mem)
      · exact rest w mem

/-- A list value mentions what its elements mention. -/
theorem within_list {vs : List Value} : within K (Value.list vs) ↔ within K vs := by
  rw [within_objectsIn]
  show (∀ id ∈ (Value.list vs).objects, id ∈ K) ↔ _
  rw [Value.objects]

/-- A value that is no list and no object mentions nothing. -/
theorem within_of_objects_eq_nil {v : Value} (h : v.objects = []) : within K v := by
  intro id mem
  rw [h] at mem
  cases mem

/-- What an honest function returns was given to it. -/
theorem within_run {function : HostFunction} {args : List Value} {host state : HostState}
    {v : Value} (trusted : within K function) (known : within K args)
    (returned : function.run args host = (.ok v, state)) : within K v := by
  intro id mem
  rcases trusted.1 args host v state returned id mem with given | kept
  · exact within_objectsIn.1 known id given
  · exact within_objectsIn.1 trusted.2 id kept

/-- Scripts' definitions and the means of a construction keep nothing. -/
theorem within_ofScript (name : String) (params : List String) (body : Block) (home : ScopeId) :
    within K (Callable.ofScript name params body home) :=
  fun _ body => by cases body

theorem within_ofSuper (arity : Nat) (parent : Class) (target : ScopeId) :
    within K (Callable.ofSuper arity parent target) :=
  fun _ body => by cases body

-- =============================================================== knowledge

/-- All callables of a scope. -/
def Scope.callables (scope : Scope) : List Callable :=
  scope.procedures.all ++ scope.functions.all

namespace Scope

variable {scope : Scope} {name : String} {c : Callable}

@[simp] theorem callables_root : root.callables = [] :=
  rfl

/-- What is found by its name is one of the callables of the scope. -/
theorem mem_callables_of_procedure (mem : c ∈ scope.procedures.named name) :
    c ∈ scope.callables :=
  List.mem_append_left _ (List.mem_filter.1 mem).1

theorem mem_callables_of_function (mem : c ∈ scope.functions.named name) :
    c ∈ scope.callables :=
  List.mem_append_right _ (List.mem_filter.1 mem).1

theorem mem_callables_of_named
    (mem : c ∈ scope.procedures.named name ++ scope.functions.named name) :
    c ∈ scope.callables :=
  (List.mem_append.1 mem).elim mem_callables_of_procedure mem_callables_of_function

theorem mem_callables_of_ownProcedure (mem : c ∈ scope.procedures.ownNamed name) :
    c ∈ scope.callables :=
  List.mem_append_left _ (List.mem_append_left _ (List.mem_filter.1 mem).1)

end Scope

namespace Store

/-- In an empty store, nothing can be called from anywhere. -/
theorem callables_empty (id : ScopeId) : (empty.scope id).callables = [] :=
  rfl

/-- The store mentions no object outside of `K`. -/
structure Knows (s : Store) (K : Set ScopeId) : Prop where
  value : ∀ slot, within K (s.value slot)
  callable : ∀ id, within K (s.scope id).callables

variable {s : Store}

theorem Knows.mono (known : s.Knows K) (sub : K ⊆ L) : s.Knows L where
  value slot := Mentions.mono sub (known.value slot)
  callable id := Mentions.mono sub (known.callable id)

theorem knows_empty : empty.Knows K where
  value slot := within_of_objects_eq_nil (by simp [value, empty, Value.objects])
  callable id := by
    rw [callables_empty]
    exact List.forall_mem_nil _

/-- A change of a scope that adds no callables which mention more. -/
theorem Knows.modifyScope (known : s.Knows K) (id : ScopeId) {f : Scope → Scope}
    (callable : within K (f (s.scope id)).callables) : (s.modifyScope id f).Knows K where
  value := known.value
  callable key := by
    rcases scope_modifyScope_or s id f key with same | ⟨rfl, changed⟩
    · rw [same]
      exact known.callable key
    · rw [changed]
      exact callable

theorem Knows.addScope (known : s.Knows K) {scope : Scope}
    (callable : within K scope.callables) : (s.addScope scope).2.Knows K where
  value := known.value
  callable key := by
    rw [scope_addScope]
    split
    · exact callable
    · exact known.callable key

theorem Knows.addSlot (known : s.Knows K) {v : Value} (used : within K v) :
    (s.addSlot v).2.Knows K where
  value slot := by
    rw [value_addSlot]
    split
    · exact used
    · exact known.value slot
  callable := known.callable

theorem Knows.write (known : s.Knows K) (slot : SlotId) {v : Value} (used : within K v) :
    (s.write slot v).Knows K where
  value key := by
    by_cases inRange : slot.index < s.slots.size
    · rw [value_write s inRange]
      split
      · exact used
      · exact known.value key
    · rw [Store.write, Array.setIfInBounds_eq_of_size_le (Nat.not_lt.1 inRange)]
      exact known.value key
  callable := known.callable

theorem Knows.bindOwn (known : s.Knows K) (id : ScopeId) (name : String) {v : Value}
    (used : within K v) : (s.bindOwn id name v).Knows K :=
  (known.addSlot used).modifyScope id (known.callable id)

theorem Knows.bindInherited (known : s.Knows K) (id : ScopeId) (name : String) {v : Value}
    (used : within K v) : (s.bindInherited id name v).Knows K :=
  (known.addSlot used).modifyScope id (known.callable id)

theorem Knows.declare (known : s.Knows K) (id : ScopeId) (name : String) {v : Value}
    (used : within K v) : (s.declare id name v).2.Knows K := by
  rcases s.declare_cases id name v with ⟨_, h⟩ | h <;> rw [h]
  · exact known
  · exact known.bindOwn id name used

theorem Knows.assign (known : s.Knows K) (id : ScopeId) (name : String) {v : Value}
    (used : within K v) : (s.assign id name v).2.Knows K := by
  rcases s.assign_cases id name v with ⟨_, h⟩ | h | ⟨slot, -, h⟩ <;> rw [h]
  · exact known
  · exact known.bindOwn id name used
  · exact known.write slot used

theorem Knows.remove (known : s.Knows K) (id : ScopeId) (name : String) :
    (s.remove id name).2.Knows K := by
  rcases s.remove_cases id name with ⟨_, h⟩ | ⟨_, h⟩ | ⟨_, h⟩ <;> rw [h]
  · exact known
  · exact known.modifyScope id (known.callable id)
  · exact known.modifyScope id (known.callable id)

/-- What can be looked up is known. -/
theorem Knows.lookup (known : s.Knows K) {id : ScopeId} {name : String} {v : Value}
    (eq : s.lookup id name = .ok v) : within K v := by
  unfold Store.lookup Store.get? at eq
  cases found : (s.scope id).bindings.get? name with
  | none =>
    rw [found] at eq
    cases eq
  | some slot =>
    rw [found] at eq
    cases eq
    exact known.value slot

/-- The last value of a removed variable is known. -/
theorem Knows.removed (known : s.Knows K) {id : ScopeId} {name : String} {v : Value}
    (eq : (s.remove id name).1 = .ok v) : within K v := by
  unfold Store.remove at eq
  simp only at eq
  split at eq
  · cases eq
    exact known.value _
  · cases eq
    exact known.value _
  · cases eq

-- --------------------------------------------------------------- callables

theorem Knows.addRoot (known : s.Knows K) : s.addRoot.2.Knows K :=
  known.addScope (List.forall_mem_nil _)

theorem Knows.addChild (known : s.Knows K) (parent : ScopeId) :
    (s.addChild parent).2.Knows K :=
  known.addScope fun c mem => known.callable parent c <| by
    simpa [Scope.callables, Scope.below, Overloads.snapshot, Overloads.all] using mem

/-- A scope that gets at most one callable more. -/
theorem Knows.addCallable (known : s.Knows K) (id : ScopeId) {c : Callable}
    (used : within K c) {f : Scope → Scope}
    (adds : ∀ d ∈ (f (s.scope id)).callables, d = c ∨ d ∈ (s.scope id).callables) :
    (s.modifyScope id f).Knows K := by
  refine known.modifyScope id fun d mem => ?_
  rcases adds d mem with added | before
  · rw [added]
    exact used
  · exact known.callable id d before

theorem Knows.addProcedure (known : s.Knows K) (id : ScopeId) {c : Callable}
    (used : within K c) : (s.addProcedure id c).Knows K := by
  refine known.addCallable id used fun d mem => ?_
  simp only [Scope.callables, Overloads.add, Overloads.all, List.mem_append,
    List.mem_singleton] at mem ⊢
  grind

theorem Knows.addFunction (known : s.Knows K) (id : ScopeId) {c : Callable}
    (used : within K c) : (s.addFunction id c).Knows K := by
  refine known.addCallable id used fun d mem => ?_
  simp only [Scope.callables, Overloads.add, Overloads.all, List.mem_append,
    List.mem_singleton] at mem ⊢
  grind

theorem Knows.define (known : s.Knows K) (id : ScopeId) (name : String)
    (params : List String) (body : Block) : (s.define id name params body).2.Knows K := by
  rcases s.define_cases id name params body with ⟨_, h⟩ | h <;> rw [h]
  · exact known
  · have procedure := known.addProcedure id (within_ofScript name params body id)
    dsimp only
    split
    · exact procedure.addFunction id (within_ofScript name params body id)
    · exact procedure

theorem Knows.dropCallables (known : s.Knows K) (id : ScopeId) (name : String) :
    (s.dropCallables id name).Knows K :=
  known.modifyScope id fun c mem => known.callable id c <| by
    simp only [Scope.callables, Overloads.drop, Overloads.all, List.mem_append,
      List.mem_filter] at mem ⊢
    grind

theorem Knows.merge (known : s.Knows K) (id base : ScopeId) : (s.merge id base).Knows K := by
  refine known.modifyScope id fun c mem => ?_
  have mem : c ∈ (s.scope id).callables ∨ c ∈ (s.scope base).callables := by
    simp only [Scope.callables, Scope.merge, Overloads.merge, Overloads.all,
      List.mem_append] at mem ⊢
    grind
  rcases mem with own | taken
  · exact known.callable id c own
  · exact known.callable base c taken

theorem Knows.inheritAnew (known : s.Knows K) (id : ScopeId) : (s.inheritAnew id).Knows K := by
  unfold Store.inheritAnew
  split
  · exact known
  · next parent _ =>
    refine known.modifyScope id fun c mem => ?_
    have mem : c ∈ (s.scope id).callables ∨ c ∈ (s.scope parent).callables := by
      simp only [Scope.callables, Scope.inherit, Overloads.inherit, Overloads.all,
        List.mem_append] at mem ⊢
      grind
    rcases mem with own | inherited
    · exact known.callable id c own
    · exact known.callable parent c inherited

theorem Knows.noteSuper (known : s.Knows K) (id : ScopeId) : (s.noteSuper id).Knows K := by
  have noted : (s.modifyScope id Scope.noted).Knows K :=
    known.modifyScope id (known.callable id)
  rw [noteSuper_eq]
  split
  · exact noted
  · exact noted.inheritAnew _

end Store

-- ============================================================== operations

/-- The values and functions of an operation mention no object outside of
`K`. -/
def Operation.Uses (K : Set ScopeId) : Operation → Prop
  | declare _ _ v | declareInherited _ _ v | assign _ _ v => within K v
  | register _ _ _ _ function => within K function
  | root | child _ | remove _ _ | declareClass _ _ _ _ => True

theorem Operation.Uses.mono {op : Operation} (sub : K ⊆ L) (uses : op.Uses K) : op.Uses L := by
  cases op with
  | declare | declareInherited | assign | register => exact Mentions.mono sub uses
  | root | child | remove | declareClass => trivial

/-- Knowledge is kept by operations that use it. -/
theorem Store.Knows.perform {s : Store} (known : s.Knows K) {op : Operation}
    (uses : op.Uses K) : (op.perform s).2.Knows K := by
  cases op with
  | root => exact known.addRoot
  | child parent => exact known.addChild parent
  | declare id name v => exact known.declare id name uses
  | declareInherited id name v =>
    simp only [Operation.perform]
    rcases s.declareInherited_cases id name v with ⟨_, h⟩ | h <;> rw [h]
    · exact known
    · exact known.bindInherited id name uses
  | assign id name v => exact known.assign id name uses
  | remove id name => exact known.remove id name
  | register id name signature returning function =>
    have trusted : within K (Callable.ofHost name signature function) := by
      intro _ mem
      cases mem
      exact uses
    simp only [Operation.perform]
    rcases s.register_cases id name signature returning function with ⟨_, h⟩ | h <;> rw [h]
    · exact known
    · cases returning
      · exact known.addProcedure id trusted
      · exact known.addFunction id trusted
  | declareClass id name parent body =>
    simp only [Operation.perform]
    rcases s.introduceClass_cases id name parent body with ⟨_, h⟩ | ⟨c, rfl, h⟩ <;> rw [h]
    · exact known
    · exact known.modifyScope c.home (known.callable c.home)

end

end RoutineScript
