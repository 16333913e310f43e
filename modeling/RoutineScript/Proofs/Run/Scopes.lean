/-
What a change makes of a scope.

`Change.Makes` tells, for each change, what the scope at a place may have
become: one inversion of all changes, from which the invariants of scopes are
read off. The first to be read off are where the callables and the classes
that a scope sees have come from. They have been seen before, from the same
scope or from its parent; or the change has brought them; or they came with
a merge, which copies what the merged object has declared itself.
-/
import RoutineScript.Proofs.Run.Change

namespace RoutineScript

-- ================================================================== tables

namespace Table

variable {α : Type} {t other : Table α} {name : String} {a : α}

theorem get?_eq_some : t.get? name = some a ↔
    t.own[name]? = some a ∨ t.own[name]? = none ∧ t.inherited[name]? = some a := by
  unfold get?
  cases t.own[name]? <;> simp

/-- An entry that is seen after a merge was seen in one of the two tables. -/
theorem seen_of_merge (found : (t.merge other).get? name = some a) :
    t.get? name = some a ∨ other.get? name = some a := by
  simp only [get?_eq_some, getElem?_own_merge] at found ⊢
  cases own : t.own[name]? with
  | some b =>
    rw [own] at found
    exact .inl (.inl (by simpa using found))
  | none =>
    rw [own] at found
    rcases found with taken | ⟨-, inherited⟩
    · exact .inr (.inl taken)
    · exact .inl (.inr ⟨rfl, inherited⟩)

/-- So it was after a table has inherited anew. -/
theorem seen_of_inherit (found : (t.inherit other).get? name = some a) :
    t.get? name = some a ∨ other.get? name = some a := by
  rcases get?_eq_some.1 found with own | ⟨-, inherited⟩
  · exact .inl (get?_eq_some.2 (.inl own))
  · exact .inr (getElem?_visible other name ▸ inherited)

end Table

-- =============================================================== overloads

namespace Overloads

variable {o other : Overloads} {c d : Callable} {name : String}

theorem mem_all_of_own (mem : d ∈ o.own) : d ∈ o.all :=
  List.mem_append_left _ mem

@[simp] theorem mem_all_snapshot : d ∈ o.snapshot.all ↔ d ∈ o.all := by
  simp [snapshot, all]

@[simp] theorem mem_all_add : d ∈ (o.add c).all ↔ d = c ∨ d ∈ o.all := by
  simp only [add, all, List.mem_append, List.mem_singleton]
  grind

@[simp] theorem mem_all_drop : d ∈ (o.drop name).all ↔ d ∈ o.all ∧ d.name ≠ name := by
  simp only [drop, all, List.mem_append, List.mem_filter, bne_iff_ne]
  grind

@[simp] theorem mem_all_merge : d ∈ (o.merge other).all ↔ d ∈ o.all ∨ d ∈ other.own := by
  simp only [merge, all, List.mem_append]
  grind

@[simp] theorem mem_all_inherit : d ∈ (o.inherit other).all ↔ d ∈ o.own ∨ d ∈ other.all := by
  simp only [inherit, all, List.mem_append]

end Overloads

/-- The callables that a scope has declared itself. -/
def Scope.ownCallables (scope : Scope) : List Callable :=
  scope.procedures.own ++ scope.functions.own

theorem Scope.mem_callables {scope : Scope} {d : Callable} :
    d ∈ scope.callables ↔ d ∈ scope.procedures.all ∨ d ∈ scope.functions.all :=
  List.mem_append

theorem Scope.mem_ownCallables {scope : Scope} {d : Callable} :
    d ∈ scope.ownCallables ↔ d ∈ scope.procedures.own ∨ d ∈ scope.functions.own :=
  List.mem_append

theorem Scope.mem_callables_of_own {scope : Scope} {d : Callable} (mem : d ∈ scope.ownCallables) :
    d ∈ scope.callables := by
  rw [mem_ownCallables] at mem
  rw [mem_callables]
  exact mem.imp Overloads.mem_all_of_own Overloads.mem_all_of_own

namespace Store

variable {s : Store} {id : ScopeId}

/-- Where there is no scope, nothing has been declared. -/
theorem scope_of_size_le (absent : s.scopes.size ≤ id.index) : s.scope id = .root := by
  rw [scope, Array.getD_eq_getD_getElem?, Array.getElem?_eq_none absent]
  rfl

theorem lt_of_mem_callables {d : Callable} (mem : d ∈ (s.scope id).callables) :
    id.index < s.scopes.size := by
  refine Nat.lt_of_not_le fun absent => ?_
  rw [scope_of_size_le absent, Scope.callables_root] at mem
  cases mem

theorem lt_of_parent {parent : ScopeId} (isParent : (s.scope id).parent = some parent) :
    id.index < s.scopes.size := by
  refine Nat.lt_of_not_le fun absent => ?_
  rw [scope_of_size_le absent] at isParent
  cases isParent

theorem lt_of_frame {frame : ScopeId} (isFrame : (s.scope id).construction.frame = some frame) :
    id.index < s.scopes.size := by
  refine Nat.lt_of_not_le fun absent => ?_
  rw [scope_of_size_le absent] at isFrame
  cases isFrame

end Store

-- =================================================================== scopes

namespace Change

/-- The classes that a change may declare. -/
def Introduces : Change → Class → Prop
  | declareClass c, d => d = c
  | operation (.declareClass ..), _ => True
  | _, _ => False

/-- What a change can make of the scope at a place. -/
inductive Makes (s : Store) (key : ScopeId) : Change → Scope → Prop where
  | same {c : Change} : Makes s key c (s.scope key)
  | root : s.scopes.size ≤ key.index → Makes s key (.operation .root) .root
  | child {parent : ScopeId} : s.scopes.size ≤ key.index →
      Makes s key (.operation (.child parent)) ((s.scope parent).below parent)
  /-- Only a removal takes own names away. -/
  | bind {op : Operation} {bindings : Table SlotId} :
      ((∀ id name, op ≠ .remove id name) →
        ∀ name ∈ (s.scope key).bindings.own, name ∈ bindings.own) →
      Makes s key (.operation op) { s.scope key with bindings }
  | procedure {name : String} {signature : Signature} {function : HostFunction} :
      Makes s key (.operation (.register key name signature false function))
        { s.scope key with
          procedures := (s.scope key).procedures.add (.ofHost name signature function) }
  | function {name : String} {signature : Signature} {function : HostFunction} :
      Makes s key (.operation (.register key name signature true function))
        { s.scope key with
          functions := (s.scope key).functions.add (.ofHost name signature function) }
  | define {name : String} {params : List String} {body : Block} {functions : Overloads} :
      functions = (s.scope key).functions ∨
        functions = (s.scope key).functions.add (.ofScript name params body key) →
      Makes s key (.define key name params body)
        { s.scope key with
          procedures := (s.scope key).procedures.add (.ofScript name params body key), functions }
  | introduce {c : Change} {d : Class} : c.Introduces d →
      Makes s key c { s.scope key with classes := (s.scope key).classes.insertOwn d.name d }
  | offer {d : Callable} :
      Makes s key (.offer key d)
        { s.scope key with procedures := (s.scope key).procedures.add d }
  | drop {name : String} :
      Makes s key (.dropCallables key name)
        { s.scope key with
          procedures := (s.scope key).procedures.drop name
          functions := (s.scope key).functions.drop name }
  | frame {frame : ScopeId} :
      Makes s key (.noteFrame key frame)
        { s.scope key with
          construction := { (s.scope key).construction with frame := some frame } }
  | merge {base : ScopeId} : Makes s key (.merge key base) ((s.scope key).merge (s.scope base) base)
  /-- The books are kept for one object. -/
  | noted {id : ScopeId} {construction : Construction} :
      (id ≠ key → construction = (s.scope key).construction) →
      Makes s key (.noteSuper id) { s.scope key with construction }
  /-- The frame of its constructor inherits anew. -/
  | inherit {id parent : ScopeId} {construction : Construction} :
      (id ≠ key → construction = (s.scope key).construction) →
      (s.scope key).parent = some parent →
      Makes s key (.noteSuper id)
        { (s.scope key).inherit (s.scope parent) with construction }

variable {s : Store} {key : ScopeId}

/-- A change at one place does there what it does, and nothing elsewhere. -/
theorem makes_modifyScope {c : Change} {id : ScopeId} {f : Scope → Scope}
    (here : key = id → c.Makes s key (f (s.scope key))) :
    c.Makes s key ((s.modifyScope id f).scope key) := by
  rcases s.scope_modifyScope_or id f key with same | ⟨rfl, changed⟩
  · rw [same]
    exact .same
  · rw [changed]
    exact here rfl

theorem makes_addScope {c : Change} {scope : Scope}
    (here : s.scopes.size ≤ key.index → c.Makes s key scope) :
    c.Makes s key ((s.addScope scope).2.scope key) := by
  rw [Store.scope_addScope]
  split
  · next born =>
    rw [← born] at here ⊢
    exact here (Nat.le_refl _)
  · exact .same

theorem makes_bindOwn {op : Operation} {id : ScopeId} {name : String} {v : Value} :
    Makes s key (.operation op) ((s.bindOwn id name v).scope key) := by
  rcases s.scope_bindOwn_or id name v key with same | ⟨rfl, bound⟩
  · rw [same]
    exact .same
  · rw [bound]
    refine .bind fun _ other mem => ?_
    rw [Table.insertOwn, Std.TreeMap.mem_insert]
    exact .inr mem

theorem makes_perform (op : Operation) : Makes s key (.operation op) ((op.perform s).2.scope key) := by
  cases op with
  | root => exact makes_addScope .root
  | child parent => exact makes_addScope .child
  | declare id name v =>
    simp only [Operation.perform]
    rcases s.declare_cases id name v with ⟨_, h⟩ | h <;> rw [h]
    · exact .same
    · exact makes_bindOwn
  | declareInherited id name v =>
    simp only [Operation.perform]
    rcases s.declareInherited_cases id name v with ⟨_, h⟩ | h <;> rw [h]
    · exact .same
    · rcases s.scope_bindInherited_or id name v key with same | ⟨rfl, bound⟩
      · rw [same]
        exact .same
      · rw [bound]
        exact .bind fun _ _ => id
  | assign id name v =>
    simp only [Operation.perform]
    rcases s.assign_cases id name v with ⟨_, h⟩ | h | ⟨slot, -, h⟩ <;> rw [h]
    · exact .same
    · exact makes_bindOwn
    · exact .same
  | remove id name =>
    simp only [Operation.perform]
    rcases s.remove_cases id name with ⟨_, h⟩ | ⟨_, h⟩ | ⟨_, h⟩ <;> rw [h]
    · exact .same
    · exact makes_modifyScope fun _ => .bind fun plain => absurd rfl (plain id name)
    · exact makes_modifyScope fun _ => .bind fun plain => absurd rfl (plain id name)
  | register id name signature returning function =>
    simp only [Operation.perform]
    rcases s.register_cases id name signature returning function with ⟨_, h⟩ | h <;> rw [h]
    · exact .same
    · cases returning
      · exact makes_modifyScope fun here => here ▸ .procedure
      · exact makes_modifyScope fun here => here ▸ .function
  | declareClass id name parent body =>
    simp only [Operation.perform]
    rcases s.introduceClass_cases id name parent body with ⟨_, h⟩ | ⟨d, -, h⟩ <;> rw [h]
    · exact .same
    · exact makes_modifyScope fun _ => .introduce trivial

theorem makes_noteSuper {id : ScopeId} : Makes s key (.noteSuper id) ((s.noteSuper id).scope key) := by
  obtain ⟨construction, other, -, here⟩ := s.scope_noted id key
  rw [Store.noteSuper_eq]
  split
  · rw [here]
    exact .noted other
  · next frame _ =>
    rcases (s.modifyScope id Scope.noted).scope_inheritAnew_or frame key with
      same | ⟨rfl, parent, isParent, changed⟩
    · rw [same, here]
      exact .noted other
    · obtain ⟨_, -, -, above⟩ := s.scope_noted id parent
      rw [changed, here, above]
      rw [here] at isParent
      exact .inherit other isParent

/-- What a change can make of a scope, it has made. -/
theorem makes (c : Change) (s : Store) (key : ScopeId) : c.Makes s key ((c.apply s).scope key) := by
  cases c with
  | operation op => exact makes_perform op
  | host state => exact .same
  | define id name params body =>
    simp only [apply]
    rcases s.define_cases id name params body with ⟨_, h⟩ | h <;> rw [h]
    · exact .same
    · dsimp only
      split
      · rw [Store.addProcedure, Store.addFunction, Store.modifyScope_modifyScope]
        exact makes_modifyScope fun here => here ▸ .define (.inr rfl)
      · exact makes_modifyScope fun here => here ▸ .define (.inl rfl)
  | declareClass d => exact makes_modifyScope fun _ => .introduce rfl
  | offer id d => exact makes_modifyScope fun here => here ▸ .offer
  | dropCallables id name => exact makes_modifyScope fun here => here ▸ .drop
  | noteFrame id frame => exact makes_modifyScope fun here => here ▸ .frame
  | noteSuper id => exact makes_noteSuper
  | merge id base => exact makes_modifyScope fun here => here ▸ .merge

-- ============================================================ what is seen

/-- The callables that a change adds to a scope. -/
inductive Adds : Change → ScopeId → Callable → Prop where
  | register {id : ScopeId} {name : String} {signature : Signature} {returning : Bool}
      {function : HostFunction} :
      Adds (.operation (.register id name signature returning function)) id
        (.ofHost name signature function)
  | define {id : ScopeId} {name : String} {params : List String} {body : Block} :
      Adds (.define id name params body) id (.ofScript name params body id)
  | offer {id : ScopeId} {d : Callable} : Adds (.offer id d) id d

/-- No scope is lost. -/
theorem size_le_apply (c : Change) (s : Store) : s.scopes.size ≤ (c.apply s).scopes.size := by
  cases h : c.base? with
  | none =>
    obtain ⟨subject, grows⟩ := grows_apply h s
    exact grows.size_le
  | some base =>
    cases c with
    | merge id base => exact Nat.le_of_eq (s.scopes_size_modifyScope id _).symm
    | _ => cases h

/-- Scopes stay below their parents. -/
theorem parent_apply {c : Change} {parent : ScopeId}
    (isParent : (s.scope key).parent = some parent) :
    ((c.apply s).scope key).parent = some parent := by
  have inStore := Store.lt_of_parent isParent
  have made := c.makes s key
  generalize (c.apply s).scope key = scope at made
  cases made with
  | root absent | child absent => exact absurd inStore (Nat.not_lt.2 absent)
  | _ => exact isParent

/-- A callable that is seen after a change was seen before, from the same
scope or from its parent, or the change has added it, or it was declared by an
object that is merged into the scope. -/
theorem callable_of_apply {c : Change} {d : Callable} (mem : d ∈ ((c.apply s).scope key).callables) :
    d ∈ (s.scope key).callables ∨ c.Adds key d ∨
      (∃ parent, ((c.apply s).scope key).parent = some parent ∧ d ∈ (s.scope parent).callables) ∨
      ∃ base, c = .merge key base ∧ d ∈ (s.scope base).ownCallables := by
  have made := c.makes s key
  generalize (c.apply s).scope key = scope at made mem
  cases made with
  | same | bind | introduce | frame | noted => exact .inl mem
  | root absent => simp at mem
  | @child parent absent =>
    refine .inr (.inr (.inl ⟨parent, rfl, ?_⟩))
    simpa [Scope.mem_callables, Scope.below] using mem
  | procedure =>
    simp only [Scope.mem_callables, Overloads.mem_all_add] at mem
    rcases mem with (rfl | before) | before
    · exact .inr (.inl .register)
    · exact .inl (Scope.mem_callables.2 (.inl before))
    · exact .inl (Scope.mem_callables.2 (.inr before))
  | function =>
    simp only [Scope.mem_callables, Overloads.mem_all_add] at mem
    rcases mem with before | rfl | before
    · exact .inl (Scope.mem_callables.2 (.inl before))
    · exact .inr (.inl .register)
    · exact .inl (Scope.mem_callables.2 (.inr before))
  | offer =>
    simp only [Scope.mem_callables, Overloads.mem_all_add] at mem
    rcases mem with (rfl | before) | before
    · exact .inr (.inl .offer)
    · exact .inl (Scope.mem_callables.2 (.inl before))
    · exact .inl (Scope.mem_callables.2 (.inr before))
  | define twice =>
    simp only [Scope.mem_callables, Overloads.mem_all_add] at mem
    rcases mem with (rfl | before) | before
    · exact .inr (.inl .define)
    · exact .inl (Scope.mem_callables.2 (.inl before))
    · rcases twice with rfl | rfl
      · exact .inl (Scope.mem_callables.2 (.inr before))
      · rcases Overloads.mem_all_add.1 before with rfl | before
        · exact .inr (.inl .define)
        · exact .inl (Scope.mem_callables.2 (.inr before))
  | drop =>
    simp only [Scope.mem_callables, Overloads.mem_all_drop] at mem
    exact .inl (Scope.mem_callables.2 (mem.imp And.left And.left))
  | @merge base =>
    simp only [Scope.mem_callables, Scope.merge, Overloads.mem_all_merge] at mem
    rcases mem with (before | taken) | before | taken
    · exact .inl (Scope.mem_callables.2 (.inl before))
    · exact .inr (.inr (.inr ⟨base, rfl, Scope.mem_ownCallables.2 (.inl taken)⟩))
    · exact .inl (Scope.mem_callables.2 (.inr before))
    · exact .inr (.inr (.inr ⟨base, rfl, Scope.mem_ownCallables.2 (.inr taken)⟩))
  | @inherit id parent _ _ isParent =>
    simp only [Scope.mem_callables, Scope.inherit, Overloads.mem_all_inherit] at mem
    rcases mem with (own | before) | own | before
    · exact .inl (Scope.mem_callables_of_own (Scope.mem_ownCallables.2 (.inl own)))
    · exact .inr (.inr (.inl ⟨parent, isParent, Scope.mem_callables.2 (.inl before)⟩))
    · exact .inl (Scope.mem_callables_of_own (Scope.mem_ownCallables.2 (.inr own)))
    · exact .inr (.inr (.inl ⟨parent, isParent, Scope.mem_callables.2 (.inr before)⟩))

/-- So what holds of all callables in a store, and of those that a change
adds, still holds of all after the change. -/
theorem forall_callable_apply {P : Callable → Prop}
    (before : ∀ id, ∀ d ∈ (s.scope id).callables, P d) (c : Change)
    (adds : ∀ {id d}, c.Adds id d → P d) : ∀ id, ∀ d ∈ ((c.apply s).scope id).callables, P d := by
  intro id d mem
  rcases callable_of_apply mem with here | added | ⟨parent, -, above⟩ | ⟨base, -, own⟩
  · exact before id d here
  · exact adds added
  · exact before parent d above
  · exact before base d (Scope.mem_callables_of_own own)

/-- A class that is seen after a change was seen before, from somewhere, or
the change has declared it. -/
theorem class_of_apply {c : Change} {name : String} {d : Class}
    (found : ((c.apply s).scope key).classes.get? name = some d) :
    (∃ id, (s.scope id).classes.get? name = some d) ∨ c.Introduces d := by
  have made := c.makes s key
  generalize (c.apply s).scope key = scope at made found
  cases made with
  | same | bind | procedure | function | define | offer | drop | frame | noted =>
    exact .inl ⟨key, found⟩
  | root => simp [Scope.root, Table.empty, Table.get?] at found
  | @child parent =>
    rw [Scope.below, Table.get?_snapshot] at found
    exact .inl ⟨parent, found⟩
  | introduce introduces =>
    rw [Table.get?_insertOwn] at found
    split at found
    · cases found
      exact .inr introduces
    · exact .inl ⟨key, found⟩
  | @merge base =>
    left
    exact (Table.seen_of_merge found).elim (⟨key, ·⟩) (⟨base, ·⟩)
  | @inherit id parent =>
    left
    exact (Table.seen_of_inherit found).elim (⟨key, ·⟩) (⟨parent, ·⟩)

end Change

end RoutineScript
