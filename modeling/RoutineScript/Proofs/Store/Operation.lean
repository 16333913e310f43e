/-
What a host can do to the scopes of a store without running a script, one
operation at a time, and what each operation leaves alone.

# The frame of an operation

Apart from the values in slots, an operation changes the tables of one scope
at most, its `subject`; a new scope has no say in those that are there. The
values in slots change in one way only: an assignment of an inherited name
is written through the slot that the name is bound to (`WritesThrough`). All
other assignments and declarations put their value into a slot that nothing
was bound to. And an operation that is refused has done nothing yet.
-/
import RoutineScript.Proofs.Store.Bindings

namespace RoutineScript

/-- What a host can do to the scopes of a store. -/
inductive Operation where
  | root
  | child (parent : ScopeId)
  | declare (id : ScopeId) (name : String) (v : Value)
  | declareInherited (id : ScopeId) (name : String) (v : Value)
  | assign (id : ScopeId) (name : String) (v : Value)
  | remove (id : ScopeId) (name : String)
  | register (id : ScopeId) (name : String) (signature : Signature) (returning : Bool)
      (function : HostFunction)
  /-- Declares a class whose parent, if it has one, is named. -/
  | declareClass (id : ScopeId) (name : String) (parent : Option String) (body : Block)

namespace Store

/-- The class of a name that is to be a parent, if one is named. -/
def parentClass (s : Store) (id : ScopeId) : Option String → Except Fault (Option Class)
  | none => .ok none
  | some name =>
    match s.class? id name with
    | some c => .ok (some c)
    | none => .error (Cause.notFound name)

/-- Declares a class in a scope, if its name may be declared and its parent
is there. -/
def introduceClass (s : Store) (id : ScopeId) (name : String) (parent : Option String)
    (body : Block) : Except Fault Unit × Store :=
  match Name.check name with
  | .error fault => (.error fault, s)
  | .ok () =>
    match s.parentClass id parent with
    | .error fault => (.error fault, s)
    | .ok parent =>
      let arities := Block.arities body constructorName
      (.ok (), s.declareClass { name, parent, body, home := id, arities })

/-- A registration is refused, or adds one overload. -/
theorem register_cases (s : Store) (id : ScopeId) (name : String) (signature : Signature)
    (returning : Bool) (function : HostFunction) :
    (∃ fault, s.register id name signature returning function = (.error fault, s)) ∨
      s.register id name signature returning function =
        (.ok (), if returning then s.addFunction id (.ofHost name signature function)
          else s.addProcedure id (.ofHost name signature function)) := by
  unfold register
  split
  · exact Or.inl ⟨_, rfl⟩
  · exact Or.inr rfl

/-- A definition is refused, or adds callables to one scope. -/
theorem define_cases (s : Store) (id : ScopeId) (name : String) (params : List String)
    (body : Block) :
    (∃ fault, s.define id name params body = (.error fault, s)) ∨
      s.define id name params body = (.ok (),
        let c := Callable.ofScript name params body id
        let s := s.addProcedure id c
        if Block.mentionsReturn body then s.addFunction id c else s) := by
  unfold define
  split
  · exact Or.inl ⟨_, rfl⟩
  · exact Or.inr rfl

/-- A definition leaves bindings alone. -/
theorem half_define (s : Store) (id : ScopeId) (name : String) (params : List String)
    (body : Block) (key : ScopeId) (half : Half) {other : String} :
    (((s.define id name params body).2.scope key).bindings.half half)[other]? =
      ((s.scope key).bindings.half half)[other]? := by
  rcases s.define_cases id name params body with ⟨_, h⟩ | h <;> rw [h]
  dsimp only
  split
  · exact (half_modifyScope_of_eq _ id rfl key half).trans
      (half_modifyScope_of_eq s id rfl key half)
  · exact half_modifyScope_of_eq s id rfl key half

/-- A class declaration is refused, or declares a class at home in the
scope. -/
theorem introduceClass_cases (s : Store) (id : ScopeId) (name : String) (parent : Option String)
    (body : Block) :
    (∃ fault, s.introduceClass id name parent body = (.error fault, s)) ∨
      ∃ c, c.home = id ∧ s.introduceClass id name parent body = (.ok (), s.declareClass c) := by
  unfold introduceClass
  split
  · exact Or.inl ⟨_, rfl⟩
  · split
    · exact Or.inl ⟨_, rfl⟩
    · exact Or.inr ⟨_, rfl, rfl⟩

end Store

namespace Operation

/-- Does an operation, unless it is refused. -/
def perform (op : Operation) (s : Store) : Except Fault Unit × Store :=
  match op with
  | root => (.ok (), s.addRoot.2)
  | child parent => (.ok (), (s.addChild parent).2)
  | declare id name v => s.declare id name v
  | declareInherited id name v => s.declareInherited id name v
  | assign id name v => s.assign id name v
  | remove id name => ((s.remove id name).1.map fun _ => (), (s.remove id name).2)
  | register id name signature returning function => s.register id name signature returning function
  | declareClass id name parent body => s.introduceClass id name parent body

/-- Does operations one after the other, going on after those refused. -/
def performAll (ops : List Operation) (s : Store) : Store :=
  ops.foldl (fun s op => (op.perform s).2) s

/-- The scope whose tables an operation may change. -/
def subject : Operation → Option ScopeId
  | root | child _ => none
  | declare id .. | declareInherited id .. | assign id .. | remove id .. | register id ..
  | declareClass id .. => some id

/-- The operation assigns a name that its scope has inherited, and so writes
the value through the slot of that name. -/
def WritesThrough (op : Operation) (s : Store) (name : String) (slot : SlotId) (v : Value) :
    Prop :=
  ∃ id, op = .assign id name v ∧ (s.scope id).bindings.own[name]? = none ∧
    (s.scope id).bindings.inherited[name]? = some slot

-- ================================================================ outcomes

/-- An operation is refused and changes nothing, or is done. -/
theorem perform_cases (op : Operation) (s : Store) :
    (∃ fault, op.perform s = (.error fault, s)) ∨ (op.perform s).1 = .ok () := by
  cases op with
  | root => exact Or.inr rfl
  | child parent => exact Or.inr rfl
  | declare id name v =>
    rcases s.declare_cases id name v with refused | done
    · exact Or.inl refused
    · exact Or.inr (congrArg Prod.fst done)
  | declareInherited id name v =>
    rcases s.declareInherited_cases id name v with refused | done
    · exact Or.inl refused
    · exact Or.inr (congrArg Prod.fst done)
  | assign id name v =>
    rcases s.assign_cases id name v with refused | done | ⟨slot, -, done⟩
    · exact Or.inl refused
    · exact Or.inr (congrArg Prod.fst done)
    · exact Or.inr (congrArg Prod.fst done)
  | remove id name =>
    simp only [perform]
    rcases s.remove_cases id name with ⟨fault, h⟩ | ⟨_, h⟩ | ⟨_, h⟩ <;> rw [h]
    · exact Or.inl ⟨fault, rfl⟩
    · exact Or.inr rfl
    · exact Or.inr rfl
  | register id name signature returning function =>
    rcases s.register_cases id name signature returning function with refused | done
    · exact Or.inl refused
    · exact Or.inr (congrArg Prod.fst done)
  | declareClass id name parent body =>
    rcases s.introduceClass_cases id name parent body with refused | ⟨c, -, done⟩
    · exact Or.inl refused
    · exact Or.inr (congrArg Prod.fst done)

/-- An operation that is refused changes nothing. -/
theorem perform_eq_of_error {op : Operation} {s : Store} {fault : Fault}
    (h : (op.perform s).1 = .error fault) : (op.perform s).2 = s := by
  rcases perform_cases op s with ⟨_, refused⟩ | done
  · exact congrArg Prod.snd refused
  · rw [h] at done
    cases done

-- ============================================================ what is tidy

/-- What an operation binds is bound before, or fresh. -/
theorem derives_perform (op : Operation) (s : Store) :
    ∃ fresh, s.Derives (op.perform s).2 fresh := by
  cases op with
  | root => exact ⟨none, s.derives_addRoot⟩
  | child parent => exact ⟨none, s.derives_addChild parent⟩
  | declare id name v => exact s.derives_declare id name v
  | declareInherited id name v => exact s.derives_declareInherited id name v
  | assign id name v => exact s.derives_assign id name v
  | remove id name => exact ⟨none, s.derives_remove id name⟩
  | register id name signature returning function =>
    refine ⟨none, ?_⟩
    simp only [perform]
    rcases s.register_cases id name signature returning function with ⟨_, h⟩ | h <;> rw [h]
    · exact .refl s
    · cases returning <;> exact s.derives_modifyScope_of_eq id _ rfl
  | declareClass id name parent body =>
    refine ⟨none, ?_⟩
    simp only [perform]
    rcases s.introduceClass_cases id name parent body with ⟨_, h⟩ | ⟨c, rfl, h⟩ <;> rw [h]
    · exact .refl s
    · exact s.derives_modifyScope_of_eq c.home _ rfl

theorem tidy_perform {op : Operation} {s : Store} (tidy : s.Tidy) : (op.perform s).2.Tidy := by
  obtain ⟨fresh, derives⟩ := derives_perform op s
  exact tidy.of_derives derives

theorem tidy_performAll {ops : List Operation} {s : Store} (tidy : s.Tidy) :
    (performAll ops s).Tidy := by
  induction ops generalizing s with
  | nil => exact tidy
  | cons op ops ih => exact ih (tidy_perform tidy)

-- ======================================================= what is left alone

/-- The tables of a scope change only when it is the subject. -/
theorem scope_perform_of_ne {op : Operation} {s : Store} {c : ScopeId}
    (inStore : c.index < s.scopes.size) (other : op.subject ≠ some c) :
    (op.perform s).2.scope c = s.scope c := by
  have ne : ∀ {id}, op.subject = some id → id ≠ c := by
    rintro id h rfl
    exact other h
  cases op with
  | root => exact s.scope_addScope_of_lt _ inStore
  | child parent => exact s.scope_addScope_of_lt _ inStore
  | declare id name v =>
    simp only [perform]
    rcases s.declare_cases id name v with ⟨_, h⟩ | h <;> rw [h]
    exact Store.scope_modifyScope_of_ne _ _ (ne rfl)
  | declareInherited id name v =>
    simp only [perform]
    rcases s.declareInherited_cases id name v with ⟨_, h⟩ | h <;> rw [h]
    exact Store.scope_modifyScope_of_ne _ _ (ne rfl)
  | assign id name v =>
    simp only [perform]
    rcases s.assign_cases id name v with ⟨_, h⟩ | h | ⟨slot, -, h⟩ <;> rw [h]
    · exact Store.scope_modifyScope_of_ne _ _ (ne rfl)
    · exact Store.scope_write s slot v c
  | remove id name =>
    simp only [perform]
    rcases s.remove_cases id name with ⟨_, h⟩ | ⟨_, h⟩ | ⟨_, h⟩ <;> rw [h]
    · exact Store.scope_modifyScope_of_ne _ _ (ne rfl)
    · exact Store.scope_modifyScope_of_ne _ _ (ne rfl)
  | register id name signature returning function =>
    simp only [perform]
    rcases s.register_cases id name signature returning function with ⟨_, h⟩ | h <;> rw [h]
    cases returning <;> exact Store.scope_modifyScope_of_ne _ _ (ne rfl)
  | declareClass id name parent body =>
    simp only [perform]
    rcases s.introduceClass_cases id name parent body with ⟨_, h⟩ | ⟨_, rfl, h⟩ <;> rw [h]
    exact Store.scope_modifyScope_of_ne _ _ (ne rfl)

/-- Writing through puts the value into the slot. -/
theorem value_perform_of_writesThrough {op : Operation} {s : Store} {name : String}
    {slot : SlotId} {v : Value} (inRange : slot.index < s.slots.size)
    (writes : op.WritesThrough s name slot v) : (op.perform s).2.value slot = v := by
  obtain ⟨id, rfl, notOwn, inherited⟩ := writes
  have target := Store.target_eq_shared_iff.2 ⟨notOwn, inherited⟩
  simp only [perform]
  unfold Store.assign
  rw [target, Store.value_write s inRange, if_pos rfl]

/-- The value in a slot that exists changes only when it is written through. -/
theorem value_perform_of_not {op : Operation} {s : Store} {slot : SlotId}
    (inRange : slot.index < s.slots.size)
    (other : ∀ name v, ¬ op.WritesThrough s name slot v) :
    (op.perform s).2.value slot = s.value slot := by
  cases op with
  | root => rfl
  | child parent => rfl
  | declare id name v =>
    simp only [perform]
    rcases s.declare_cases id name v with ⟨_, h⟩ | h <;> rw [h]
    exact s.value_bindOwn_of_lt id name v inRange
  | declareInherited id name v =>
    simp only [perform]
    rcases s.declareInherited_cases id name v with ⟨_, h⟩ | h <;> rw [h]
    exact s.value_bindInherited_of_lt id name v inRange
  | assign id name v =>
    simp only [perform]
    rcases s.assign_cases id name v with ⟨_, h⟩ | h | ⟨written, target, h⟩ <;> rw [h]
    · exact s.value_bindOwn_of_lt id name v inRange
    · obtain ⟨notOwn, inherited⟩ := Store.target_eq_shared_iff.1 target
      refine s.value_write_of_ne v ?_
      intro same
      subst same
      exact other name v ⟨id, rfl, notOwn, inherited⟩
  | remove id name =>
    simp only [perform]
    rcases s.remove_cases id name with ⟨_, h⟩ | ⟨_, h⟩ | ⟨_, h⟩ <;> rw [h] <;> rfl
  | register id name signature returning function =>
    simp only [perform]
    rcases s.register_cases id name signature returning function with ⟨_, h⟩ | h <;> rw [h]
    cases returning <;> rfl
  | declareClass id name parent body =>
    simp only [perform]
    rcases s.introduceClass_cases id name parent body with ⟨_, h⟩ | ⟨_, -, h⟩ <;> rw [h]
    rfl

end Operation

end RoutineScript
