/-
Where changes work.

A change works on one scope, its `subject`, and leaves all others as they
were; only when a parent part is noted, the frame in which the constructor of
its object runs inherits anew. So what a scope refers to after a change can be
told by its place (`binds_of_apply`): it referred to that before, or its
parent did; or the change has bound a fresh slot there, or has merged in an
object that had declared the name.
-/
import RoutineScript.Proofs.Run.Written

namespace RoutineScript

-- ==================================================================== older

/-- From one store to a later one no scope is lost, and none is moved below
another parent. -/
structure Store.Older (s t : Store) : Prop where
  size_le : s.scopes.size ≤ t.scopes.size
  parent : ∀ id : ScopeId, id.index < s.scopes.size → (t.scope id).parent = (s.scope id).parent

namespace Store

variable {s t u : Store}

theorem Older.refl (s : Store) : s.Older s :=
  ⟨Nat.le_refl _, fun _ _ => rfl⟩

theorem Older.trans (first : s.Older t) (second : t.Older u) : s.Older u where
  size_le := Nat.le_trans first.size_le second.size_le
  parent id inStore :=
    (second.parent id (Nat.lt_of_lt_of_le inStore first.size_le)).trans (first.parent id inStore)

theorem older_apply (c : Change) (s : Store) : s.Older (c.apply s) where
  size_le := c.size_le_apply s
  parent id inStore := by
    have made := c.makes s id
    generalize (c.apply s).scope id = scope at made
    cases made with
    | root absent | child absent => exact absurd inStore (Nat.not_lt.2 absent)
    | _ => rfl

theorem older_join (s : Store) (target base : ScopeId) :
    s.Older ((s.merge target base).noteSuper target) :=
  (older_apply (.merge target base) s).trans (older_apply (.noteSuper target) _)

end Store

-- ================================================================= subjects

namespace Store

variable {s : Store} {key : ScopeId}

/-- Where something is bound, there is a scope. -/
theorem lt_of_binds {half : Half} {name : String} {slot : SlotId}
    (bound : s.Binds key half name slot) : key.index < s.scopes.size := by
  refine Nat.lt_of_not_le fun absent => ?_
  rw [Binds, scope_of_size_le absent] at bound
  cases half <;> simp [Table.half, Scope.root, Table.empty] at bound

/-- When a parent part is noted, a scope stays as it was, unless it is the
object or the frame of its constructor. -/
theorem scope_noteSuper_of_ne {id : ScopeId} (other : id ≠ key)
    (apart : (s.scope id).construction.frame ≠ some key) :
    (s.noteSuper id).scope key = s.scope key := by
  have spared := s.scope_modifyScope_of_ne Scope.noted other
  rw [noteSuper_eq]
  split
  · exact spared
  · next place isFrame =>
    rcases (s.modifyScope id Scope.noted).scope_inheritAnew_or place key with same | ⟨rfl, -⟩
    · exact same.trans spared
    · exact absurd isFrame apart

/-- No constructor gets another frame when a parent part is noted. -/
theorem frame_noteSuper (s : Store) (id key : ScopeId) :
    ((s.noteSuper id).scope key).construction.frame = (s.scope key).construction.frame := by
  have kept := s.frame_noted id key
  rw [noteSuper_eq]
  split
  · exact kept
  · next place _ =>
    rcases (s.modifyScope id Scope.noted).scope_inheritAnew_or place key with
      same | ⟨rfl, parent, -, changed⟩
    · rw [same]
      exact kept
    · rw [changed]
      exact kept

end Store

namespace Change

/-- The scope that a change works on. -/
def subject : Change → Option ScopeId
  | operation op => op.subject
  | host _ => none
  | declareClass c => some c.home
  | define id .. | offer id _ | dropCallables id _ | noteFrame id _ | noteSuper id | merge id _ =>
    some id

variable {s : Store} {c : Change} {key : ScopeId}

/-- A scope that a change does not work on stays as it was. -/
theorem scope_apply_of_ne (inStore : key.index < s.scopes.size) (other : c.subject ≠ some key)
    (apart : ∀ id, c = .noteSuper id → (s.scope id).construction.frame ≠ some key) :
    (c.apply s).scope key = s.scope key := by
  have ne : ∀ {id}, c.subject = some id → id ≠ key := by
    rintro id h rfl
    exact other h
  cases c with
  | operation op => exact Operation.scope_perform_of_ne inStore other
  | host state => rfl
  | define id name params body =>
    simp only [apply]
    rcases s.define_cases id name params body with ⟨_, h⟩ | h <;> rw [h]
    dsimp only
    split
    · exact (Store.scope_modifyScope_of_ne _ _ (ne rfl)).trans
        (Store.scope_modifyScope_of_ne _ _ (ne rfl))
    · exact Store.scope_modifyScope_of_ne _ _ (ne rfl)
  | noteSuper id => exact Store.scope_noteSuper_of_ne (ne rfl) (apart id rfl)
  | declareClass | offer | dropCallables | noteFrame | merge =>
    exact Store.scope_modifyScope_of_ne _ _ (ne rfl)

/-- Nothing that has been merged into a scope is taken out. -/
theorem bases_length_le_apply (c : Change) (s : Store) (key : ScopeId) :
    (s.scope key).bases.length ≤ ((c.apply s).scope key).bases.length := by
  have made := c.makes s key
  generalize (c.apply s).scope key = scope at made
  cases made with
  | root absent | child absent =>
    have none : (s.scope key).bases = [] := congrArg Scope.bases (Store.scope_of_size_le absent)
    simp only [none, List.length_nil, Nat.zero_le]
  | merge =>
    simp only [Scope.merge, List.length_append]
    exact Nat.le_add_right _ _
  | _ => exact Nat.le_refl _

theorem bases_length_lt_merge {target : ScopeId} (inStore : target.index < s.scopes.size)
    (base : ScopeId) :
    (s.scope target).bases.length < ((s.merge target base).scope target).bases.length := by
  rw [Store.merge, Store.scope_modifyScope s inStore, if_pos rfl]
  simp only [Scope.merge, List.length_append, List.length_singleton]
  exact Nat.lt_succ_self _

/-- A constructor gets its frame when that is noted. -/
theorem frame_of_apply {frame : ScopeId}
    (isFrame : ((c.apply s).scope key).construction.frame = some frame) :
    (s.scope key).construction.frame = some frame ∨ c = .noteFrame key frame := by
  by_cases noted : ∃ id, c = .noteSuper id
  · obtain ⟨id, rfl⟩ := noted
    exact .inl ((s.frame_noteSuper id key).symm.trans isFrame)
  · have made := c.makes s key
    generalize (c.apply s).scope key = scope at made isFrame
    cases made with
    | root | child => cases isFrame
    | frame =>
      cases isFrame
      exact .inr rfl
    | noted | inherit => exact absurd ⟨_, rfl⟩ noted
    | _ => exact .inl isFrame

-- ============================================================ what is bound

section

variable {half : Half} {name : String} {slot : SlotId}

/-- What a scope refers to after a change of scopes, it referred to before, or
the change is one of this scope. -/
theorem binds_modifyScope_or {id : ScopeId} {f : Scope → Scope}
    (bound : (s.modifyScope id f).Binds key half name slot) :
    s.Binds key half name slot ∨
      key = id ∧ ((f (s.scope id)).bindings.half half)[name]? = some slot := by
  unfold Store.Binds at bound ⊢
  rcases s.scope_modifyScope_or id f key with same | ⟨here, changed⟩
  · rw [same] at bound
    exact .inl bound
  · rw [changed] at bound
    exact .inr ⟨here, bound⟩

theorem binds_bindOwn {id : ScopeId} {other : String} {v : Value}
    (bound : (s.bindOwn id other v).Binds key half name slot) :
    s.Binds key half name slot ∨ id = key ∧ s.slots.size ≤ slot.index := by
  rcases binds_modifyScope_or bound with before | ⟨rfl, bound⟩
  · exact .inl before
  · cases half with
    | inherited => exact .inl bound
    | own =>
      simp only [Table.half, Table.insertOwn, Std.TreeMap.getElem?_insert] at bound
      split at bound
      · cases bound
        exact .inr ⟨rfl, Nat.le_refl _⟩
      · exact .inl bound

theorem binds_bindInherited {id : ScopeId} {other : String} {v : Value}
    (bound : (s.bindInherited id other v).Binds key half name slot) :
    s.Binds key half name slot ∨ id = key ∧ s.slots.size ≤ slot.index := by
  rcases binds_modifyScope_or bound with before | ⟨rfl, bound⟩
  · exact .inl before
  · cases half with
    | own => exact .inl bound
    | inherited =>
      simp only [Table.half, Table.insertInherited, Std.TreeMap.getElem?_insert] at bound
      split at bound
      · cases bound
        exact .inr ⟨rfl, Nat.le_refl _⟩
      · exact .inl bound

theorem binds_remove {id : ScopeId} {other : String}
    (bound : (s.remove id other).2.Binds key half name slot) : s.Binds key half name slot := by
  have erased : ∀ {table : Std.TreeMap String SlotId}, (table.erase other)[name]? = some slot →
      table[name]? = some slot := by
    intro table found
    rw [Std.TreeMap.getElem?_erase] at found
    split at found
    · cases found
    · exact found
  rcases s.remove_cases id other with ⟨_, h⟩ | ⟨_, h⟩ | ⟨_, h⟩ <;> rw [h] at bound
  · exact bound
  · rcases binds_modifyScope_or bound with before | ⟨rfl, bound⟩
    · exact before
    · cases half with
      | own => exact erased bound
      | inherited => exact bound
  · rcases binds_modifyScope_or bound with before | ⟨rfl, bound⟩
    · exact before
    · cases half with
      | own => exact bound
      | inherited => exact erased bound

/-- What a scope refers to after an operation, it referred to before, or its
parent did, or the operation has bound a fresh slot in it. -/
theorem binds_of_perform {op : Operation} (bound : (op.perform s).2.Binds key half name slot) :
    s.Binds key half name slot ∨ op.subject = some key ∧ s.slots.size ≤ slot.index ∨
      half = .inherited ∧ ∃ parent, ((op.perform s).2.scope key).parent = some parent ∧
        ∃ half', s.Binds parent half' name slot := by
  cases op with
  | declare id other v =>
    simp only [Operation.perform] at bound
    rcases s.declare_cases id other v with ⟨_, h⟩ | h <;> rw [h] at bound
    · exact .inl bound
    · exact (binds_bindOwn bound).imp_right fun fresh => .inl ⟨congrArg some fresh.1, fresh.2⟩
  | declareInherited id other v =>
    simp only [Operation.perform] at bound
    rcases s.declareInherited_cases id other v with ⟨_, h⟩ | h <;> rw [h] at bound
    · exact .inl bound
    · exact (binds_bindInherited bound).imp_right fun fresh => .inl ⟨congrArg some fresh.1, fresh.2⟩
  | assign id other v =>
    simp only [Operation.perform] at bound
    rcases s.assign_cases id other v with ⟨_, h⟩ | h | ⟨_, -, h⟩ <;> rw [h] at bound
    · exact .inl bound
    · exact (binds_bindOwn bound).imp_right fun fresh => .inl ⟨congrArg some fresh.1, fresh.2⟩
    · exact .inl bound
  | root =>
    have bound : s.addRoot.2.Binds key half name slot := bound
    unfold Store.Binds at bound
    rw [Store.addRoot, Store.scope_addScope] at bound
    split at bound
    · cases half <;> simp [Table.half, Scope.root, Table.empty] at bound
    · exact .inl bound
  | child parent =>
    have bound : (s.addChild parent).2.Binds key half name slot := bound
    unfold Store.Binds at bound
    rw [Store.addChild, Store.scope_addScope] at bound
    split at bound
    · next born =>
      cases half with
      | own => simp [Table.half, Scope.below, Table.snapshot] at bound
      | inherited =>
        refine .inr (.inr ⟨rfl, parent, ?_, Store.binds_of_get? ?_⟩)
        · show ((s.addScope _).2.scope key).parent = some parent
          rw [Store.scope_addScope, if_pos born]
          rfl
        · exact (Table.getElem?_visible _ name).symm.trans bound
    · exact .inl bound
  | remove id other =>
    exact .inl (binds_remove bound)
  | register id other signature returning function =>
    simp only [Operation.perform] at bound
    rcases s.register_cases id other signature returning function with ⟨_, h⟩ | h <;>
      rw [h] at bound
    · exact .inl bound
    · cases returning <;> exact .inl ((s.half_modifyScope_of_eq id rfl key half).symm.trans bound)
  | declareClass id other parent body =>
    simp only [Operation.perform] at bound
    rcases s.introduceClass_cases id other parent body with ⟨_, h⟩ | ⟨c, -, h⟩ <;> rw [h] at bound
    · exact .inl bound
    · exact .inl ((s.half_modifyScope_of_eq c.home rfl key half).symm.trans bound)

/-- What a scope refers to after a change, it referred to before, or its parent
did, or the change has bound a fresh slot in it or merged an object into it
that had declared the name. -/
theorem binds_of_apply (bound : (c.apply s).Binds key half name slot) :
    s.Binds key half name slot ∨ c.subject = some key ∧ s.slots.size ≤ slot.index ∨
      (half = .inherited ∧ ∃ parent, ((c.apply s).scope key).parent = some parent ∧
        ∃ half', s.Binds parent half' name slot) ∨
      ∃ base, c = .merge key base ∧ s.Binds base .own name slot := by
  by_cases operates : ∃ op, c = .operation op
  · obtain ⟨op, rfl⟩ := operates
    exact (binds_of_perform bound).imp_right fun later => later.imp_right .inl
  · have made := c.makes s key
    unfold Store.Binds at bound
    generalize (c.apply s).scope key = scope at made bound ⊢
    cases made with
    | same | define | introduce | offer | drop | frame | noted => exact .inl bound
    | @merge base =>
      cases half with
      | inherited => exact .inl bound
      | own =>
        replace bound : (((s.scope key).bindings.merge (s.scope base).bindings).own)[name]? =
            some slot := bound
        rw [Table.getElem?_own_merge] at bound
        cases own : (s.scope key).bindings.own[name]? with
        | some _ =>
          rw [own] at bound
          exact .inl (own.trans bound)
        | none =>
          rw [own] at bound
          exact .inr (.inr (.inr ⟨base, rfl, bound⟩))
    | @inherit id parent _ _ isParent =>
      cases half with
      | own => exact .inl bound
      | inherited =>
        refine .inr (.inr (.inl ⟨rfl, parent, isParent, Store.binds_of_get? ?_⟩))
        exact (Table.getElem?_visible _ name).symm.trans bound
    | root | child | bind | procedure | function => exact absurd ⟨_, rfl⟩ operates

end

end Change

/-- When a parent part joins an object, other scopes stay as they were, but
for the frame of its constructor. -/
theorem Store.scope_join_of_ne {s : Store} {target key : ScopeId} (base : ScopeId)
    (other : target ≠ key) (apart : (s.scope target).construction.frame ≠ some key) :
    ((s.merge target base).noteSuper target).scope key = s.scope key := by
  have frame : ((s.merge target base).scope target).construction.frame =
      (s.scope target).construction.frame := by
    rcases s.scope_modifyScope_or target (fun scope => scope.merge (s.scope base) base) target
      with same | ⟨-, merged⟩
    · exact congrArg (·.construction.frame) same
    · exact congrArg (·.construction.frame) merged
  exact (scope_noteSuper_of_ne other (frame ▸ apart)).trans (s.scope_modifyScope_of_ne _ other)

end RoutineScript
