/-
How the scopes of a store grow while nothing is merged.

# The relation

`Grows` is what every step but a merge does to the own halves of the tables:
no scope is lost, the objects that are merged into a scope stay the same, and
an own binding is there before, or is one of a single scope, the subject, to
a slot that did not exist. So a slot comes into the own halves of two scopes
by a merge only.
-/
import RoutineScript.Proofs.Store.Operation

namespace RoutineScript

namespace Store

/-- Without a merge, `t` has come from `s`; if there is a `subject`, it may
bind own names afresh. -/
structure Grows (s t : Store) (subject : Option ScopeId) : Prop where
  size_le : s.scopes.size ≤ t.scopes.size
  bases : ∀ id, (t.scope id).bases = (s.scope id).bases
  own : ∀ {id name slot}, t.Binds id .own name slot →
    s.Binds id .own name slot ∨ (subject = some id ∧ s.slots.size ≤ slot.index)

theorem Grows.refl (s : Store) : s.Grows s none where
  size_le := Nat.le_refl _
  bases _ := rfl
  own := Or.inl

/-- Growth is chained when only the first step binds something afresh. -/
theorem Grows.trans {s t u : Store} {subject : Option ScopeId} (first : s.Grows t subject)
    (second : t.Grows u none) : s.Grows u subject where
  size_le := Nat.le_trans first.size_le second.size_le
  bases id := (second.bases id).trans (first.bases id)
  own := by
    intro id name slot bound
    rcases second.own bound with old | ⟨fresh, -⟩
    · exact first.own old
    · cases fresh

/-- A change of a scope that merges nothing and binds no own name. -/
theorem grows_modifyScope (s : Store) (id : ScopeId) (f : Scope → Scope)
    (bases : (f (s.scope id)).bases = (s.scope id).bases)
    (own : ∀ {name : String} {slot}, (f (s.scope id)).bindings.own[name]? = some slot →
      (s.scope id).bindings.own[name]? = some slot) :
    s.Grows (s.modifyScope id f) none where
  size_le := Nat.le_of_eq (s.scopes_size_modifyScope id f).symm
  bases key := by
    rcases scope_modifyScope_or s id f key with same | ⟨rfl, changed⟩
    · rw [same]
    · rw [changed, bases]
  own := by
    intro key name slot bound
    left
    rcases scope_modifyScope_or s id f key with same | ⟨rfl, changed⟩
    · rwa [Binds, same] at bound
    · rw [Binds, changed] at bound
      exact own bound

/-- A new scope that has declared nothing and that nothing is merged into. -/
theorem grows_addScope (s : Store) (scope : Scope) (bases : scope.bases = [])
    (own : scope.bindings.own = ∅) : s.Grows (s.addScope scope).2 none where
  size_le := by simp [addScope]
  bases key := by
    rw [scope_addScope]
    split
    · next born =>
      -- where there was no scope, the default one has no bases either
      have absent : s.scope key = default := by
        rw [← born]
        simp [Store.scope, addScope, Array.getD_eq_getD_getElem?]
      rw [bases, absent]
      rfl
    · rfl
  own := by
    intro key name slot bound
    left
    rw [Binds, scope_addScope] at bound
    split at bound
    · simp [Table.half, own] at bound
    · exact bound

theorem grows_addRoot (s : Store) : s.Grows s.addRoot.2 none :=
  s.grows_addScope .root rfl rfl

theorem grows_addChild (s : Store) (parent : ScopeId) : s.Grows (s.addChild parent).2 none :=
  s.grows_addScope _ rfl rfl

theorem grows_bindOwn (s : Store) (id : ScopeId) (name : String) (v : Value) :
    s.Grows (s.bindOwn id name v) (some id) where
  size_le := by simp [bindOwn, addSlot, modifyScope]
  bases key := by
    rcases s.scope_bindOwn_or id name v key with same | ⟨rfl, bound⟩
    · rw [same]
    · rw [bound]
  own := by
    intro key name' slot bound
    rw [Binds] at bound
    rcases s.scope_bindOwn_or id name v key with same | ⟨rfl, changed⟩
    · rw [same] at bound
      exact Or.inl bound
    · rw [changed] at bound
      simp only [Table.half, Table.insertOwn, Std.TreeMap.getElem?_insert] at bound
      split at bound
      · cases bound
        exact Or.inr ⟨rfl, Nat.le_refl _⟩
      · exact Or.inl bound

theorem grows_bindInherited (s : Store) (id : ScopeId) (name : String) (v : Value) :
    s.Grows (s.bindInherited id name v) none where
  size_le := by simp [bindInherited, addSlot, modifyScope]
  bases key := by
    rcases s.scope_bindInherited_or id name v key with same | ⟨rfl, bound⟩
    · rw [same]
    · rw [bound]
  own := by
    intro key name' slot bound
    left
    rw [Binds] at bound
    rcases s.scope_bindInherited_or id name v key with same | ⟨rfl, changed⟩
    · rwa [same] at bound
    · rwa [changed] at bound

theorem grows_write (s : Store) (slot : SlotId) (v : Value) : s.Grows (s.write slot v) none where
  size_le := Nat.le_refl _
  bases _ := rfl
  own := Or.inl

theorem grows_assign (s : Store) (id : ScopeId) (name : String) (v : Value) :
    ∃ subject, s.Grows (s.assign id name v).2 subject := by
  rcases s.assign_cases id name v with ⟨_, h⟩ | h | ⟨slot, -, h⟩ <;> rw [h]
  · exact ⟨none, .refl s⟩
  · exact ⟨some id, s.grows_bindOwn id name v⟩
  · exact ⟨none, s.grows_write slot v⟩

theorem grows_remove (s : Store) (id : ScopeId) (name : String) :
    s.Grows (s.remove id name).2 none := by
  rcases s.remove_cases id name with ⟨_, h⟩ | ⟨_, h⟩ | ⟨_, h⟩ <;> rw [h]
  · exact .refl s
  · refine s.grows_modifyScope id _ rfl fun {name' slot} bound => ?_
    simp only [Std.TreeMap.getElem?_erase] at bound
    split at bound
    · cases bound
    · exact bound
  · exact s.grows_modifyScope id _ rfl fun {_ _} bound => bound

theorem grows_inheritAnew (s : Store) (id : ScopeId) : s.Grows (s.inheritAnew id) none := by
  unfold inheritAnew
  split
  · exact .refl s
  · exact s.grows_modifyScope id _ rfl fun {_ _} bound => bound

theorem grows_noteSuper (s : Store) (id : ScopeId) : s.Grows (s.noteSuper id) none := by
  have noted := s.grows_modifyScope id Scope.noted rfl fun {_ _} bound => bound
  rw [noteSuper_eq]
  split
  · exact noted
  · exact noted.trans (grows_inheritAnew _ _)

theorem grows_define (s : Store) (id : ScopeId) (name : String) (params : List String)
    (body : Block) : s.Grows (s.define id name params body).2 none := by
  rcases s.define_cases id name params body with ⟨_, h⟩ | h <;> rw [h]
  · exact .refl s
  · have procedure := s.grows_modifyScope id
      (fun scope => { scope with
        procedures := scope.procedures.add (Callable.ofScript name params body id) })
      rfl fun {_ _} bound => bound
    dsimp only
    split
    · exact procedure.trans (grows_modifyScope _ id _ rfl fun {_ _} bound => bound)
    · exact procedure

end Store

/-- An operation lets a store grow. -/
theorem Operation.grows_perform (op : Operation) (s : Store) :
    ∃ subject, s.Grows (op.perform s).2 subject := by
  cases op with
  | root => exact ⟨none, s.grows_addRoot⟩
  | child parent => exact ⟨none, s.grows_addChild parent⟩
  | declare id name v =>
    simp only [perform]
    rcases s.declare_cases id name v with ⟨_, h⟩ | h <;> rw [h]
    · exact ⟨none, .refl s⟩
    · exact ⟨some id, s.grows_bindOwn id name v⟩
  | declareInherited id name v =>
    simp only [perform]
    rcases s.declareInherited_cases id name v with ⟨_, h⟩ | h <;> rw [h]
    · exact ⟨none, .refl s⟩
    · exact ⟨none, s.grows_bindInherited id name v⟩
  | assign id name v => exact s.grows_assign id name v
  | remove id name => exact ⟨none, s.grows_remove id name⟩
  | register id name signature returning function =>
    refine ⟨none, ?_⟩
    simp only [perform]
    rcases s.register_cases id name signature returning function with ⟨_, h⟩ | h <;> rw [h]
    · exact .refl s
    · cases returning <;> exact s.grows_modifyScope id _ rfl fun {_ _} bound => bound
  | declareClass id name parent body =>
    refine ⟨none, ?_⟩
    simp only [perform]
    rcases s.introduceClass_cases id name parent body with ⟨_, h⟩ | ⟨c, rfl, h⟩ <;> rw [h]
    · exact .refl s
    · exact s.grows_modifyScope c.home _ rfl fun {_ _} bound => bound

end RoutineScript
