/-
Which slots the scopes of a store refer to, and what the operations on a
store do to these references.

# The invariant

Scopes share slots: a new scope copies the slots of its parent, a running
constructor copies them again, and an object takes over the slots of its
parent part. All these copies go from a name to the same name, and a slot is
bound to something new only when it is fresh. So a store that is only
changed by its operations is `Tidy`: whatever is bound is a slot that exists,
and no slot is bound under two names.

Each operation is shown to derive its bindings from those before it
(`Derives`): a binding afterwards is a binding of the same name before, or
binds one given name to a slot that did not exist. `Tidy` follows from that
alone, whatever the operation is.
-/
import RoutineScript.Store

namespace RoutineScript

-- ================================================================ bindings

/-- The halves of a table: what a scope declares itself, and what it has
inherited. -/
inductive Half where
  | own
  | inherited
  deriving DecidableEq, Repr

/-- The entries of one half of a table. -/
def Table.half {α : Type} (t : Table α) : Half → Std.TreeMap String α
  | .own => t.own
  | .inherited => t.inherited

/-- The scope of an object when its parent part is noted. -/
def Scope.noted (scope : Scope) : Scope :=
  { scope with construction := { scope.construction with superInvoked := true } }

namespace Store

/-- A scope binds a name to a slot in one half of its table. -/
def Binds (s : Store) (id : ScopeId) (half : Half) (name : String) (slot : SlotId) : Prop :=
  ((s.scope id).bindings.half half)[name]? = some slot

/-- Bound slots exist, and each of them is bound under one name only, in
whatever scopes and halves. -/
structure Tidy (s : Store) : Prop where
  exists_slot : ∀ {id half name slot}, s.Binds id half name slot → slot.index < s.slots.size
  one_name : ∀ {id half name slot id' half' name'},
    s.Binds id half name slot → s.Binds id' half' name' slot → name = name'

/-- Every binding of `t` is one of `s`, or binds the name in `fresh`, if there
is one, to a slot that `s` does not have. -/
structure Derives (s t : Store) (fresh : Option String) : Prop where
  size_le : s.slots.size ≤ t.slots.size
  binds : ∀ {id half name slot}, t.Binds id half name slot →
    (∃ id' half', s.Binds id' half' name slot) ∨
      (fresh = some name ∧ s.slots.size ≤ slot.index ∧ slot.index < t.slots.size)

/-- Nothing is bound in a store without scopes. -/
theorem not_binds_empty {id : ScopeId} {half : Half} {name : String} {slot : SlotId} :
    ¬ empty.Binds id half name slot := by
  intro h
  have : empty.scope id = .root := rfl
  rw [Binds, this] at h
  cases half <;> simp [Table.half, Scope.root, Table.empty] at h

theorem tidy_empty : empty.Tidy where
  exists_slot h := absurd h not_binds_empty
  one_name h := absurd h not_binds_empty

/-- Deriving bindings keeps a store tidy. -/
theorem Tidy.of_derives {s t : Store} {fresh : Option String} (tidy : s.Tidy)
    (derives : s.Derives t fresh) : t.Tidy where
  exists_slot := by
    intro id half name slot h
    rcases derives.binds h with ⟨id', half', old⟩ | ⟨-, -, inRange⟩
    · exact Nat.lt_of_lt_of_le (tidy.exists_slot old) derives.size_le
    · exact inRange
  one_name := by
    intro id half name slot id' half' name' h h'
    rcases derives.binds h with ⟨_, _, old⟩ | ⟨isFresh, new, -⟩
    · rcases derives.binds h' with ⟨_, _, old'⟩ | ⟨-, new', -⟩
      · exact tidy.one_name old old'
      · exact absurd (tidy.exists_slot old) (Nat.not_lt.2 new')
    · rcases derives.binds h' with ⟨_, _, old'⟩ | ⟨isFresh', -, -⟩
      · exact absurd (tidy.exists_slot old') (Nat.not_lt.2 new)
      · exact Option.some.inj (isFresh.symm.trans isFresh')

/-- What is visible is bound in one of the halves. -/
theorem binds_of_get? {s : Store} {id : ScopeId} {name : String} {slot : SlotId}
    (h : (s.scope id).bindings.get? name = some slot) : ∃ half, s.Binds id half name slot := by
  unfold Table.get? at h
  cases own : (s.scope id).bindings.own[name]? with
  | some _ =>
    rw [own] at h
    exact ⟨.own, own.trans h⟩
  | none =>
    rw [own] at h
    exact ⟨.inherited, h⟩

-- ============================================================ single scopes

/-- A change at one place leaves a scope as it was or is the change of it. -/
theorem scope_modifyScope_or (s : Store) (id : ScopeId) (f : Scope → Scope) (key : ScopeId) :
    (s.modifyScope id f).scope key = s.scope key ∨
      key = id ∧ (s.modifyScope id f).scope key = f (s.scope id) := by
  by_cases inRange : id.index < s.scopes.size
  · rw [scope_modifyScope s inRange]
    by_cases hk : id = key
    · subst hk
      exact Or.inr ⟨rfl, if_pos rfl⟩
    · exact Or.inl (if_neg hk)
  · left
    have : s.scopes.modify id.index f = s.scopes := by
      apply Array.ext_getElem?
      intro i
      rw [Array.getElem?_modify]
      split
      · subst_vars
        simp [Array.getElem?_eq_none (Nat.not_lt.1 inRange)]
      · rfl
    rw [modifyScope, this]

/-- A change elsewhere leaves a scope as it was. -/
theorem scope_modifyScope_of_ne (s : Store) {id key : ScopeId} (f : Scope → Scope)
    (h : id ≠ key) : (s.modifyScope id f).scope key = s.scope key := by
  rcases scope_modifyScope_or s id f key with same | ⟨rfl, -⟩
  · exact same
  · exact absurd rfl h

theorem scopes_size_modifyScope (s : Store) (id : ScopeId) (f : Scope → Scope) :
    (s.modifyScope id f).scopes.size = s.scopes.size := by
  simp [modifyScope]

/-- Two changes of one scope are one. -/
theorem modifyScope_modifyScope (s : Store) (id : ScopeId) (f g : Scope → Scope) :
    (s.modifyScope id f).modifyScope id g = s.modifyScope id (g ∘ f) := by
  have same : (s.scopes.modify id.index f).modify id.index g = s.scopes.modify id.index (g ∘ f) := by
    apply Array.ext_getElem?
    intro i
    simp only [Array.getElem?_modify]
    split
    · rw [Option.map_map]
    · rfl
  rw [modifyScope, modifyScope, modifyScope, same]

/-- Inheriting anew shows in that scope and in no other. -/
theorem scope_inheritAnew_or (s : Store) (id key : ScopeId) :
    (s.inheritAnew id).scope key = s.scope key ∨
      key = id ∧ ∃ parent, (s.scope id).parent = some parent ∧
        (s.inheritAnew id).scope key = (s.scope id).inherit (s.scope parent) := by
  unfold inheritAnew
  cases h : (s.scope id).parent with
  | none => exact Or.inl rfl
  | some parent =>
    rcases s.scope_modifyScope_or id (fun scope => scope.inherit (s.scope parent)) key
      with same | ⟨rfl, changed⟩
    · exact Or.inl same
    · exact Or.inr ⟨rfl, parent, rfl, changed⟩

/-- That the parent part of an object is noted shows in the books of the
object's construction only, where the frame stays. -/
theorem scope_noted (s : Store) (id key : ScopeId) :
    ∃ construction, (id ≠ key → construction = (s.scope key).construction) ∧
      construction.frame = (s.scope key).construction.frame ∧
      (s.modifyScope id Scope.noted).scope key = { s.scope key with construction } := by
  rcases s.scope_modifyScope_or id Scope.noted key with same | ⟨rfl, changed⟩
  · exact ⟨_, fun _ => rfl, rfl, same⟩
  · exact ⟨(s.scope key).noted.construction, fun other => absurd rfl other, rfl, changed⟩

theorem bindings_noted (s : Store) (id key : ScopeId) :
    ((s.modifyScope id Scope.noted).scope key).bindings = (s.scope key).bindings := by
  obtain ⟨_, -, -, here⟩ := s.scope_noted id key
  rw [here]

theorem parent_noted (s : Store) (id key : ScopeId) :
    ((s.modifyScope id Scope.noted).scope key).parent = (s.scope key).parent := by
  obtain ⟨_, -, -, here⟩ := s.scope_noted id key
  rw [here]

theorem frame_noted (s : Store) (id key : ScopeId) :
    ((s.modifyScope id Scope.noted).scope key).construction.frame =
      (s.scope key).construction.frame := by
  obtain ⟨_, -, frame, here⟩ := s.scope_noted id key
  rw [here]
  exact frame

/-- When the parent part is noted, the frame of the constructor, if it is
known, inherits anew. -/
theorem noteSuper_eq (s : Store) (id : ScopeId) :
    s.noteSuper id =
      match (s.scope id).construction.frame with
      | none => s.modifyScope id Scope.noted
      | some frame => (s.modifyScope id Scope.noted).inheritAnew frame := by
  rw [← s.frame_noted id id]
  rfl

/-- Binding an own name shows in that scope and in no other. -/
theorem scope_bindOwn_or (s : Store) (id : ScopeId) (name : String) (v : Value)
    (key : ScopeId) :
    (s.bindOwn id name v).scope key = s.scope key ∨
      key = id ∧ (s.bindOwn id name v).scope key =
        { s.scope id with bindings := (s.scope id).bindings.insertOwn name ⟨s.slots.size⟩ } :=
  scope_modifyScope_or (s.addSlot v).2 id _ key

theorem scope_bindInherited_or (s : Store) (id : ScopeId) (name : String) (v : Value)
    (key : ScopeId) :
    (s.bindInherited id name v).scope key = s.scope key ∨
      key = id ∧ (s.bindInherited id name v).scope key =
        { s.scope id with
          bindings := (s.scope id).bindings.insertInherited name ⟨s.slots.size⟩ } :=
  scope_modifyScope_or (s.addSlot v).2 id _ key

/-- The scopes that are there stay when another one is added. -/
theorem scope_addScope_of_lt (s : Store) (scope : Scope) {key : ScopeId}
    (h : key.index < s.scopes.size) : (s.addScope scope).2.scope key = s.scope key := by
  rw [scope_addScope, if_neg]
  intro same
  rw [← same] at h
  exact Nat.lt_irrefl _ h

/-- The bindings of changed scopes are those before, or those of the change. -/
theorem binds_modifyScope {s : Store} {id : ScopeId} {f : Scope → Scope} {key : ScopeId}
    {half : Half} {name : String} {slot : SlotId}
    (h : (s.modifyScope id f).Binds key half name slot) :
    s.Binds key half name slot ∨
      ((f (s.scope id)).bindings.half half)[name]? = some slot := by
  rcases scope_modifyScope_or s id f key with same | ⟨-, changed⟩
  · left
    rwa [Binds, same] at h
  · right
    rwa [Binds, changed] at h

/-- A change of a scope whose bindings are all bindings of the store. -/
theorem derives_modifyScope (s : Store) (id : ScopeId) (f : Scope → Scope)
    (h : ∀ {half name slot}, ((f (s.scope id)).bindings.half half)[name]? = some slot →
      ∃ id' half', s.Binds id' half' name slot) :
    s.Derives (s.modifyScope id f) none where
  size_le := Nat.le_refl _
  binds := by
    intro key half name slot bound
    left
    rcases binds_modifyScope bound with old | new
    · exact ⟨key, half, old⟩
    · exact h new

/-- A change of a scope that leaves its bindings alone. -/
theorem derives_modifyScope_of_eq (s : Store) (id : ScopeId) (f : Scope → Scope)
    (h : (f (s.scope id)).bindings = (s.scope id).bindings) :
    s.Derives (s.modifyScope id f) none :=
  derives_modifyScope s id f fun {half _ _} bound => ⟨id, half, by rwa [h] at bound⟩

theorem Derives.refl (s : Store) : s.Derives s none where
  size_le := Nat.le_refl _
  binds h := Or.inl ⟨_, _, h⟩

/-- Derivations are chained when only the first binds something fresh. -/
theorem Derives.trans {s t u : Store} {fresh : Option String} (first : s.Derives t fresh)
    (second : t.Derives u none) : s.Derives u fresh where
  size_le := Nat.le_trans first.size_le second.size_le
  binds := by
    intro id half name slot bound
    rcases second.binds bound with ⟨_, _, old⟩ | ⟨isFresh, -, -⟩
    · rcases first.binds old with older | ⟨isFresh, new, inRange⟩
      · exact Or.inl older
      · exact Or.inr ⟨isFresh, new, Nat.lt_of_lt_of_le inRange second.size_le⟩
    · cases isFresh

-- ================================================================== values

/-- A fresh slot leaves the values of the others alone. -/
theorem value_addSlot_of_lt (s : Store) (v : Value) {slot : SlotId}
    (h : slot.index < s.slots.size) : (s.addSlot v).2.value slot = s.value slot := by
  rw [value_addSlot, if_neg]
  intro same
  subst same
  exact Nat.lt_irrefl _ h

theorem value_bindOwn_of_lt (s : Store) (id : ScopeId) (name : String) (v : Value)
    {slot : SlotId} (h : slot.index < s.slots.size) :
    (s.bindOwn id name v).value slot = s.value slot :=
  s.value_addSlot_of_lt v h

theorem value_bindInherited_of_lt (s : Store) (id : ScopeId) (name : String) (v : Value)
    {slot : SlotId} (h : slot.index < s.slots.size) :
    (s.bindInherited id name v).value slot = s.value slot :=
  s.value_addSlot_of_lt v h

/-- A write leaves the values of the other slots alone. -/
theorem value_write_of_ne (s : Store) {slot key : SlotId} (v : Value) (h : slot ≠ key) :
    (s.write slot v).value key = s.value key := by
  by_cases inRange : slot.index < s.slots.size
  · rw [value_write s inRange, if_neg h]
  · rw [write, Array.setIfInBounds_eq_of_size_le (Nat.not_lt.1 inRange)]

/-- An assignment goes through a slot exactly when its name is inherited and
not own. -/
theorem target_eq_shared_iff {s : Store} {id : ScopeId} {name : String} {slot : SlotId} :
    s.target id name = .shared slot ↔
      (s.scope id).bindings.own[name]? = none ∧
        (s.scope id).bindings.inherited[name]? = some slot := by
  unfold target
  simp only [Std.TreeMap.contains_eq_isSome_getElem?]
  cases (s.scope id).bindings.own[name]? with
  | some _ => simp
  | none =>
    cases (s.scope id).bindings.inherited[name]? with
    | some _ => simp
    | none => simp

-- ================================================================ outcomes

/-- A declaration is refused, or binds an own name. -/
theorem declare_cases (s : Store) (id : ScopeId) (name : String) (v : Value) :
    (∃ fault, s.declare id name v = (.error fault, s)) ∨
      s.declare id name v = (.ok (), s.bindOwn id name v) := by
  unfold declare
  split
  · exact Or.inl ⟨_, rfl⟩
  · exact Or.inr rfl

theorem declareInherited_cases (s : Store) (id : ScopeId) (name : String) (v : Value) :
    (∃ fault, s.declareInherited id name v = (.error fault, s)) ∨
      s.declareInherited id name v = (.ok (), s.bindInherited id name v) := by
  unfold declareInherited
  split
  · exact Or.inl ⟨_, rfl⟩
  · exact Or.inr rfl

/-- An assignment is refused, binds an own name, or writes through the slot
of an inherited one. -/
theorem assign_cases (s : Store) (id : ScopeId) (name : String) (v : Value) :
    (∃ fault, s.assign id name v = (.error fault, s)) ∨
      s.assign id name v = (.ok (), s.bindOwn id name v) ∨
      ∃ slot, s.target id name = .shared slot ∧ s.assign id name v = (.ok (), s.write slot v) := by
  unfold assign
  cases target : s.target id name with
  | own => exact Or.inr (Or.inl rfl)
  | shared slot => exact Or.inr (Or.inr ⟨slot, rfl, rfl⟩)
  | unknown =>
    rcases declare_cases s id name v with refused | bound
    · exact Or.inl refused
    · exact Or.inr (Or.inl bound)

/-- A removal is refused, or takes a name out of one half of a scope. -/
theorem remove_cases (s : Store) (id : ScopeId) (name : String) :
    (∃ fault, s.remove id name = (.error fault, s)) ∨
      (∃ v, s.remove id name = (.ok v, s.modifyScope id fun scope =>
        { scope with bindings := { scope.bindings with own := scope.bindings.own.erase name } })) ∨
      ∃ v, s.remove id name = (.ok v, s.modifyScope id fun scope =>
        { scope with
          bindings :=
            { scope.bindings with inherited := scope.bindings.inherited.erase name } }) := by
  unfold remove
  simp only
  split
  · exact Or.inr (Or.inl ⟨_, rfl⟩)
  · exact Or.inr (Or.inr ⟨_, rfl⟩)
  · exact Or.inl ⟨_, rfl⟩

-- ============================================================= other names

/-- Binding an own name leaves the other names of the scope, and those of
other scopes, alone. -/
theorem half_bindOwn_of_ne (s : Store) {id id' : ScopeId} {name name' : String} (v : Value) (half : Half)
    (other : ¬ (id' = id ∧ name' = name)) :
    (((s.bindOwn id' name' v).scope id).bindings.half half)[name]? =
      ((s.scope id).bindings.half half)[name]? := by
  rcases s.scope_bindOwn_or id' name' v id with same | ⟨rfl, bound⟩
  · rw [same]
  · rw [bound]
    cases half with
    | own =>
      have ne : ¬ name' = name := fun eq => other ⟨rfl, eq⟩
      simp only [Table.half, Table.insertOwn, Std.TreeMap.getElem?_insert,
        Std.LawfulEqCmp.compare_eq_iff_eq, ne, if_false]
    | inherited => rfl

theorem half_bindInherited_of_ne (s : Store) {id id' : ScopeId} {name name' : String} (v : Value) (half : Half)
    (other : ¬ (id' = id ∧ name' = name)) :
    (((s.bindInherited id' name' v).scope id).bindings.half half)[name]? =
      ((s.scope id).bindings.half half)[name]? := by
  rcases s.scope_bindInherited_or id' name' v id with same | ⟨rfl, bound⟩
  · rw [same]
  · rw [bound]
    cases half with
    | own => rfl
    | inherited =>
      have ne : ¬ name' = name := fun eq => other ⟨rfl, eq⟩
      simp only [Table.half, Table.insertInherited, Std.TreeMap.getElem?_insert,
        Std.LawfulEqCmp.compare_eq_iff_eq, ne, if_false]

/-- Taking a name out of a half leaves the other names alone. -/
theorem half_remove_of_ne (s : Store) {id id' : ScopeId} {name name' : String} (half : Half)
    (other : ¬ (id' = id ∧ name' = name)) :
    (((s.remove id' name').2.scope id).bindings.half half)[name]? =
      ((s.scope id).bindings.half half)[name]? := by
  have erased : ∀ (table : Std.TreeMap String SlotId), name' ≠ name →
      (table.erase name')[name]? = table[name]? := by
    intro table ne
    simp only [Std.TreeMap.getElem?_erase, Std.LawfulEqCmp.compare_eq_iff_eq, ne, if_false]
  rcases s.remove_cases id' name' with ⟨_, h⟩ | ⟨_, h⟩ | ⟨_, h⟩ <;> rw [h]
  all_goals
    rcases s.scope_modifyScope_or id' _ id with same | ⟨rfl, changed⟩
    · rw [same]
    · have ne : name' ≠ name := fun eq => other ⟨rfl, eq⟩
      rw [changed]
      cases half
      · first | exact erased _ ne | rfl
      · first | exact erased _ ne | rfl

/-- A change of a scope that leaves its bindings alone. -/
theorem half_modifyScope_of_eq (s : Store) (id' : ScopeId) {f : Scope → Scope}
    (h : (f (s.scope id')).bindings = (s.scope id').bindings) (id : ScopeId) (half : Half)
    {name : String} :
    (((s.modifyScope id' f).scope id).bindings.half half)[name]? =
      ((s.scope id).bindings.half half)[name]? := by
  rcases s.scope_modifyScope_or id' f id with same | ⟨rfl, changed⟩
  · rw [same]
  · rw [changed, h]

-- ============================================================== operations

/-- A new root binds nothing. -/
theorem derives_addRoot (s : Store) : s.Derives s.addRoot.2 none where
  size_le := Nat.le_refl _
  binds := by
    intro id half name slot bound
    left
    rw [Binds, addRoot, scope_addScope] at bound
    split at bound
    · cases half <;> simp [Table.half, Scope.root, Table.empty] at bound
    · exact ⟨id, half, bound⟩

/-- A new scope binds what is visible from its parent. -/
theorem derives_addChild (s : Store) (parent : ScopeId) :
    s.Derives (s.addChild parent).2 none where
  size_le := Nat.le_refl _
  binds := by
    intro id half name slot bound
    left
    rw [Binds, addChild, scope_addScope] at bound
    split at bound
    · cases half with
      | own => simp [Table.half, Scope.below, Table.snapshot] at bound
      | inherited =>
        simp only [Table.half, Scope.below, Table.snapshot] at bound
        rw [Table.getElem?_visible] at bound
        obtain ⟨half, bound⟩ := binds_of_get? bound
        exact ⟨parent, half, bound⟩
    · exact ⟨id, half, bound⟩

/-- Binding an own name to a fresh slot. -/
theorem derives_bindOwn (s : Store) (id : ScopeId) (name : String) (v : Value) :
    s.Derives (s.bindOwn id name v) (some name) where
  size_le := by simp [bindOwn, addSlot, modifyScope]
  binds := by
    intro key half name' slot bound
    rcases binds_modifyScope bound with old | new
    · exact Or.inl ⟨key, half, old⟩
    · cases half with
      | own =>
        simp only [Table.half, Table.insertOwn, Std.TreeMap.getElem?_insert,
          Std.LawfulEqCmp.compare_eq_iff_eq] at new
        split at new
        · next same =>
          cases new
          exact Or.inr ⟨congrArg some same, Nat.le_refl _, by simp [bindOwn, addSlot, modifyScope]⟩
        · exact Or.inl ⟨id, .own, new⟩
      | inherited => exact Or.inl ⟨id, .inherited, new⟩

/-- Binding a name to a fresh slot as though it were inherited. -/
theorem derives_bindInherited (s : Store) (id : ScopeId) (name : String) (v : Value) :
    s.Derives (s.bindInherited id name v) (some name) where
  size_le := by simp [bindInherited, addSlot, modifyScope]
  binds := by
    intro key half name' slot bound
    rcases binds_modifyScope bound with old | new
    · exact Or.inl ⟨key, half, old⟩
    · cases half with
      | own => exact Or.inl ⟨id, .own, new⟩
      | inherited =>
        simp only [Table.half, Table.insertInherited, Std.TreeMap.getElem?_insert,
          Std.LawfulEqCmp.compare_eq_iff_eq] at new
        split at new
        · next same =>
          cases new
          exact Or.inr
            ⟨congrArg some same, Nat.le_refl _, by simp [bindInherited, addSlot, modifyScope]⟩
        · exact Or.inl ⟨id, .inherited, new⟩

theorem derives_write (s : Store) (slot : SlotId) (v : Value) :
    s.Derives (s.write slot v) none where
  size_le := by simp [write]
  binds h := Or.inl ⟨_, _, h⟩

/-- Declaring binds at most the declared name afresh. -/
theorem derives_declare (s : Store) (id : ScopeId) (name : String) (v : Value) :
    ∃ fresh, s.Derives (s.declare id name v).2 fresh := by
  rcases s.declare_cases id name v with ⟨_, h⟩ | h <;> rw [h]
  · exact ⟨none, .refl s⟩
  · exact ⟨some name, s.derives_bindOwn id name v⟩

theorem derives_declareInherited (s : Store) (id : ScopeId) (name : String) (v : Value) :
    ∃ fresh, s.Derives (s.declareInherited id name v).2 fresh := by
  rcases s.declareInherited_cases id name v with ⟨_, h⟩ | h <;> rw [h]
  · exact ⟨none, .refl s⟩
  · exact ⟨some name, s.derives_bindInherited id name v⟩

theorem derives_assign (s : Store) (id : ScopeId) (name : String) (v : Value) :
    ∃ fresh, s.Derives (s.assign id name v).2 fresh := by
  rcases s.assign_cases id name v with ⟨_, h⟩ | h | ⟨slot, -, h⟩ <;> rw [h]
  · exact ⟨none, .refl s⟩
  · exact ⟨some name, s.derives_bindOwn id name v⟩
  · exact ⟨none, s.derives_write slot v⟩

/-- Removing a name takes bindings away. -/
theorem derives_remove (s : Store) (id : ScopeId) (name : String) :
    s.Derives (s.remove id name).2 none := by
  rcases s.remove_cases id name with ⟨_, h⟩ | ⟨_, h⟩ | ⟨_, h⟩ <;> rw [h]
  · exact .refl s
  · refine derives_modifyScope s id _ fun {half name' slot} bound => ?_
    cases half with
    | own =>
      simp only [Table.half, Std.TreeMap.getElem?_erase] at bound
      split at bound
      · cases bound
      · exact ⟨id, .own, bound⟩
    | inherited => exact ⟨id, .inherited, bound⟩
  · refine derives_modifyScope s id _ fun {half name' slot} bound => ?_
    cases half with
    | own => exact ⟨id, .own, bound⟩
    | inherited =>
      simp only [Table.half, Std.TreeMap.getElem?_erase] at bound
      split at bound
      · cases bound
      · exact ⟨id, .inherited, bound⟩

/-- Taking over members copies slots under their names. -/
theorem derives_merge (s : Store) (id base : ScopeId) : s.Derives (s.merge id base) none := by
  refine derives_modifyScope s id _ fun {half name slot} bound => ?_
  cases half with
  | own =>
    simp only [Table.half, Scope.merge] at bound
    rw [Table.getElem?_own_merge] at bound
    cases own : (s.scope id).bindings.own[name]? with
    | some _ =>
      rw [own] at bound
      exact ⟨id, .own, own.trans bound⟩
    | none =>
      rw [own] at bound
      exact ⟨base, .own, bound⟩
  | inherited => exact ⟨id, .inherited, bound⟩

/-- Inheriting anew copies slots under their names. -/
theorem derives_inheritAnew (s : Store) (id : ScopeId) : s.Derives (s.inheritAnew id) none := by
  unfold inheritAnew
  split
  · exact .refl s
  · next parent _ =>
    refine derives_modifyScope s id _ fun {half name slot} bound => ?_
    cases half with
    | own => exact ⟨id, .own, bound⟩
    | inherited =>
      simp only [Table.half, Scope.inherit, Table.inherit] at bound
      rw [Table.getElem?_visible] at bound
      obtain ⟨half, bound⟩ := binds_of_get? bound
      exact ⟨parent, half, bound⟩

theorem derives_noteSuper (s : Store) (id : ScopeId) : s.Derives (s.noteSuper id) none := by
  have noted := derives_modifyScope_of_eq s id Scope.noted rfl
  rw [noteSuper_eq]
  split
  · exact noted
  · exact noted.trans (derives_inheritAnew _ _)

end Store

end RoutineScript
