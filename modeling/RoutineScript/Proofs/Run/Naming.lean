/-
The names in the tables of a store.

Names come into a table when they are declared, defined or registered, and
then they are checked; and all other entries are copies, under the same names:
those that a new scope inherits, those that a constructor inherits anew, and
those that an object takes over from its parent part. An assignment checks a
name only when it is unknown, for a known name has been checked before. The
means of a construction are offered under names that are legal, whatever the
class.

So all names in all tables are legal (`Store.Legal`), and every change keeps
it so that offers or declares nothing under another name (`Change.Legal`).
-/
import RoutineScript.Proofs.Run.Scopes

namespace RoutineScript

-- =================================================================== tables

namespace Table

variable {α : Type} {t other : Table α} {P : String → α → Prop} {name : String} {a : α}

/-- All entries of a table have a property. -/
def All (t : Table α) (P : String → α → Prop) : Prop :=
  ∀ half name a, (t.half half)[name]? = some a → P name a

theorem all_empty : (empty : Table α).All P := by
  intro half name a found
  cases half <;> simp [half, empty] at found

theorem All.visible (all : t.All P) (seen : t.visible[name]? = some a) : P name a := by
  rw [getElem?_visible] at seen
  rcases get?_eq_some.1 seen with own | ⟨-, inherited⟩
  · exact all .own name a own
  · exact all .inherited name a inherited

theorem All.snapshot (all : t.All P) : t.snapshot.All P := by
  intro half name a found
  cases half with
  | own => simp [Table.snapshot, Table.half] at found
  | inherited => exact all.visible found

theorem All.insertOwn (all : t.All P) (entry : P name a) : (t.insertOwn name a).All P := by
  intro half key b found
  cases half with
  | own =>
    simp only [Table.half, Table.insertOwn, Std.TreeMap.getElem?_insert,
      Std.LawfulEqCmp.compare_eq_iff_eq] at found
    split at found
    · next same =>
      cases same
      cases found
      exact entry
    · exact all .own key b found
  | inherited => exact all .inherited key b found

theorem All.insertInherited (all : t.All P) (entry : P name a) :
    (t.insertInherited name a).All P := by
  intro half key b found
  cases half with
  | own => exact all .own key b found
  | inherited =>
    simp only [Table.half, Table.insertInherited, Std.TreeMap.getElem?_insert,
      Std.LawfulEqCmp.compare_eq_iff_eq] at found
    split at found
    · next same =>
      cases same
      cases found
      exact entry
    · exact all .inherited key b found

theorem getElem?_of_erase {entries : Std.TreeMap String α} {key : String}
    (found : (entries.erase name)[key]? = some a) : entries[key]? = some a := by
  rw [Std.TreeMap.getElem?_erase] at found
  split at found
  · cases found
  · exact found

theorem All.eraseOwn (all : t.All P) (name : String) :
    ({ t with own := t.own.erase name } : Table α).All P := by
  intro half key b found
  cases half with
  | own => exact all .own key b (getElem?_of_erase found)
  | inherited => exact all .inherited key b found

theorem All.eraseInherited (all : t.All P) (name : String) :
    ({ t with inherited := t.inherited.erase name } : Table α).All P := by
  intro half key b found
  cases half with
  | own => exact all .own key b found
  | inherited => exact all .inherited key b (getElem?_of_erase found)

theorem All.merge (all : t.All P) (all' : other.All P) : (t.merge other).All P := by
  intro half key b found
  cases half with
  | own =>
    rw [Table.half, getElem?_own_merge] at found
    cases own : t.own[key]? with
    | some entry =>
      rw [own] at found
      cases found
      exact all .own key _ own
    | none =>
      rw [own] at found
      exact all' .own key b found
  | inherited => exact all .inherited key b found

theorem All.inherit (all : t.All P) (all' : other.All P) : (t.inherit other).All P := by
  intro half key b found
  cases half with
  | own => exact all .own key b found
  | inherited => exact all'.visible found

end Table

-- =================================================================== scopes

/-- All names in the tables of a scope are legal. -/
structure Scope.Legal (scope : Scope) : Prop where
  binding : scope.bindings.All fun name _ => Name.check name = .ok ()
  callable : ∀ c ∈ scope.callables, Name.check c.name = .ok ()
  «class» : scope.classes.All fun name c =>
    Name.check name = .ok () ∧ Name.check c.name = .ok ()

namespace Scope

variable {scope other : Scope}

theorem legal_root : root.Legal where
  binding := Table.all_empty
  callable := List.forall_mem_nil _
  «class» := Table.all_empty

theorem Legal.below (legal : scope.Legal) (id : ScopeId) : (scope.below id).Legal where
  binding := legal.binding.snapshot
  callable c mem := legal.callable c (by simpa [mem_callables, Scope.below] using mem)
  «class» := legal.class.snapshot

theorem Legal.inherit (legal : scope.Legal) (legal' : other.Legal) :
    (scope.inherit other).Legal where
  binding := legal.binding.inherit legal'.binding
  callable c mem := by
    simp only [mem_callables, Scope.inherit, Overloads.mem_all_inherit] at mem
    rcases mem with (own | above) | own | above
    · exact legal.callable c (mem_callables.2 (.inl (Overloads.mem_all_of_own own)))
    · exact legal'.callable c (mem_callables.2 (.inl above))
    · exact legal.callable c (mem_callables.2 (.inr (Overloads.mem_all_of_own own)))
    · exact legal'.callable c (mem_callables.2 (.inr above))
  «class» := legal.class.inherit legal'.class

theorem Legal.merge (legal : scope.Legal) (legal' : other.Legal) (id : ScopeId) :
    (scope.merge other id).Legal where
  binding := legal.binding.merge legal'.binding
  callable c mem := by
    simp only [mem_callables, Scope.merge, Overloads.mem_all_merge] at mem
    rcases mem with (before | taken) | before | taken
    · exact legal.callable c (mem_callables.2 (.inl before))
    · exact legal'.callable c (mem_callables.2 (.inl (Overloads.mem_all_of_own taken)))
    · exact legal.callable c (mem_callables.2 (.inr before))
    · exact legal'.callable c (mem_callables.2 (.inr (Overloads.mem_all_of_own taken)))
  «class» := legal.class.merge legal'.class

theorem Legal.addProcedure (legal : scope.Legal) {c : Callable} (own : Name.check c.name = .ok ()) :
    { scope with procedures := scope.procedures.add c }.Legal where
  binding := legal.binding
  callable d mem := by
    simp only [mem_callables, Overloads.mem_all_add] at mem
    rcases mem with (rfl | before) | before
    · exact own
    · exact legal.callable d (mem_callables.2 (.inl before))
    · exact legal.callable d (mem_callables.2 (.inr before))
  «class» := legal.class

theorem Legal.addFunction (legal : scope.Legal) {c : Callable} (own : Name.check c.name = .ok ()) :
    { scope with functions := scope.functions.add c }.Legal where
  binding := legal.binding
  callable d mem := by
    simp only [mem_callables, Overloads.mem_all_add] at mem
    rcases mem with before | rfl | before
    · exact legal.callable d (mem_callables.2 (.inl before))
    · exact own
    · exact legal.callable d (mem_callables.2 (.inr before))
  «class» := legal.class

theorem Legal.drop (legal : scope.Legal) (name : String) :
    { scope with
      procedures := scope.procedures.drop name
      functions := scope.functions.drop name }.Legal where
  binding := legal.binding
  callable d mem := by
    simp only [mem_callables, Overloads.mem_all_drop] at mem
    exact legal.callable d (mem_callables.2 (mem.imp And.left And.left))
  «class» := legal.class

end Scope

-- =================================================================== stores

namespace Store

/-- All names in the tables of a store are legal. -/
def Legal (s : Store) : Prop :=
  ∀ id, (s.scope id).Legal

variable {s : Store}

theorem legal_empty : empty.Legal :=
  fun _ => Scope.legal_root

theorem Legal.modifyScope (legal : s.Legal) (id : ScopeId) {f : Scope → Scope}
    (keeps : ∀ scope : Scope, scope.Legal → (f scope).Legal) : (s.modifyScope id f).Legal := by
  intro key
  rcases s.scope_modifyScope_or id f key with same | ⟨rfl, changed⟩
  · rw [same]
    exact legal key
  · rw [changed]
    exact keeps _ (legal _)

theorem Legal.addScope (legal : s.Legal) {scope : Scope} (own : scope.Legal) :
    (s.addScope scope).2.Legal := by
  intro key
  rw [scope_addScope]
  split
  · exact own
  · exact legal key

theorem Legal.inheritAnew (legal : s.Legal) (id : ScopeId) : (s.inheritAnew id).Legal := by
  intro key
  rcases s.scope_inheritAnew_or id key with same | ⟨rfl, parent, -, changed⟩
  · rw [same]
    exact legal key
  · rw [changed]
    exact (legal _).inherit (legal parent)

theorem Legal.bindOwn (legal : s.Legal) (id : ScopeId) {name : String}
    (own : Name.check name = .ok ()) (v : Value) : (s.bindOwn id name v).Legal :=
  modifyScope (s := (s.addSlot v).2) legal id fun _ here =>
    ⟨here.binding.insertOwn own, here.callable, here.class⟩

theorem Legal.bindInherited (legal : s.Legal) (id : ScopeId) {name : String}
    (own : Name.check name = .ok ()) (v : Value) : (s.bindInherited id name v).Legal :=
  modifyScope (s := (s.addSlot v).2) legal id fun _ here =>
    ⟨here.binding.insertInherited own, here.callable, here.class⟩

-- --------------------------------------------------------------- operations

theorem Legal.declare (legal : s.Legal) (id : ScopeId) (name : String) (v : Value) :
    (s.declare id name v).2.Legal := by
  unfold Store.declare
  split
  · exact legal
  · next checked => exact legal.bindOwn id checked v

theorem Legal.declareInherited (legal : s.Legal) (id : ScopeId) (name : String) (v : Value) :
    (s.declareInherited id name v).2.Legal := by
  unfold Store.declareInherited
  split
  · exact legal
  · next checked => exact legal.bindInherited id checked v

/-- A name that is assigned as an own one has been checked before. -/
theorem Legal.assign (legal : s.Legal) (id : ScopeId) (name : String) (v : Value) :
    (s.assign id name v).2.Legal := by
  unfold Store.assign
  split
  · next isOwn =>
    have known : name ∈ (s.scope id).bindings.own := by
      unfold target at isOwn
      dsimp only at isOwn
      split at isOwn
      · next contained => exact Std.TreeMap.mem_iff_contains.2 contained
      · split at isOwn <;> cases isOwn
    obtain ⟨slot, bound⟩ := Option.isSome_iff_exists.1 (Std.TreeMap.mem_iff_isSome_getElem?.1 known)
    exact legal.bindOwn id ((legal id).binding .own name slot bound) v
  · exact legal
  · exact legal.declare id name v

theorem Legal.remove (legal : s.Legal) (id : ScopeId) (name : String) :
    (s.remove id name).2.Legal := by
  unfold Store.remove
  dsimp only
  split
  · exact legal.modifyScope id fun _ here =>
      ⟨here.binding.eraseOwn name, here.callable, here.class⟩
  · exact legal.modifyScope id fun _ here =>
      ⟨here.binding.eraseInherited name, here.callable, here.class⟩
  · exact legal

theorem Legal.addProcedure (legal : s.Legal) (id : ScopeId) {c : Callable}
    (own : Name.check c.name = .ok ()) : (s.addProcedure id c).Legal :=
  legal.modifyScope id fun _ here => here.addProcedure own

theorem Legal.addFunction (legal : s.Legal) (id : ScopeId) {c : Callable}
    (own : Name.check c.name = .ok ()) : (s.addFunction id c).Legal :=
  legal.modifyScope id fun _ here => here.addFunction own

theorem Legal.register (legal : s.Legal) (id : ScopeId) (name : String) (signature : Signature)
    (returning : Bool) (function : HostFunction) :
    (s.register id name signature returning function).2.Legal := by
  unfold Store.register
  split
  · exact legal
  · next checked =>
    cases returning
    · exact legal.addProcedure id checked
    · exact legal.addFunction id checked

/-- Names that pass the check one by one pass it together. -/
theorem checkNames_eq_ok_iff {names : List String} :
    checkNames names = .ok () ↔ ∀ name ∈ names, Name.check name = .ok () := by
  induction names with
  | nil => exact ⟨fun _ name mem => absurd mem List.not_mem_nil, fun _ => rfl⟩
  | cons name names ih =>
    rw [List.forall_mem_cons, ← ih]
    conv_lhs => unfold checkNames
    cases Name.check name with
    | error fault =>
      refine ⟨nofun, fun both => ?_⟩
      cases both.1
    | ok => exact ⟨fun others => ⟨rfl, others⟩, And.right⟩

theorem Legal.define (legal : s.Legal) (id : ScopeId) (name : String) (params : List String)
    (body : Block) : (s.define id name params body).2.Legal := by
  unfold Store.define
  split
  · exact legal
  · next checked =>
    have own : Name.check (Callable.ofScript name params body id).name = .ok () :=
      checkNames_eq_ok_iff.1 checked name List.mem_cons_self
    dsimp only
    split
    · exact (legal.addProcedure id own).addFunction id own
    · exact legal.addProcedure id own

theorem Legal.declareClass (legal : s.Legal) {c : Class} (own : Name.check c.name = .ok ()) :
    (s.declareClass c).Legal :=
  legal.modifyScope c.home fun _ here =>
    ⟨here.binding, here.callable, here.class.insertOwn ⟨own, own⟩⟩

theorem Legal.introduceClass (legal : s.Legal) (id : ScopeId) (name : String)
    (parent : Option String) (body : Block) : (s.introduceClass id name parent body).2.Legal := by
  unfold Store.introduceClass
  split
  · exact legal
  · next checked =>
    split
    · exact legal
    · exact legal.declareClass checked

theorem Legal.noteSuper (legal : s.Legal) (id : ScopeId) : (s.noteSuper id).Legal := by
  have noted : (s.modifyScope id Scope.noted).Legal :=
    legal.modifyScope id fun _ here => ⟨here.binding, here.callable, here.class⟩
  rw [noteSuper_eq]
  split
  · exact noted
  · exact noted.inheritAnew _

/-- Whatever a host does, names stay legal. -/
theorem Legal.perform (legal : s.Legal) (op : Operation) : (op.perform s).2.Legal := by
  cases op with
  | root => exact legal.addScope Scope.legal_root
  | child parent => exact legal.addScope ((legal parent).below parent)
  | declare id name v => exact legal.declare id name v
  | declareInherited id name v => exact legal.declareInherited id name v
  | assign id name v => exact legal.assign id name v
  | remove id name => exact legal.remove id name
  | register id name signature returning function =>
    exact legal.register id name signature returning function
  | declareClass id name parent body => exact legal.introduceClass id name parent body

end Store

-- ================================================================== changes

/-- A change that offers and declares nothing under a name that is not legal. -/
def Change.Legal : Change → Prop
  | declareClass c => Name.check c.name = .ok ()
  | offer _ c => Name.check c.name = .ok ()
  | _ => True

/-- Such a change keeps names legal. -/
theorem Store.Legal.apply {s : Store} (legal : s.Legal) {c : Change} (own : c.Legal) :
    (c.apply s).Legal := by
  cases c with
  | operation op => exact legal.perform op
  | host state => exact legal
  | define id name params body => exact legal.define id name params body
  | declareClass c => exact legal.declareClass own
  | offer id c => exact legal.addProcedure id own
  | dropCallables id name => exact legal.modifyScope id fun _ here => here.drop name
  | noteFrame id frame =>
    exact legal.modifyScope id fun _ here => ⟨here.binding, here.callable, here.class⟩
  | noteSuper id => exact legal.noteSuper id
  | merge id base => exact legal.modifyScope id fun _ here => here.merge (legal base) base

end RoutineScript
