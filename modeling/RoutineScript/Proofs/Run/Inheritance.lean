/-
What an object has from its parent part.

An object of a class with a parent is built around a part: an object of the
parent class is constructed, and what it has declared itself is merged into
the new object. That may be asked for by the body of the class, by its
constructor, once or several times, or be left to the end.

# The law of a building site

While an object is built, every `super` of its own constructs its parent
class, and where a parent part has been noted, one was merged and nothing of
it has been lost (`Building`). This is a law of all that a script may do
meanwhile, as long as it deletes nothing and defines no `super` of its own.

# What is left open

A class body that defines a `super` without parameters gets it called in place
of the one that would have constructed the parent part, and the construction
ends without one.
-/
import RoutineScript.Proofs.Run.Places
import RoutineScript.Proofs.Run.Supers

namespace RoutineScript

-- ================================================================ statements

/-- A statement that neither deletes anything nor defines a `super`. -/
def Stmt.keepsMembers : Stmt → Bool
  | delete _ => false
  | define name _ _ => name != superName
  | _ => true

-- =================================================================== scopes

theorem Table.mem_own_merge {α : Type} {t other : Table α} {name : String} :
    name ∈ (t.merge other).own ↔ name ∈ t.own ∨ name ∈ other.own := by
  rw [merge, Std.TreeMap.mem_union_iff, or_comm]

/-- A scope has declared what another one has, the callables in the same
order. -/
structure Scope.Extends (scope other : Scope) : Prop where
  bases : other.bases <+: scope.bases
  binding : ∀ name ∈ other.bindings.own, name ∈ scope.bindings.own
  «class» : ∀ name ∈ other.classes.own, name ∈ scope.classes.own
  procedures : other.procedures.own <+: scope.procedures.own
  functions : other.functions.own <+: scope.functions.own

theorem Scope.extends_self (scope : Scope) : scope.Extends scope where
  bases := List.prefix_rfl
  binding _ := id
  «class» _ := id
  procedures := List.prefix_rfl
  functions := List.prefix_rfl

theorem Scope.Extends.trans {a b c : Scope} (second : c.Extends b) (first : b.Extends a) :
    c.Extends a where
  bases := first.bases.trans second.bases
  binding name mem := second.binding name (first.binding name mem)
  «class» name mem := second.class name (first.class name mem)
  procedures := first.procedures.trans second.procedures
  functions := first.functions.trans second.functions

namespace Change

variable {o : ScopeId} {s : Store} {c : Change}

/-- Only removals and drops take anything from a scope. -/
theorem extends_apply (inStore : o.index < s.scopes.size)
    (keeps : ∀ id name, c ≠ .operation (.remove id name))
    (undropped : ∀ name, c ≠ .dropCallables o name) :
    ((c.apply s).scope o).Extends (s.scope o) := by
  have same := (s.scope o).extends_self
  have made := c.makes s o
  generalize (c.apply s).scope o = scope at made
  cases made with
  | same | frame | noted | inherit =>
    exact ⟨same.bases, same.binding, same.class, same.procedures, same.functions⟩
  | root absent | child absent => exact absurd inStore (Nat.not_lt.2 absent)
  | bind named =>
    refine ⟨same.bases, named ?_, same.class, same.procedures, same.functions⟩
    rintro id name rfl
    exact keeps id name rfl
  | procedure | offer =>
    exact ⟨same.bases, same.binding, same.class, List.prefix_append _ _, same.functions⟩
  | function =>
    exact ⟨same.bases, same.binding, same.class, same.procedures, List.prefix_append _ _⟩
  | define twice =>
    refine ⟨same.bases, same.binding, same.class, List.prefix_append _ _, ?_⟩
    rcases twice with rfl | rfl
    · exact same.functions
    · exact List.prefix_append _ _
  | introduce =>
    refine ⟨same.bases, same.binding, fun name mem => ?_, same.procedures, same.functions⟩
    rw [Table.insertOwn, Std.TreeMap.mem_insert]
    exact .inr mem
  | drop => exact absurd rfl (undropped _)
  | merge =>
    exact ⟨List.prefix_append _ _, fun name mem => Table.mem_own_merge.2 (.inl mem),
      fun name mem => Table.mem_own_merge.2 (.inl mem), List.prefix_append _ _,
      List.prefix_append _ _⟩

/-- Whether a parent part has been noted is changed by nothing else. -/
theorem superInvoked_apply (inStore : o.index < s.scopes.size) (other : c ≠ .noteSuper o) :
    ((c.apply s).scope o).construction.superInvoked =
      (s.scope o).construction.superInvoked := by
  have made := c.makes s o
  generalize (c.apply s).scope o = scope at made
  cases made with
  | root absent | child absent => exact absurd inStore (Nat.not_lt.2 absent)
  | @noted id _ same | @inherit id _ _ same =>
    have ne : id ≠ o := by
      rintro rfl
      exact other rfl
    exact congrArg Construction.superInvoked (same ne)
  | _ => rfl

/-- A callable that a scope has declared after a change was declared before,
or the change has added it, or it was declared by an object that is merged
into the scope. -/
theorem own_of_apply {d : Callable} (mem : d ∈ ((c.apply s).scope o).procedures.own) :
    d ∈ (s.scope o).procedures.own ∨ c.Adds o d ∨
      ∃ base, c = .merge o base ∧ d ∈ (s.scope base).ownCallables := by
  have made := c.makes s o
  generalize (c.apply s).scope o = scope at made mem
  cases made with
  | same | bind | function | introduce | frame | noted | inherit => exact .inl mem
  | root | child => cases mem
  | procedure | define | offer =>
    rcases List.mem_append.1 mem with before | new
    · exact .inl before
    · rw [List.mem_singleton.1 new]
      exact .inr (.inl (by constructor))
  | drop => exact .inl (List.mem_filter.1 mem).1
  | @merge base =>
    rcases List.mem_append.1 mem with before | taken
    · exact .inl before
    · exact .inr (.inr ⟨base, rfl, Scope.mem_ownCallables.2 (.inl taken)⟩)

end Change

-- ============================================================ parent parts

namespace Store

/-- The store holds code that keeps members only, and every `super` is in its
place. -/
structure Sound (s : Store) : Prop where
  written : s.Written Stmt.keepsMembers
  placed : s.SupersPlaced

/-- An object of the parent class was constructed when `o` was there already,
and merged into it; of what `o` had declared then nothing is lost. -/
def Joined (o : ScopeId) (parent : Class) (t : Store) : Prop :=
  ∃ s base u, s.Sound ∧ o.index < s.scopes.size ∧ parent.Constructs s base u ∧ u.Older t ∧
    (t.scope o).Extends ((u.merge o base.scope).scope o)

/-- An object of a class with this parent is being built. -/
structure Building (o : ScopeId) (parent : Class) (s : Store) : Prop where
  inStore : o.index < s.scopes.size
  placed : s.SupersPlaced
  own : ∀ d ∈ (s.scope o).procedures.own, d.name = superName → d.body = .super parent o
  seen : ∀ id, ∀ d ∈ (s.scope id).callables, ∀ q, d.body = .super q o → q = parent
  joined : (s.scope o).construction.superInvoked = true → s.Joined o parent

variable {o : ScopeId} {parent : Class} {s : Store} {c : Change}

theorem Building.apply (building : s.Building o parent) (placed : (c.apply s).SupersPlaced)
    (keeps : ∀ id name, c ≠ .operation (.remove id name))
    (undropped : ∀ name, c ≠ .dropCallables o name)
    (adds : ∀ {id d}, c.Adds id d → ∀ q, d.body = .super q o → q = parent)
    (own : ∀ {d}, c.Adds o d → d.name = superName → d.body = .super parent o)
    (finished : s.MergesFinished c) (noted : c = .noteSuper o → (c.apply s).Joined o parent) :
    (c.apply s).Building o parent where
  inStore := Nat.lt_of_lt_of_le building.inStore (c.size_le_apply s)
  placed := placed
  own := by
    intro d mem named
    rcases Change.own_of_apply mem with before | added | ⟨base, merges, taken⟩
    · exact building.own d before named
    · exact own added named
    · exact absurd named (finished merges d taken)
  seen := Change.forall_callable_apply building.seen c adds
  joined := by
    intro invoked
    by_cases notes : c = .noteSuper o
    · exact noted notes
    · rw [Change.superInvoked_apply building.inStore notes] at invoked
      obtain ⟨s', base, u, sound, inStore, constructs, older, keeping⟩ := building.joined invoked
      have kept := Change.extends_apply building.inStore keeps undropped
      exact ⟨s', base, u, sound, inStore, constructs, older.trans (older_apply c s),
        kept.trans keeping⟩

/-- What a run may do anywhere else is nothing to a building site. -/
theorem Building.of_made (building : s.Building o parent)
    (made : c.Made Stmt.keepsMembers (· ≠ o)) : (c.apply s).Building o parent := by
  refine building.apply (building.placed.of_made made) ?_ ?_ (fun added q body => ?_)
    (fun added named => ?_) made.mergesFinished ?_
  · rintro id name rfl
    cases made with
    | remove allowed => cases allowed
  · rintro name rfl
    cases made with
    | drop new => exact new rfl
  · obtain ⟨-, rfl, new⟩ := made.adds_super added body
    exact absurd rfl new
  · cases made with
    | define allowed =>
      cases added
      have allowed := Stmt.of_everywhere allowed
      rw [Stmt.keepsMembers, bne_iff_ne] at allowed
      exact absurd named allowed
    | offerSuper new =>
      cases added
      exact absurd rfl new
    | supply new =>
      cases added
      exact absurd rfl new
    | _ => cases added
  · rintro rfl
    cases made

/-- A parent part that joins an object leaves its mark. -/
theorem joined_noteSuper {t u : Store} {base : Object} (sound : t.Sound)
    (inStore : o.index < t.scopes.size) (constructs : parent.Constructs t base u) :
    ((u.merge o base.scope).noteSuper o).Joined o parent := by
  have still : o.index < (u.merge o base.scope).scopes.size :=
    Nat.lt_of_lt_of_le (Nat.lt_of_lt_of_le inStore constructs.size_le)
      (Change.size_le_apply (.merge o base.scope) u)
  exact ⟨t, base, u, sound, inStore, constructs, u.older_join o base.scope,
    Change.extends_apply (c := .noteSuper o) still nofun nofun⟩

/-- It does so on a building site, whichever object it joins. -/
theorem Building.join {t u : Store} {target : ScopeId} {base : Object} {q : Class}
    (sound : t.Sound) (inStore : o.index < t.scopes.size) (isParent : target = o → q = parent)
    (constructs : q.Constructs t base u) (building : u.Building o parent) :
    ((u.merge target base.scope).noteSuper target).Building o parent := by
  have placed := building.placed.merge constructs target
  have merged : (u.merge target base.scope).Building o parent :=
    building.apply (c := .merge target base.scope) placed nofun nofun nofun nofun
      (constructs.mergesFinished target) nofun
  refine merged.apply (c := .noteSuper target) (placed.noteSuper target) nofun nofun nofun nofun
    (mergesFinished_noteSuper _ target) fun noted => ?_
  have same : target = o := Change.noteSuper.inj noted
  subst same
  exact joined_noteSuper sound inStore (isParent rfl ▸ constructs)

/-- The books of a building site may be kept. -/
theorem Building.noteFrame (building : s.Building o parent) (frame : ScopeId) :
    (s.noteFrame o frame).Building o parent := by
  have placed : (s.noteFrame o frame).SupersPlaced :=
    building.placed.apply (c := .noteFrame o frame) nofun fun _ _ => nofun
  exact building.apply (c := .noteFrame o frame) placed nofun nofun nofun nofun (fun _ _ => nofun)
    nofun

/-- So may callables be offered, if `super` is what constructs the parent. -/
theorem Building.offer (building : s.Building o parent) {d : Callable}
    (supers : ∀ {q target}, d.body = .super q target →
      d.name = superName ∧ target = o ∧ q = parent)
    (named : d.name = superName → d.body = .super parent o) :
    (s.addProcedure o d).Building o parent := by
  have placed : (s.addProcedure o d).SupersPlaced := by
    refine building.placed.apply (c := .offer o d) (fun added body => ?_) fun _ _ => nofun
    cases added
    exact ⟨(supers body).1, (supers body).2.1⟩
  refine building.apply (c := .offer o d) placed nofun nofun (fun added q body => ?_)
    (fun added => ?_) (fun _ _ => nofun) nofun
  · cases added
    exact (supers body).2.2
  · cases added
    exact named

theorem Building.installSupers (arities : List Nat) {s : Store} (building : s.Building o parent) :
    (arities.foldl (fun s arity => s.addProcedure o (.ofSuper arity parent o)) s).Building o
      parent := by
  induction arities generalizing s with
  | nil => exact building
  | cons arity arities ih =>
    refine ih (building.offer (fun body => ?_) fun _ => rfl)
    cases body
    exact ⟨rfl, rfl, rfl⟩

theorem scope_addChild_self (s : Store) (home : ScopeId) :
    (s.addChild home).2.scope ⟨s.scopes.size⟩ = (s.scope home).below home := by
  rw [addChild, scope_addScope]
  exact if_pos rfl

/-- A new scope is a building site. -/
theorem SupersPlaced.building_addChild (placed : s.SupersPlaced) (home : ScopeId)
    (parent : Class) : (s.addChild home).2.Building ⟨s.scopes.size⟩ parent where
  inStore := by
    show s.scopes.size < (s.scopes.push _).size
    rw [Array.size_push]
    exact Nat.lt_succ_self _
  placed := placed.apply (c := .operation (.child home)) nofun fun _ _ => nofun
  own := by
    intro d mem
    rw [scope_addChild_self] at mem
    cases mem
  seen := by
    refine Change.forall_callable_apply (c := .operation (.child home)) (fun id d mem q body => ?_)
      nofun
    -- whatever was there before has a target that was there too
    exact absurd (placed mem body).2.1 (Nat.lt_irrefl _)
  joined := by
    intro invoked
    rw [scope_addChild_self] at invoked
    cases invoked

end Store

/-- The law of a building site. -/
def Law.building (o : ScopeId) (parent : Class) : Law Stmt.keepsMembers where
  inv s := s.Building o parent
  isNew id := id ≠ o
  change made _ building := building.of_made made
  born building := by
    rintro rfl
    exact Nat.lt_irrefl _ building.inStore
  join before mem body written site constructs building :=
    building.join ⟨written, site.placed⟩ site.inStore
      (fun same => before.seen _ _ mem _ (same ▸ body)) constructs

-- ============================================================= construction

section

variable {o : ScopeId} {parent : Class} {c : Class} {s t : Store}

/-- An object begins to be built on a building site. -/
theorem Store.Sound.building_prepare (sound : s.Sound) (isParent : c.parent = some parent)
    (own : c.Written Stmt.keepsMembers) :
    (c.prepare s).Written Stmt.keepsMembers ∧ (c.prepare s).Building ⟨s.scopes.size⟩ parent := by
  have made : (Change.operation (.child c.home)).Made Stmt.keepsMembers fun _ => True :=
    .child c.home
  have placed := sound.placed.of_made made
  refine ⟨((Law.placed Stmt.keepsMembers).inv_prepare trivial own sound.written placed).1, ?_⟩
  unfold Class.prepare
  rw [isParent]
  exact (sound.placed.building_addChild c.home parent).installSupers parent.superArities

/-- Where a parent class is, an object is not finished before a parent part
has joined it. -/
theorem Below.Built.joined {n : Nat} {args : List Value} {context : Context}
    (built : (Below.upTo n).Built n o c args context s t) (isParent : c.parent = some parent)
    (own : c.Written Stmt.keepsMembers) (written : s.Written Stmt.keepsMembers)
    (building : s.Building o parent) :
    ∃ u : Store, u.Joined o parent ∧
      t = (u.dropCallables o superName).dropCallables o constructorName := by
  have lawful := Below.lawful_upTo (Law.building o parent) (Pace.same _) n n
  cases built with
  | @built flow candidates constructor v s₁ s₂ s₃ s₄ executed found mem called completed =>
    obtain ⟨written₁, building₁⟩ :=
      (Below.safe_executeBlock lawful o c.body own.body).keeps executed written building
    obtain ⟨written₂, building₂, sees⟩ : s₂.Written Stmt.keepsMembers ∧ s₂.Building o parent ∧
        (Law.building o parent).Sees constructor := by
      rcases Below.constructors_cases found with ⟨rfl, declared⟩ | ⟨rfl, rfl⟩
      · have seen := Scope.mem_callables_of_own (Scope.mem_ownCallables.2 (.inl (declared _ mem)))
        exact ⟨written₁, building₁, Law.sees_of_mem o written₁ building₁ seen⟩
      · rw [List.mem_singleton.1 mem]
        have plain : constructorName ≠ superName := by decide
        refine ⟨written₁.apply (.offer o _) (fun added => ?_) nofun,
          building₁.offer nofun fun named => absurd named plain, rfl, nofun⟩
        cases added
        exact rfl
    have framed : ∀ frame, Run.Safe (Law.building o parent) (Pace.same _) n n
        (Run.change (·.noteFrame o frame)) (Run.change (·.noteFrame o frame)) :=
      fun frame _ _ s _ written building =>
        .ok (written.apply (.noteFrame o frame) nofun nofun) (building.noteFrame frame) trivial
    obtain ⟨written₃, building₃⟩ :=
      (Below.safe_invokeWith lawful framed sees).keeps called written₂ building₂
    refine ⟨s₄, ?_, rfl⟩
    rw [isParent, Option.isSome_some, if_pos rfl] at completed
    rcases Below.completeParent_cases completed with ⟨rfl, invoked⟩ | ⟨d, mem, named, v, called⟩
    · exact building₃.joined invoked
    · have body := building₃.own d mem named
      obtain ⟨base, u, constructs, rfl⟩ := Below.exists_of_invoke_super body called
      exact Store.joined_noteSuper ⟨written₃, building₃.placed⟩ building₃.inStore constructs

end

-- ================================================================= members

/-- A scope has declared all that another one has. -/
structure Scope.Contains (scope part : Scope) : Prop where
  binding : ∀ name ∈ part.bindings.own, name ∈ scope.bindings.own
  «class» : ∀ name ∈ part.classes.own, name ∈ scope.classes.own
  procedure : ∀ d ∈ part.procedures.own, d ∈ scope.procedures.own
  function : ∀ d ∈ part.functions.own, d ∈ scope.functions.own

theorem Scope.Contains.trans {a b c : Scope} (outer : a.Contains b) (inner : b.Contains c) :
    a.Contains c where
  binding name mem := outer.binding name (inner.binding name mem)
  «class» name mem := outer.class name (inner.class name mem)
  procedure d mem := outer.procedure d (inner.procedure d mem)
  function d mem := outer.function d (inner.function d mem)

/-- A scope has the variables and the classes that another one has declared,
bound as they are there. -/
structure Scope.KeepsOwn (scope other : Scope) : Prop where
  binding : ∀ {name : String} {slot : SlotId}, other.bindings.own[name]? = some slot →
    scope.bindings.own[name]? = some slot
  «class» : ∀ {name : String} {d : Class}, other.classes.own[name]? = some d →
    scope.classes.own[name]? = some d

/-- What is said of a finished object that was `before` when `base` was merged
into it: it has the variables and the classes of both, and the overloads of
each name, its own ones first. -/
structure Scope.Inherits (scope before base : Scope) : Prop where
  binding : ∀ name, name ∈ before.bindings.own ∨ name ∈ base.bindings.own →
    name ∈ scope.bindings.own
  «class» : ∀ name, name ∈ before.classes.own ∨ name ∈ base.classes.own → name ∈ scope.classes.own
  procedures : ∀ name, name ≠ superName → name ≠ constructorName →
    before.procedures.ownNamed name ++ base.procedures.ownNamed name
      <+: scope.procedures.ownNamed name
  functions : ∀ name, name ≠ superName → name ≠ constructorName →
    before.functions.ownNamed name ++ base.functions.ownNamed name
      <+: scope.functions.ownNamed name

theorem Overloads.mem_own_of_prefix {o other : Overloads} {front : List Callable} {d : Callable}
    (first : front ++ other.ownNamed d.name <+: o.ownNamed d.name) (mem : d ∈ other.own) :
    d ∈ o.own := by
  have named : d ∈ other.ownNamed d.name := List.mem_filter.2 ⟨mem, beq_self_eq_true d.name⟩
  exact (List.mem_filter.1 (first.subset (List.mem_append_right front named))).1

/-- So it has all that a finished `base` has. -/
theorem Scope.Inherits.contains {scope before base : Scope} (inherits : scope.Inherits before base)
    (finished : ∀ d ∈ base.callables, d.name ≠ superName ∧ d.name ≠ constructorName) :
    scope.Contains base where
  binding name mem := inherits.binding name (.inr mem)
  «class» name mem := inherits.class name (.inr mem)
  procedure d mem := by
    have own := Scope.mem_callables_of_own (Scope.mem_ownCallables.2 (.inl mem))
    obtain ⟨noSuper, noConstructor⟩ := finished d own
    exact Overloads.mem_own_of_prefix (inherits.procedures d.name noSuper noConstructor) mem
  function d mem := by
    have own := Scope.mem_callables_of_own (Scope.mem_ownCallables.2 (.inr mem))
    obtain ⟨noSuper, noConstructor⟩ := finished d own
    exact Overloads.mem_own_of_prefix (inherits.functions d.name noSuper noConstructor) mem

theorem Overloads.ownNamed_drop {o : Overloads} {name other : String} (ne : other ≠ name) :
    (o.drop name).ownNamed other = o.ownNamed other := by
  rw [ownNamed, drop, List.filter_filter]
  refine List.filter_congr fun d _ => ?_
  by_cases named : d.name = other
  · simp [named, ne]
  · simp [named]

theorem Overloads.ownNamed_prefix {o other : Overloads} (name : String)
    (first : other.own <+: o.own) : other.ownNamed name <+: o.ownNamed name :=
  first.filter _

theorem Overloads.ownNamed_merge (o other : Overloads) (name : String) :
    (o.merge other).ownNamed name = o.ownNamed name ++ other.ownNamed name :=
  List.filter_append ..

/-- An object that extends what a merge has made of it inherits, also when
`super` and the constructors have been dropped. -/
theorem Scope.Extends.inherits {scope before base : Scope} {id : ScopeId}
    (kept : scope.Extends (before.merge base id)) :
    { scope with
      procedures := (scope.procedures.drop superName).drop constructorName
      functions := (scope.functions.drop superName).drop constructorName }.Inherits before base where
  binding name mem := kept.binding name (Table.mem_own_merge.2 mem)
  «class» name mem := kept.class name (Table.mem_own_merge.2 mem)
  procedures name noSuper noConstructor := by
    rw [Overloads.ownNamed_drop noConstructor, Overloads.ownNamed_drop noSuper,
      ← Overloads.ownNamed_merge]
    exact Overloads.ownNamed_prefix name kept.procedures
  functions name noSuper noConstructor := by
    rw [Overloads.ownNamed_drop noConstructor, Overloads.ownNamed_drop noSuper,
      ← Overloads.ownNamed_merge]
    exact Overloads.ownNamed_prefix name kept.functions

-- ============================================================= inheritance

namespace Store

theorem scope_dropBooks {s : Store} {o : ScopeId} (inStore : o.index < s.scopes.size) :
    ((s.dropCallables o superName).dropCallables o constructorName).scope o =
      { s.scope o with
        procedures := ((s.scope o).procedures.drop superName).drop constructorName
        functions := ((s.scope o).functions.drop superName).drop constructorName } := by
  rw [dropCallables, dropCallables, modifyScope_modifyScope, scope_modifyScope s inStore,
    if_pos rfl]
  rfl

/-- What an object has declared itself stays as it is when something is merged
into it. -/
theorem keepsOwn_merge (s : Store) (o base : ScopeId) :
    ((s.merge o base).scope o).KeepsOwn (s.scope o) := by
  rcases s.scope_modifyScope_or o (fun scope => scope.merge (s.scope base) base) o with
    same | ⟨-, changed⟩
  · rw [merge, same]
    exact ⟨id, id⟩
  · rw [merge, changed]
    constructor <;> (intro _ _ own; simp only [Scope.merge, Table.getElem?_own_merge, own]; rfl)

end Store

namespace Class.Constructs

variable {c parent : Class} {s t : Store} {o : Object}

/-- An object of a class with a parent has been joined by a parent part, and
inherits what that one had. -/
theorem exists_part (constructs : c.Constructs s o t) (sound : s.Sound)
    (own : c.Written Stmt.keepsMembers) (isParent : c.parent = some parent) :
    ∃ s' base u, s'.Sound ∧ o.scope.index < s'.scopes.size ∧ parent.Constructs s' base u ∧
      u.Older t ∧ base.scope ∈ (t.scope o.scope).bases ∧
      (t.scope o.scope).Inherits (u.scope o.scope) (u.scope base.scope) := by
  have inStore := constructs.lt
  obtain ⟨n, args, context, eq⟩ := constructs.exists_build
  obtain ⟨rfl, built⟩ := Below.built_of_build eq
  obtain ⟨written, building⟩ := sound.building_prepare isParent own
  obtain ⟨joined, ⟨s', base, u, sound', there, part, older, kept⟩, rfl⟩ :=
    built.joined isParent own written building
  rw [Store.dropCallables, Store.dropCallables, Store.scopes_size_modifyScope,
    Store.scopes_size_modifyScope] at inStore
  have merged : (u.merge ⟨s.scopes.size⟩ base.scope).scope ⟨s.scopes.size⟩ =
      (u.scope ⟨s.scopes.size⟩).merge (u.scope base.scope) base.scope := by
    rw [Store.merge, Store.scope_modifyScope u (Nat.lt_of_lt_of_le there part.size_le), if_pos rfl]
  rw [merged] at kept
  refine ⟨s', base, u, sound', there, part, ?_, ?_, ?_⟩
  · exact older.trans ((Store.older_apply (.dropCallables _ superName) joined).trans
      (Store.older_apply (.dropCallables _ constructorName) _))
  · rw [Store.scope_dropBooks inStore]
    exact kept.bases.subset (List.mem_append_right _ List.mem_cons_self)
  · rw [Store.scope_dropBooks inStore]
    exact kept.inherits

/-- So it has, for each ancestor of its class, all that an object of that
class had which was constructed meanwhile. -/
theorem exists_ancestor_part {q : Class} (constructs : c.Constructs s o t) (sound : s.Sound)
    (own : c.Written Stmt.keepsMembers) (ancestor : q ∈ c.ancestors) :
    ∃ s' part u, o.scope.index < s'.scopes.size ∧ q.Constructs s' part u ∧ u.Older t ∧
      (t.scope o.scope).Contains (u.scope part.scope) := by
  generalize chain : c.ancestors = classes at ancestor
  induction classes generalizing c s t o with
  | nil => cases ancestor
  | cons first rest ih =>
    have isParent : c.parent = some first := by
      obtain ⟨name, up, body, home, arities⟩ := c
      cases up with
      | none =>
        rw [Class.ancestors] at chain
        cases chain
      | some parent =>
        rw [Class.ancestors] at chain
        cases chain
        rfl
    rw [Class.ancestors_of_parent isParent] at chain
    cases chain
    obtain ⟨s', base, u, sound', there, part, older, -, inherits⟩ :=
      constructs.exists_part sound own isParent
    have contains := inherits.contains part.cleared
    rcases List.mem_cons.1 ancestor with rfl | above
    · exact ⟨s', base, u, there, part, older, contains⟩
    · obtain ⟨s'', old, v, later, constructed, older', inner⟩ :=
        ih part sound' (own.parent isParent) rfl above
      rw [part.object_eq] at later
      exact ⟨s'', old, v, Nat.lt_trans there later, constructed, older'.trans older,
        contains.trans inner⟩

end Class.Constructs

-- ============================================================== the result

/-- A store of the host's functions is sound. -/
theorem Store.IsNative.sound {s : Store} (native : s.IsNative) : s.Sound :=
  ⟨native.written _, native.supersPlaced⟩

/-- Whatever a host asks for leaves a sound store sound, if what is executed
keeps members. -/
theorem Store.Sound.run {s : Store} (sound : s.Sound) {request : Request}
    (allowed : request.Allowed Stmt.keepsMembers) (levels : Nat) (context : Context) :
    (request.run levels context s).2.Sound :=
  have kept := (Law.placed _).keeps_run allowed levels context sound.written sound.placed
  ⟨kept.1, kept.2⟩

/-- **Inheritance is complete.** When an object has been constructed, where
all code keeps members, no `super` and no constructor is seen from it. If its
class has a parent, an object of the parent class was constructed meanwhile
and merged into it: it has the variables, the classes and the overloads that
one had, next to its own ones, which the merge left alone and which come
first. So it has what an object of each ancestor had that was constructed
meanwhile, too: after its own scope had been made, and before the end. -/
theorem Class.Constructs.inheritance_complete {c : Class} {s t : Store} {o : Object}
    (sound : s.Sound) (own : c.Written Stmt.keepsMembers) (constructs : c.Constructs s o t) :
    (∀ d ∈ (t.scope o.scope).callables, d.name ≠ superName ∧ d.name ≠ constructorName) ∧
      (∀ parent, c.parent = some parent → ∃ s' base u, o.scope.index < s'.scopes.size ∧
        parent.Constructs s' base u ∧ u.Older t ∧ base.scope ∈ (t.scope o.scope).bases ∧
        (t.scope o.scope).Inherits (u.scope o.scope) (u.scope base.scope) ∧
        ((u.merge o.scope base.scope).scope o.scope).KeepsOwn (u.scope o.scope)) ∧
      ∀ q ∈ c.ancestors, ∃ s' part u, o.scope.index < s'.scopes.size ∧
        q.Constructs s' part u ∧ u.Older t ∧ (t.scope o.scope).Contains (u.scope part.scope) := by
  refine ⟨constructs.cleared, fun parent isParent => ?_, fun q ancestor =>
    constructs.exists_ancestor_part sound own ancestor⟩
  obtain ⟨s', base, u, -, there, part, older, merged, inherits⟩ :=
    constructs.exists_part sound own isParent
  exact ⟨s', base, u, there, part, older, merged, inherits, u.keepsOwn_merge o.scope base.scope⟩

/-- A class, its parent, which overloads a method, and its grandparent. -/
theorem inheritance_complete_of_grandchild :
    let a : Class := ⟨"A", none, [⟨1, .assign (.name "x") (.bool true)⟩, ⟨1, .define "f" [] []⟩],
      ⟨0⟩, []⟩
    let b : Class := ⟨"B", some a, [⟨2, .define "f" ["y"] []⟩], ⟨0⟩, []⟩
    let c : Class := ⟨"C", some b, [⟨3, .call (.name "super") []⟩], ⟨0⟩, []⟩
    let s := Store.empty.addRoot.2
    let ended := Run.constructAt 6 c [] ⟨10, 0, [⟨0⟩]⟩ s
    s.Sound ∧ c.Written Stmt.keepsMembers ∧ ∃ o, o.scope = ⟨1⟩ ∧ c.Constructs s o ended.2 ∧
      (∀ d ∈ (ended.2.scope o.scope).callables, d.name ≠ superName ∧ d.name ≠ constructorName) ∧
      ∀ q ∈ c.ancestors, ∃ s' part u, o.scope.index < s'.scopes.size ∧
        q.Constructs s' part u ∧ u.Older ended.2 ∧
        (ended.2.scope o.scope).Contains (u.scope part.scope) := by
  intro a b c s ended
  have sound : s.Sound := (Store.isNative_empty.perform .root nofun).sound
  have own : c.Written Stmt.keepsMembers := by
    refine Class.written_of_parent (by decide +kernel) ?_
    rintro _ ⟨⟩
    refine Class.written_of_parent (by decide +kernel) ?_
    rintro _ ⟨⟩
    exact Class.written_of_parent (by decide +kernel) nofun
  obtain ⟨o, here, constructs⟩ : ∃ o, o.scope = ⟨1⟩ ∧ c.Constructs s o ended.2 :=
    Class.exists_constructs (by decide +kernel)
  obtain ⟨cleared, -, ancestors⟩ := constructs.inheritance_complete sound own
  exact ⟨sound, own, o, here, constructs, cleared, ancestors⟩

/-- A class body that defines a `super` without parameters: no object of the
parent class joins the new one, whose construction ends well all the same. -/
theorem own_super_hides_parent :
    let program : Block :=
      [⟨1, .declareClass "P" none [⟨1, .assign (.name "x") (.bool true)⟩,
          ⟨1, .define "construct" ["a"] []⟩]⟩,
        ⟨2, .declareClass "D" (some (.name "P")) [⟨2, .define "super" [] []⟩]⟩,
        ⟨3, .assign (.name "o") (.new "D" [])⟩]
    let ended := (Request.execute ⟨0⟩ program).run 6 ⟨10, 0, [⟨0⟩]⟩ Store.empty.addRoot.2
    ended.1.toOption.isSome = true ∧
      (ended.2.get? ⟨0⟩ "o").map Value.objects = some [⟨1⟩] ∧
      (ended.2.scope ⟨1⟩).bases = [] ∧ (ended.2.get? ⟨1⟩ "x").isNone = true := by
  intro program ended
  refine ⟨?_, ?_, ?_, ?_⟩ <;> decide +kernel

end RoutineScript
