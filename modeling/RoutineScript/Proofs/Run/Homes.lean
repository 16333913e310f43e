/-
Where the homes of definitions and classes are.

A definition runs below the scope it was written in, a class's objects are
built below the one it was declared in, and a `super` works on its object;
but the tables that hold them remember these scopes without keeping them
alive. What keeps them alive is that they lie on a way of parents and merged
bases from wherever they can be seen (`Rooted`).

# Why they do

An entry gets into a table where its home is, and from there to other scopes
in three ways only: into a new scope below, into a frame that inherits anew
from its parent, and with a merge. In the first two a parent leads back to
where the entry came from, in the last one the merged base does. No change
takes a parent or a base away.

# What is left open

The parent of a class is found without a name, so nothing keeps its home
alive; an object of the class cannot be built when that is gone. This is the
only way: the class itself was found by name, and all that `super` ever
builds for its object is the parent (`Class.Moment`).
-/
import RoutineScript.Proofs.Run.Supers
import RoutineScript.Proofs.Store.Living

namespace RoutineScript

-- =================================================================== homes

/-- The scope that a callable remembers: the home of a definition, or the
object whose parent part a `super` constructs. -/
def Callable.home? (c : Callable) : Option ScopeId :=
  match c.body with
  | .host _ => none
  | .script _ _ home => some home
  | .super _ target => some target

namespace Change

variable {s : Store} {c : Change} {key : ScopeId}

/-- The parent and the bases of a scope stay. -/
theorem kin_subset_apply (c : Change) (s : Store) (key : ScopeId) :
    (s.scope key).kin ⊆ ((c.apply s).scope key).kin := by
  by_cases inStore : key.index < s.scopes.size
  · have made := c.makes s key
    generalize (c.apply s).scope key = scope at made
    cases made with
    | root absent | child absent => exact absurd inStore (Nat.not_lt.2 absent)
    | merge =>
      intro next mem
      simp only [Scope.kin, Scope.merge, List.mem_append] at mem ⊢
      exact mem.imp id Or.inl
    | _ => exact List.Subset.refl _
  · rw [Store.scope_of_size_le (Nat.not_lt.1 inStore)]
    exact List.nil_subset _

/-- A class in a table after a change was in one before, that of the same
scope or that of its parent, or the change has declared it at home, or it was
declared by an object that is merged into the scope. -/
theorem class_cases {half : Half} {name : String} {d : Class}
    (found : (((c.apply s).scope key).classes.half half)[name]? = some d) :
    (∃ half, ((s.scope key).classes.half half)[name]? = some d) ∨ d.home = key ∨
      (∃ parent half, ((c.apply s).scope key).parent = some parent ∧
        ((s.scope parent).classes.half half)[name]? = some d) ∨
      ∃ base, c = .merge key base ∧ (s.scope base).classes.own[name]? = some d := by
  have visible : ∀ {id : ScopeId}, (s.scope id).classes.visible[name]? = some d →
      ∃ half, ((s.scope id).classes.half half)[name]? = some d := by
    intro id seen
    rw [Table.getElem?_visible] at seen
    exact (Table.get?_eq_some.1 seen).elim (⟨.own, ·⟩) fun ⟨_, inherited⟩ => ⟨.inherited, inherited⟩
  have declared : ∀ {e : Class}, (((s.declareClass e).scope key).classes.half half)[name]? = some d →
      (∃ half, ((s.scope key).classes.half half)[name]? = some d) ∨ d.home = key := by
    intro e found
    rcases s.scope_modifyScope_or e.home
        (fun scope => { scope with classes := scope.classes.insertOwn e.name e }) key with
      same | ⟨rfl, changed⟩
    · rw [Store.declareClass, same] at found
      exact .inl ⟨half, found⟩
    · rw [Store.declareClass, changed] at found
      cases half with
      | own =>
        simp only [Table.half, Table.insertOwn, Std.TreeMap.getElem?_insert] at found
        split at found
        · cases found
          exact .inr rfl
        · exact .inl ⟨.own, found⟩
      | inherited => exact .inl ⟨.inherited, found⟩
  by_cases declares : ∃ e, (c.apply s).scope key = (s.declareClass e).scope key
  · obtain ⟨e, same⟩ := declares
    rw [same] at found
    exact (declared found).imp id Or.inl
  have made := c.makes s key
  generalize after : (c.apply s).scope key = scope at made found declares
  cases made with
  | same | bind | procedure | function | define | offer | drop | frame | noted =>
    exact .inl ⟨half, found⟩
  | root => cases half <;> simp [Scope.root, Table.empty, Table.half] at found
  | @child parent =>
    cases half with
    | own => simp [Scope.below, Table.snapshot, Table.half] at found
    | inherited =>
      obtain ⟨half, seen⟩ := visible found
      exact .inr (.inr (.inl ⟨parent, half, rfl, seen⟩))
  | introduce introduces =>
    cases c with
    | declareClass e => exact absurd ⟨e, after.symm⟩ declares
    | operation op =>
      cases op with
      | declareClass id name parent body =>
        simp only [apply, Operation.perform] at after
        rcases s.introduceClass_cases id name parent body with ⟨_, h⟩ | ⟨e, -, h⟩ <;> rw [h] at after
        · rw [← after] at found
          exact .inl ⟨half, found⟩
        · exact absurd ⟨e, after.symm⟩ declares
      | _ => cases introduces
    | _ => cases introduces
  | @merge base =>
    cases half with
    | own =>
      simp only [Table.half, Scope.merge, Table.getElem?_own_merge] at found
      cases own : (s.scope key).classes.own[name]? with
      | some e =>
        rw [own] at found
        cases found
        exact .inl ⟨.own, own⟩
      | none =>
        rw [own] at found
        exact .inr (.inr (.inr ⟨base, rfl, found⟩))
    | inherited => exact .inl ⟨.inherited, found⟩
  | @inherit id parent _ _ isParent =>
    cases half with
    | own => exact .inl ⟨.own, found⟩
    | inherited =>
      obtain ⟨half, seen⟩ := visible found
      exact .inr (.inr (.inl ⟨parent, half, isParent, seen⟩))

end Change

-- ================================================================== rooted

namespace Store

variable {s : Store} {c : Change}

theorem LeadsTo.apply {id next : ScopeId} (leads : s.LeadsTo id next) (c : Change) :
    (c.apply s).LeadsTo id next :=
  Relation.ReflTransGen.mono (fun id _ kin => c.kin_subset_apply s id kin) _ _ leads

/-- A way leads from a scope to a place in the store. -/
structure Finds (s : Store) (id place : ScopeId) : Prop where
  inStore : place.index < s.scopes.size
  leads : s.LeadsTo id place

theorem Finds.apply {id place : ScopeId} (finds : s.Finds id place) (c : Change) :
    (c.apply s).Finds id place :=
  ⟨Nat.lt_of_lt_of_le finds.inStore (c.size_le_apply s), finds.leads.apply c⟩

theorem Finds.of_kin {id next place : ScopeId} (kin : next ∈ (s.scope id).kin)
    (finds : s.Finds next place) : s.Finds id place :=
  ⟨finds.inStore, .head kin finds.leads⟩

/-- Ways lead from every scope to the homes of all that its tables hold. -/
structure Rooted (s : Store) : Prop where
  callable : ∀ {id : ScopeId} {d : Callable} {place : ScopeId},
    d ∈ (s.scope id).callables → d.home? = some place → s.Finds id place
  «class» : ∀ (id : ScopeId) (half : Half) (name : String) (d : Class),
    ((s.scope id).classes.half half)[name]? = some d → s.Finds id d.home

theorem rooted_empty : empty.Rooted where
  callable mem := absurd (lt_of_mem_callables mem) (Nat.not_lt_zero _)
  «class» id half name d found := by
    rw [scope_of_size_le (Nat.zero_le _)] at found
    cases half <;> simp [Scope.root, Table.empty, Table.half] at found

theorem lt_of_mem_classes {id : ScopeId} {half : Half} {name : String} {d : Class}
    (found : ((s.scope id).classes.half half)[name]? = some d) : id.index < s.scopes.size := by
  refine Nat.lt_of_not_le fun absent => ?_
  rw [scope_of_size_le absent] at found
  cases half <;> simp [Scope.root, Table.empty, Table.half] at found

theorem base_mem_kin_merge {id base : ScopeId} (inStore : id.index < (s.merge id base).scopes.size) :
    base ∈ ((s.merge id base).scope id).kin := by
  rw [merge, scopes_size_modifyScope] at inStore
  rw [merge, scope_modifyScope s inStore, if_pos rfl]
  simp [Scope.kin, Scope.merge]

/-- A change that adds callables at home only keeps a store rooted. -/
theorem Rooted.apply (rooted : s.Rooted)
    (adds : ∀ {id d place}, c.Adds id d → d.home? = some place → place = id) :
    (c.apply s).Rooted where
  callable {id d place} mem home := by
    rcases Change.callable_of_apply mem with
      before | added | ⟨parent, isParent, above⟩ | ⟨base, rfl, own⟩
    · exact (rooted.callable before home).apply c
    · cases adds added home
      exact ⟨lt_of_mem_callables mem, .refl⟩
    · have kin : parent ∈ ((c.apply s).scope id).kin := by simp [Scope.kin, isParent]
      exact .of_kin kin ((rooted.callable above home).apply c)
    · have taken := (rooted.callable (Scope.mem_callables_of_own own) home).apply (.merge id base)
      exact .of_kin (base_mem_kin_merge (lt_of_mem_callables mem)) taken
  «class» id half name d found := by
    rcases Change.class_cases found with
      ⟨half, before⟩ | rfl | ⟨parent, half, isParent, above⟩ | ⟨base, rfl, own⟩
    · exact (rooted.class id half name d before).apply c
    · exact ⟨lt_of_mem_classes found, .refl⟩
    · have kin : parent ∈ ((c.apply s).scope id).kin := by simp [Scope.kin, isParent]
      exact .of_kin kin ((rooted.class parent half name d above).apply c)
    · have taken := (rooted.class base .own name d own).apply (.merge id base)
      exact .of_kin (base_mem_kin_merge (lt_of_mem_classes found)) taken

theorem Rooted.operate (rooted : s.Rooted) (op : Operation) : (op.perform s).2.Rooted :=
  rooted.apply (c := .operation op) fun added home => by
    cases added
    cases home

theorem Rooted.of_made {allows : Stmt → Bool} {isNew : ScopeId → Prop} (rooted : s.Rooted)
    (made : c.Made allows isNew) : (c.apply s).Rooted := by
  refine rooted.apply fun added home => ?_
  cases made with
  | define | offerSuper | supply =>
    cases added
    cases home
    rfl
  | _ => cases added

theorem Rooted.join (rooted : s.Rooted) (target base : ScopeId) :
    ((s.merge target base).noteSuper target).Rooted :=
  (rooted.apply (c := .merge target base) nofun).apply (c := .noteSuper target) nofun

end Store

/-- The law of the ways home. -/
def Law.rooted : Law fun _ => true where
  inv := Store.Rooted
  isNew _ := True
  change made _ rooted := rooted.of_made made
  born _ := trivial
  join _ _ _ _ _ _ rooted := rooted.join _ _

-- ================================================================ all stores

/-- The stores that come about: between what a host asks for, and in the
middle of it. -/
inductive Store.Arises : Store → Prop where
  | hosted {handed : Set ScopeId} {s : Store} : Hosted handed s → Arises s
  | change {s : Store} {c : Change} : c.Made (fun _ => true) (fun _ => True) → Arises s →
      Arises (c.apply s)
  | join {s t u : Store} {key : ScopeId} {d : Callable} {parent : Class} {target : ScopeId}
      {base : Object} :
      Arises s → d ∈ (s.scope key).callables → d.body = .super parent target → Arises t →
      parent.Constructs t base u → Arises u → Arises ((u.merge target base.scope).noteSuper target)

/-- The law that what comes about comes about. -/
def Law.arises : Law fun _ => true where
  inv := Store.Arises
  isNew _ := True
  change made _ arises := .change made arises
  born _ := trivial
  join arises mem body _ before constructs after := .join arises mem body before constructs after

section

variable (law : Law fun _ => true) {s : Store}

/-- A law that holds at the start and is kept by the host holds whenever a
host may look. -/
theorem Hosted.keeps {handed : Set ScopeId} (hosted : Hosted handed s) (start : law.inv .empty)
    (operate : ∀ (op : Operation) s, law.inv s → law.inv (op.perform s).2)
    (attend : ∀ state (s : Store), law.inv s → law.inv { s with host := state }) : law.inv s := by
  induction hosted with
  | start => exact start
  | operate _ _ ih => exact operate _ _ ih
  | @ask _ s request levels context _ _ ih =>
    exact (law.keeps_run (request.allowed_of_forall fun _ => rfl) levels context
      (s.written_of_forall fun _ => rfl) ih).2
  | take _ _ ih => exact ih
  | attend state _ ih => exact attend state _ ih

/-- If it may build any object, it holds in the middle of runs too. -/
theorem Store.Arises.keeps (arises : s.Arises) (start : law.inv .empty) (new : ∀ id, law.isNew id)
    (operate : ∀ (op : Operation) s, law.inv s → law.inv (op.perform s).2) : law.inv s := by
  have made : ∀ {c : Change} {s : Store}, c.Made (fun _ => true) (fun _ => True) → law.inv s →
      law.inv (c.apply s) := by
    intro c s made inv
    have same : (fun _ => True) = law.isNew := funext fun id => (eq_true (new id)).symm
    exact law.change (same ▸ made) (s.written_of_forall fun _ => rfl) inv
  induction arises with
  | hosted hosted => exact hosted.keeps law start operate fun state _ inv => made (.host state) inv
  | change changed _ ih => exact made changed ih
  | join _ mem body _ constructs _ seen before after =>
    exact law.join seen mem body (Store.written_of_forall (fun _ => rfl) _) before constructs after

theorem Store.Arises.rooted (arises : s.Arises) : s.Rooted :=
  arises.keeps Law.rooted Store.rooted_empty (fun _ => trivial) fun op _ rooted =>
    rooted.operate op

theorem Store.Arises.placed (arises : s.Arises) : s.SupersPlaced :=
  arises.keeps (Law.placed _) Store.isNative_empty.supersPlaced (fun _ => trivial)
    fun op _ placed => placed.apply (c := .operation op)
      (fun added body => absurd body (Store.not_super_of_operation added)) fun _ _ => nofun

end

-- ============================================================ constructions

/-- The moments of a construction that begins in `s`: the new object has been
prepared, scripts make changes, and objects join others; but nobody offers a
`super` to the new object any more. -/
inductive Class.Moment (c : Class) (s : Store) : Store → Prop where
  | prepared : c.Moment s (c.prepare s)
  | change {t : Store} {change : Change} : change.Made (fun _ => true) (fun _ => True) →
      (∀ {id d q}, change.Adds id d → d.body ≠ .super q ⟨s.scopes.size⟩) →
      c.Moment s t → c.Moment s (change.apply t)
  | join {t u v : Store} {key : ScopeId} {d : Callable} {parent : Class} {target : ScopeId}
      {base : Object} :
      c.Moment s t → d ∈ (t.scope key).callables → d.body = .super parent target → c.Moment s u →
      parent.Constructs u base v → c.Moment s v →
      c.Moment s ((v.merge target base.scope).noteSuper target)

namespace Class

variable {c : Class} {s t : Store}

theorem prepare_arises (arises : s.Arises) : (c.prepare s).Arises := by
  have own : c.Written fun _ => true := c.written_of_forall fun _ => rfl
  exact (Law.arises.inv_prepare trivial own (s.written_of_forall fun _ => rfl)
    (.change (.child c.home) arises)).2

theorem Moment.arises (arises : s.Arises) (moment : c.Moment s t) : t.Arises := by
  induction moment with
  | prepared => exact prepare_arises arises
  | change made _ _ ih => exact .change made ih
  | join _ mem body _ constructs _ seen before after => exact .join seen mem body before constructs after

theorem size_lt_prepare (c : Class) (s : Store) : s.scopes.size < (c.prepare s).scopes.size := by
  have born : (Law.grown (fun _ => true) (s.scopes.size + 1)).inv (s.addChild c.home).2 := by
    show s.scopes.size + 1 ≤ (s.scopes.push _).size
    rw [Array.size_push]
  exact ((Law.grown _ _).inv_prepare trivial (c.written_of_forall fun _ => rfl)
    (s.written_of_forall fun _ => rfl) born).2

theorem Moment.size_lt (moment : c.Moment s t) : s.scopes.size < t.scopes.size := by
  induction moment with
  | prepared => exact c.size_lt_prepare s
  | @change t change _ _ _ ih => exact Nat.lt_of_lt_of_le ih (change.size_le_apply t)
  | @join _ _ u _ _ _ target base _ _ _ _ _ _ _ _ ih =>
    exact Nat.lt_of_lt_of_le ih (u.size_le_join target base.scope)

/-- Whatever `super` builds for an object is of the parent class. -/
def OnlyParent (c : Class) (o : ScopeId) (t : Store) : Prop :=
  ∀ key, ∀ d ∈ (t.scope key).callables, ∀ q, d.body = .super q o → c.parent = some q

theorem OnlyParent.apply {o : ScopeId} (only : c.OnlyParent o t) (change : Change)
    (adds : ∀ {id d}, change.Adds id d → ∀ q, d.body = .super q o → c.parent = some q) :
    c.OnlyParent o (change.apply t) :=
  Change.forall_callable_apply only change adds

theorem onlyParent_prepare (placed : s.SupersPlaced) :
    c.OnlyParent ⟨s.scopes.size⟩ (c.prepare s) := by
  have before : c.OnlyParent ⟨s.scopes.size⟩ s := fun id d mem q body =>
    -- whatever is there before has a target that is there too
    absurd (placed mem body).2.1 (Nat.lt_irrefl _)
  have born := before.apply (.operation (.child c.home)) nofun
  unfold prepare
  cases isParent : c.parent with
  | none => exact born
  | some parent =>
    refine List.foldlRecOn (motive := c.OnlyParent ⟨s.scopes.size⟩) parent.superArities _ born
      fun t only arity _ => only.apply (.offer _ _) fun added q body => ?_
    cases added
    cases body
    exact isParent

/-- All that `super` ever builds for the new object is of the parent class. -/
theorem Moment.onlyParent (placed : s.SupersPlaced) (moment : c.Moment s t) :
    c.OnlyParent ⟨s.scopes.size⟩ t := by
  induction moment with
  | prepared => exact onlyParent_prepare placed
  | @change t change _ others _ only =>
    exact only.apply change fun added q body => absurd body (others added)
  | @join _ _ u _ _ _ target base _ _ _ _ _ _ _ _ only =>
    exact (only.apply (.merge target base.scope) nofun).apply (.noteSuper target) nofun

end Class

/-- The law of the moments of a construction. -/
def Law.moment (c : Class) (s : Store) : Law fun _ => true where
  inv := c.Moment s
  isNew id := id ≠ ⟨s.scopes.size⟩
  change {change t} made _ moment := by
    refine .change (made.mono fun _ _ => trivial) (fun added body => ?_) moment
    obtain ⟨-, rfl, new⟩ := made.adds_super added body
    exact new rfl
  born moment same := absurd moment.size_lt (Nat.not_lt.2 (Nat.le_of_eq (ScopeId.mk.inj same)))
  join moment mem body _ before constructs after := .join moment mem body before constructs after

/-- An object is built from one moment of its construction to another one. -/
theorem Class.moment_build (c : Class) (n : Nat) (args : List Value) (context : Context) (s : Store) :
    c.Moment s ((Below.upTo n).build n ⟨s.scopes.size⟩ c args context (c.prepare s)).2 := by
  have lawful := Below.lawful_upTo (Law.moment c s) (Pace.same _) n n
  have books : ∀ change : Change, change.Made (fun _ => true) (fun _ => True) →
      (∀ {id d q}, change.Adds id d → d.body ≠ .super q ⟨s.scopes.size⟩) →
      Run.Safe (Law.moment c s) (Pace.same _) n n (Run.change change.apply) (Run.change change.apply) :=
    fun _ made others _ _ _ _ written moment =>
      .ok (made.written written) (.change made others moment) trivial
  have executed := Below.safe_executeBlock lawful ⟨s.scopes.size⟩ c.body
    (Stmt.blockEverywhere_of_forall (fun _ => rfl) _)
  have safe : Run.Safe (Law.moment c s) (Pace.same _) n n
      ((Below.upTo n).build n ⟨s.scopes.size⟩ c args) _ :=
    Run.safe_bind executed fun _ => Below.safe_finish_of_books lawful
      (books (.offer ⟨s.scopes.size⟩ _) (.supply trivial) fun added => by
        cases added
        nofun)
      (fun frame => books (.noteFrame ⟨s.scopes.size⟩ frame) (.noteFrame trivial frame) nofun)
      (fun name kept => books (.dropCallables ⟨s.scopes.size⟩ name) (.drop trivial kept) nofun)
  exact (safe context context _ ⟨rfl, rfl⟩ (Store.written_of_forall (fun _ => rfl) _) .prepared).inv

/-- A construction stays in its moments, however it ends, unless the home of
the class is gone. -/
theorem Class.moment_constructAt (c : Class) (levels : Nat) (args : List Value) (context : Context)
    (s : Store) : let t := (Run.constructAt levels c args context s).2
      t = s ∨ c.Moment s t := by
  cases levels with
  | zero => exact .inl rfl
  | succ n =>
    by_cases lives : s.isLive context.held c.home = true
    · right
      rw [Run.constructAt_eq lives]
      exact c.moment_build n args _ s
    · left
      rw [Run.constructAt, Below.constructObject, Run.bind_apply, Run.requireLive, if_neg lives]

-- ================================================================ the result

/-- **What can be found is at home.** From every scope a way of parents and
merged bases leads to the home of each callable and each class in its tables,
own or inherited. So while a scope is alive, no call of an overload that is
found there stops because a home is gone, nor does the construction of an
object of a class that is found there, as far as the class itself goes. From
then on, up to the end of that construction, whatever `super` builds for the
object is of the parent class, so that only the home of an ancestor can turn
out to be gone. -/
theorem Store.Arises.homes_found {s : Store} (arises : s.Arises) :
    (∀ id, ∀ d ∈ (s.scope id).callables, ∀ place, d.home? = some place → s.Finds id place) ∧
      (∀ id half (name : String) (c : Class), ((s.scope id).classes.half half)[name]? = some c →
        s.Finds id c.home) ∧
      ∀ context id, s.isLive context.held id = true →
        (∀ d ∈ (s.scope id).callables, ∀ place, d.home? = some place →
          Run.requireLive place d.name context s = (.ok (), s)) ∧
        ∀ name c, s.class? id name = some c →
          Run.requireLive c.home c.name context s = (.ok (), s) ∧
          (∀ levels args, let t := (Run.constructAt levels c args context s).2
            t = s ∨ c.Moment s t) ∧
          ∀ t, c.Moment s t → t.Arises ∧ c.OnlyParent ⟨s.scopes.size⟩ t := by
  have rooted := arises.rooted
  refine ⟨fun id d mem place => rooted.callable mem, rooted.class,
    fun context id lives => ⟨fun d mem place home => ?_, fun name c found => ⟨?_, ?_, ?_⟩⟩⟩
  · have finds := rooted.callable mem home
    exact Run.requireLive_eq (isLive_of_leadsTo lives finds.leads finds.inStore)
  · have finds : s.Finds id c.home := by
      rcases Table.get?_eq_some.1 found with own | ⟨-, inherited⟩
      · exact rooted.class id .own name c own
      · exact rooted.class id .inherited name c inherited
    exact Run.requireLive_eq (isLive_of_leadsTo lives finds.leads finds.inStore)
  · exact fun levels args => c.moment_constructAt levels args context s
  · exact fun t moment => ⟨moment.arises arises, moment.onlyParent arises.placed⟩

/-- A method of an object whose parent part has been merged into it runs below
that part, which nothing but the object keeps alive. -/
theorem merged_method_is_at_home :
    let program : Block :=
      [⟨1, .declareClass "P" none [⟨1, .define "m" [] []⟩]⟩,
        ⟨2, .declareClass "D" (some (.name "P")) []⟩,
        ⟨3, .assign (.name "o") (.new "D" [])⟩]
    let s := ((Request.execute ⟨0⟩ program).run 6 ⟨10, 0, [⟨0⟩]⟩ Store.empty.addRoot.2).2
    s.Arises ∧ s.isLive [⟨0⟩] ⟨1⟩ = true ∧ ∃ d ∈ (s.scope ⟨1⟩).callables,
      d.home? = some ⟨3⟩ ∧ s.Finds ⟨1⟩ ⟨3⟩ ∧
        Run.requireLive ⟨3⟩ d.name ⟨10, 0, [⟨0⟩]⟩ s = (.ok (), s) := by
  intro program s
  have arises : s.Arises :=
    .hosted (.ask 6 ⟨10, 0, [⟨0⟩]⟩ (.operate (o := .root) .start trivial) trivial)
  have lives : s.isLive [⟨0⟩] ⟨1⟩ = true := by decide +kernel
  have homes : (s.scope ⟨1⟩).callables.filterMap Callable.home? = [⟨3⟩] := by decide +kernel
  obtain ⟨d, mem, home⟩ : ∃ d ∈ (s.scope ⟨1⟩).callables, d.home? = some ⟨3⟩ := by
    rw [← List.mem_filterMap, homes]
    exact List.mem_cons_self
  obtain ⟨finds, -, found⟩ := arises.homes_found
  exact ⟨arises, lives, d, mem, home, finds ⟨1⟩ d mem ⟨3⟩ home,
    (found ⟨10, 0, [⟨0⟩]⟩ ⟨1⟩ lives).1 d mem ⟨3⟩ home⟩

end RoutineScript
