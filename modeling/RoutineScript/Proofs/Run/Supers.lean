/-
Who can call `super`.

While an object is under construction, the callables that construct its
parent part are in its own tables. A scope that is made below the object then
inherits them, and so do the scopes below that one. When the construction has
succeeded they are dropped from the object, and from nowhere else.

# Two laws

In every store, a `super` is seen by its target and by scopes below it only
(`SupersPlaced`). And once an object is finished, its `super` spreads no more:
whoever sees it later lies within a scope that saw it when the construction
ended (`Confined`), and that scope is not the object, which has been cleared.

Later is change by change, in the rest of the same run as well as in whatever
is asked for afterwards (`Store.Later`).

# What is left open

The scopes that saw it then keep it. The frame of the constructor is one of
them, and a callable that was defined there runs below that frame whenever it
is called: if the frame stays alive, `super` can be called for an object that
has long been finished.
-/
import RoutineScript.Proofs.Run.Construction
import RoutineScript.Proofs.Run.Host

namespace RoutineScript

-- ================================================================= places

namespace Store

/-- A scope is the one at the top, or lies below it. -/
inductive Within (s : Store) (top : ScopeId) : ScopeId → Prop where
  | self : s.Within top top
  | child {key parent : ScopeId} :
      (s.scope key).parent = some parent → s.Within top parent → s.Within top key

/-- Each `super` bears this name, and only its target and scopes below that
one see it. -/
def SupersPlaced (s : Store) : Prop :=
  ∀ ⦃id : ScopeId⦄ ⦃d : Callable⦄ ⦃parent : Class⦄ ⦃target : ScopeId⦄,
    d ∈ (s.scope id).callables → d.body = .super parent target →
    d.name = superName ∧ target.index < s.scopes.size ∧ s.Within target id

variable {s t : Store} {c : Change} {o top : ScopeId}

theorem Within.apply {key : ScopeId} (within : s.Within top key) : (c.apply s).Within top key := by
  induction within with
  | self => exact .self
  | child isParent _ ih => exact .child (Change.parent_apply isParent) ih

/-- What is merged has no `super` of its own. -/
def MergesFinished (s : Store) (c : Change) : Prop :=
  ∀ ⦃id base : ScopeId⦄, c = .merge id base → ∀ d ∈ (s.scope base).ownCallables, d.name ≠ superName

theorem mergesFinished_noteSuper (s : Store) (id : ScopeId) : s.MergesFinished (.noteSuper id) := by
  intro _ _ merges
  cases merges

theorem SupersPlaced.apply (placed : s.SupersPlaced)
    (adds : ∀ {id d parent target}, c.Adds id d → d.body = .super parent target →
      d.name = superName ∧ target = id)
    (finished : s.MergesFinished c) : (c.apply s).SupersPlaced := by
  intro id d parent target mem body
  rcases Change.callable_of_apply mem with before | added | ⟨above, isParent, before⟩ | ⟨base, merges, own⟩
  · obtain ⟨named, inStore, within⟩ := placed before body
    exact ⟨named, Nat.lt_of_lt_of_le inStore (c.size_le_apply s), within.apply⟩
  · obtain ⟨named, rfl⟩ := adds added body
    exact ⟨named, lt_of_mem_callables mem, .self⟩
  · obtain ⟨named, inStore, within⟩ := placed before body
    exact ⟨named, Nat.lt_of_lt_of_le inStore (c.size_le_apply s), .child isParent within.apply⟩
  · have named := (placed (Scope.mem_callables_of_own own) body).1
    exact absurd named (finished merges d own)

/-- Whoever sees a `super` for `o` lies within a scope that saw it in `t`. -/
structure Confined (t : Store) (o : ScopeId) (s : Store) : Prop where
  inStore : o.index < s.scopes.size
  placed : s.SupersPlaced
  seen : ∀ {id d parent}, d ∈ (s.scope id).callables → d.body = .super parent o →
    ∃ y, d ∈ (t.scope y).callables ∧ s.Within y id

theorem Confined.apply (confined : t.Confined o s) (placed : (c.apply s).SupersPlaced)
    (adds : ∀ {id d parent}, c.Adds id d → d.body ≠ .super parent o)
    (finished : s.MergesFinished c) : t.Confined o (c.apply s) where
  inStore := Nat.lt_of_lt_of_le confined.inStore (c.size_le_apply s)
  placed := placed
  seen := by
    intro id d parent mem body
    rcases Change.callable_of_apply mem with
      before | added | ⟨above, isParent, before⟩ | ⟨base, merges, own⟩
    · obtain ⟨y, saw, within⟩ := confined.seen before body
      exact ⟨y, saw, within.apply⟩
    · exact absurd body (adds added)
    · obtain ⟨y, saw, within⟩ := confined.seen before body
      exact ⟨y, saw, .child isParent within.apply⟩
    · have named := (confined.placed (Scope.mem_callables_of_own own) body).1
      exact absurd named (finished merges d own)

end Store

-- =================================================================== laws

section

variable {allows : Stmt → Bool} {isNew : ScopeId → Prop} {c : Change} {s : Store}

/-- A run adds a `super` to its target only, and only to an object that is
new. -/
theorem Change.Made.adds_super (made : c.Made allows isNew) {id target : ScopeId} {d : Callable}
    {parent : Class} (added : c.Adds id d) (body : d.body = .super parent target) :
    d.name = superName ∧ target = id ∧ isNew id := by
  cases made with
  | offerSuper new _ arity =>
    cases added
    cases body
    exact ⟨rfl, rfl, new⟩
  | define | supply =>
    cases added
    cases body
  | _ => cases added

/-- A run merges nothing in a single change. -/
theorem Change.Made.mergesFinished (made : c.Made allows isNew) : s.MergesFinished c := by
  rintro id base rfl
  cases made

/-- An object that has been constructed can be merged. -/
theorem Class.Constructs.mergesFinished {parent : Class} {base : Object} {t : Store}
    (constructs : parent.Constructs s base t) (target : ScopeId) :
    t.MergesFinished (.merge target base.scope) := by
  intro id _ same d own
  cases same
  exact (constructs.cleared d (Scope.mem_callables_of_own own)).1

end

namespace Store

variable {allows : Stmt → Bool} {isNew : ScopeId → Prop} {c : Change} {s t u : Store}

theorem SupersPlaced.of_made (placed : s.SupersPlaced) (made : c.Made allows isNew) :
    (c.apply s).SupersPlaced :=
  placed.apply (fun added body => ⟨(made.adds_super added body).1, (made.adds_super added body).2.1⟩)
    made.mergesFinished

theorem SupersPlaced.merge {parent : Class} {base : Object} (placed : t.SupersPlaced)
    (constructs : parent.Constructs s base t) (target : ScopeId) :
    (t.merge target base.scope).SupersPlaced :=
  placed.apply (c := .merge target base.scope) nofun (constructs.mergesFinished target)

theorem SupersPlaced.noteSuper (placed : s.SupersPlaced) (id : ScopeId) :
    (s.noteSuper id).SupersPlaced :=
  placed.apply (c := .noteSuper id) nofun (s.mergesFinished_noteSuper id)

/-- A parent part may join any object. -/
theorem Confined.join {o : ScopeId} {parent : Class} {base : Object} (confined : t.Confined o u)
    (constructs : parent.Constructs s base u) (target : ScopeId) :
    t.Confined o ((u.merge target base.scope).noteSuper target) := by
  have placed := confined.placed.merge constructs target
  have merged : t.Confined o (u.merge target base.scope) :=
    confined.apply (c := .merge target base.scope) placed nofun (constructs.mergesFinished target)
  exact merged.apply (c := .noteSuper target) (placed.noteSuper target) nofun
    (mergesFinished_noteSuper _ target)

end Store

/-- The law of the places of `super`. -/
def Law.placed (allows : Stmt → Bool) : Law allows where
  inv := Store.SupersPlaced
  isNew _ := True
  change made _ placed := placed.of_made made
  born _ := trivial
  join _ _ _ _ _ constructs placed := (placed.merge constructs _).noteSuper _

/-- The law of a finished object, whose construction ended in `t`. -/
def Law.confined (allows : Stmt → Bool) (t : Store) (o : ScopeId) : Law allows where
  inv := t.Confined o
  isNew id := id ≠ o
  change made _ confined := by
    refine confined.apply (confined.placed.of_made made) (fun added body => ?_) made.mergesFinished
    obtain ⟨-, rfl, new⟩ := made.adds_super added body
    exact new rfl
  born confined := by
    rintro rfl
    exact Nat.lt_irrefl _ confined.inStore
  join _ _ _ _ _ constructs confined := confined.join constructs _

-- ================================================================ requests

/-- What a host asks to be executed is allowed. -/
def Request.Allowed (allows : Stmt → Bool) : Request → Prop
  | execute _ program => program.everywhere allows = true
  | executeSource _ source =>
    ∀ program, Block.ofSource source = .ok program → program.everywhere allows = true
  | evaluate .. | instantiate .. | call .. => True

/-- A law is kept by whatever a host asks for. -/
theorem Law.keeps_run {allows : Stmt → Bool} (law : Law allows) {request : Request}
    (allowed : request.Allowed allows) (levels : Nat) (context : Context) {s : Store}
    (written : s.Written allows) (inv : law.inv s) :
    (request.run levels context s).2.Written allows ∧ law.inv (request.run levels context s).2 := by
  have lawful := Below.lawful_upTo law (Pace.same allows) levels levels
  have executes : ∀ scope (program : Block), program.everywhere allows = true →
      Run.Safe law (Pace.same allows) levels levels (Interpreter.runProgram levels scope program)
        (Interpreter.runProgram levels scope program) := by
    intro scope program allowed
    refine Run.safe_bind ?_ fun _ => Run.safe_pure
    rintro context _ s ⟨-, rfl⟩ written inv
    cases levels with
    | zero => exact .cut written inv rfl nofun
    | succ n =>
      have lawful := Below.lawful_upTo law (Pace.same allows) n n
      exact Run.safe_executeAt law _ lawful scope allowed context context s ⟨rfl, rfl⟩ written inv
  have safe : Run.Safe law (Pace.same allows) levels levels (request.run levels)
      (request.run levels) := by
    cases request with
    | execute scope program =>
      exact Run.safe_bind (executes scope program allowed) fun _ => Run.safe_pure
    | executeSource scope source =>
      refine Run.safe_bind ?_ fun _ => Run.safe_pure
      refine Run.obeys_bind (P := fun program => program.everywhere allows = true)
        (Run.obeys_ofResult fun program read => allowed program read) (executes scope)
    | evaluate scope text =>
      exact Run.safe_bind Run.safe_ofResult fun e => Below.safe_evaluate lawful scope e
    | instantiate scope className args =>
      exact Run.safe_bind (Run.obeys_holding (Below.safe_instantiate lawful)) fun _ => Run.safe_pure
    | call object name args =>
      exact Run.obeys_holding (Run.obeys_holding (Below.safe_callMember lawful))
  have kept := safe context context s ⟨rfl, rfl⟩ written inv
  exact ⟨kept.written, kept.inv⟩

-- ================================================================== later

/-- What becomes of a store from one moment to the next, when `o` is not being
built any more: its host works on it, and scripts make changes, construct
objects and let them join others. -/
inductive Store.Later (s : Store) (o : ScopeId) : Store → Prop where
  | now : s.Later o s
  | operate {t : Store} (op : Operation) : s.Later o t → s.Later o (op.perform t).2
  | change {t : Store} {c : Change} :
      c.Made (fun _ => true) (· ≠ o) → s.Later o t → s.Later o (c.apply t)
  | join {t u : Store} {parent : Class} {base : Object} (target : ScopeId) :
      parent.Constructs t base u → s.Later o u →
      s.Later o ((u.merge target base.scope).noteSuper target)

theorem Request.allowed_of_forall {allows : Stmt → Bool} (all : ∀ statement, allows statement = true)
    (request : Request) : request.Allowed allows := by
  cases request with
  | execute _ program => exact Stmt.blockEverywhere_of_forall all program
  | executeSource => exact fun program _ => Stmt.blockEverywhere_of_forall all program
  | evaluate | instantiate | call => trivial

namespace Store

variable {s t u : Store} {o : ScopeId}

theorem Later.size_le (later : s.Later o t) : s.scopes.size ≤ t.scopes.size := by
  induction later with
  | now => exact Nat.le_refl _
  | @operate t op _ ih => exact Nat.le_trans ih (Change.size_le_apply (.operation op) t)
  | @change t c _ _ ih => exact Nat.le_trans ih (c.size_le_apply t)
  | @join _ u _ base target _ _ ih => exact Nat.le_trans ih (u.size_le_join target base.scope)

/-- What a host adds itself is no `super`. -/
theorem not_super_of_operation {op : Operation} {id target : ScopeId} {d : Callable}
    {parent : Class} (added : (Change.operation op).Adds id d) : d.body ≠ .super parent target := by
  cases added
  nofun

theorem IsNative.supersPlaced (native : s.IsNative) : s.SupersPlaced := by
  intro id d parent target mem body
  have isHost := native.callable id d mem
  rw [Callable.isHost, body] at isHost
  cases isHost

/-- A finished object stays confined. -/
theorem Confined.later (confined : t.Confined o s) (later : s.Later o u) : t.Confined o u := by
  induction later with
  | now => exact confined
  | operate op _ ih =>
    have placed := ih.placed.apply (c := .operation op)
      (fun added body => absurd body (not_super_of_operation added)) fun _ _ => nofun
    exact ih.apply (c := .operation op) placed not_super_of_operation fun _ _ => nofun
  | @change u c made _ ih =>
    exact (Law.confined _ t o).change made (u.written_of_forall fun _ => rfl) ih
  | join target constructs _ ih => exact ih.join constructs target

end Store

/-- The law of what is later: no run builds an object that is there
already. -/
def Law.later {s : Store} {o : ScopeId} (there : o.index < s.scopes.size) :
    Law fun _ => true where
  inv := s.Later o
  isNew id := id ≠ o
  change made _ later := .change made later
  born later := by
    rintro rfl
    exact Nat.lt_irrefl _ (Nat.lt_of_lt_of_le there later.size_le)
  join _ _ _ _ _ constructs later := .join _ constructs later

/-- So whatever a host asks for leads from one moment to a later one. -/
theorem Store.Later.run {s t : Store} {o : ScopeId} (later : s.Later o t)
    (there : o.index < s.scopes.size) (request : Request) (levels : Nat) (context : Context) :
    s.Later o (request.run levels context t).2 :=
  ((Law.later there).keeps_run (request.allowed_of_forall fun _ => rfl) levels context
    (t.written_of_forall fun _ => rfl) later).2

/-- **A finished object is cleared of `super`, which spreads no more.** Nobody
sees it from the object; and at every later moment, whoever sees it lies
within a scope that is not the object, but lay below it and saw it already
when the construction ended. -/
theorem Class.Constructs.super_confined {c : Class} {s t u : Store} {o : Object}
    (placed : s.SupersPlaced) (constructs : c.Constructs s o t) (later : t.Later o.scope u) :
    (∀ d ∈ (t.scope o.scope).callables, d.name ≠ superName) ∧
      ∀ key, ∀ d ∈ (u.scope key).callables, ∀ parent, d.body = .super parent o.scope →
        ∃ y, y ≠ o.scope ∧ t.Within o.scope y ∧ d ∈ (t.scope y).callables ∧ u.Within y key := by
  have own : c.Written fun _ => true := c.written_of_forall fun _ => rfl
  have placed : t.SupersPlaced :=
    (constructs.keeps (Law.placed _) own (s.written_of_forall fun _ => rfl) placed).2
  have cleared : ∀ d ∈ (t.scope o.scope).callables, d.name ≠ superName :=
    fun d mem => (constructs.cleared d mem).1
  have confined : t.Confined o.scope t :=
    ⟨constructs.lt, placed, fun {id _ _} mem _ => ⟨id, mem, .self⟩⟩
  refine ⟨cleared, fun key d mem parent body => ?_⟩
  obtain ⟨y, saw, within⟩ := (confined.later later).seen mem body
  obtain ⟨named, -, below⟩ := placed saw body
  refine ⟨y, ?_, below, saw, within⟩
  rintro rfl
  exact cleared d saw named

/-- A constructor that calls `super` itself, and whatever a host asks for
then. -/
theorem super_confined_of_constructor :
    let parent : Class := ⟨"P", none, [], ⟨0⟩, []⟩
    let c : Class :=
      ⟨"D", some parent, [⟨1, .define "construct" [] [⟨1, .call (.name "super") []⟩]⟩], ⟨0⟩, [0]⟩
    let s := Store.empty.addRoot.2
    let ended := Run.constructAt 5 c [] ⟨10, 0, [⟨0⟩]⟩ s
    s.SupersPlaced ∧ ∃ o, o.scope = ⟨1⟩ ∧ c.Constructs s o ended.2 ∧
      ∀ request levels context, let u := (Request.run levels request context ended.2).2
        ∀ key, ∀ d ∈ (u.scope key).callables, ∀ parent, d.body = .super parent o.scope →
          ∃ y, y ≠ o.scope ∧ ended.2.Within o.scope y ∧ d ∈ (ended.2.scope y).callables ∧
            u.Within y key := by
  intro parent c s ended
  have placed : s.SupersPlaced := (Store.isNative_empty.perform .root nofun).supersPlaced
  obtain ⟨o, here, constructs⟩ : ∃ o, o.scope = ⟨1⟩ ∧ c.Constructs s o ended.2 :=
    Class.exists_constructs (by decide +kernel)
  refine ⟨placed, o, here, constructs, fun request levels context => ?_⟩
  exact (constructs.super_confined placed (.run .now constructs.lt request levels context)).2

/-- A `super` is called for an object that is finished: `again` was defined in
the frame of its constructor, which an object made there keeps alive. -/
theorem finished_object_calls_super :
    let program : Block :=
      [⟨1, .declareClass "P" none []⟩,
        ⟨2, .declareClass "D" (some (.name "P")) [⟨2, .assign (.name "keep") .null⟩,
          ⟨2, .define "construct" [] [⟨2, .define "again" [] [⟨2, .call (.name "super") []⟩]⟩,
            ⟨2, .declareClass "In" none []⟩, ⟨2, .assign (.name "keep") (.new "In" [])⟩]⟩]⟩,
        ⟨3, .assign (.name "o") (.new "D" [])⟩]
    let again : Block := [⟨4, .call (.method (.member (.name "o") "keep") "again") []⟩]
    let s := ((Request.execute ⟨0⟩ program).run 8 ⟨10, 0, [⟨0⟩]⟩ Store.empty.addRoot.2).2
    let ended := (Request.execute ⟨0⟩ again).run 8 ⟨10, 0, [⟨0⟩]⟩ s
    (s.get? ⟨0⟩ "o").map Value.objects = some [⟨1⟩] ∧ (s.scope ⟨1⟩).bases = [⟨5⟩] ∧
      ended.1.toOption.isSome = true ∧ (ended.2.scope ⟨1⟩).bases = [⟨5⟩, ⟨8⟩] := by
  intro program again s ended
  refine ⟨?_, ?_, ?_, ?_⟩ <;> decide +kernel

end RoutineScript
