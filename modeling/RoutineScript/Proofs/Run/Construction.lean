/-
The steps of a construction that has succeeded.

Whoever has an object in hands knows that each step of its construction has
been taken: its class's body was executed, one of its constructors was
called, a parent part was made sure of, and then `super` and the constructors
were dropped. What is said about finished objects is read off this one
inversion (`Below.Built`). The first to be read off is that no `super` and no
constructor is seen from an object that is finished.
-/
import RoutineScript.Proofs.Run.Lawful

namespace RoutineScript

-- ==================================================================== runs

namespace Run

variable {α β : Type} {context : Context} {s t : Store}

/-- A run that has ended well has gone through all its steps. -/
theorem exists_of_bind {run : Run β} {next : β → Run α} {a : α}
    (eq : (run >>= next) context s = (.ok a, t)) :
    ∃ b u, run context s = (.ok b, u) ∧ next b context u = (.ok a, t) := by
  rw [bind_apply] at eq
  split at eq
  · next b u first => exact ⟨b, u, first, eq⟩
  · cases eq

/-- A run that has ended well has kept the law. -/
theorem Safe.keeps {allows : Stmt → Bool} {law : Law allows} {n : Nat} {run : Run α} {a : α}
    (safe : Safe law (Pace.same allows) n n run run) (eq : run context s = (.ok a, t))
    (written : s.Written allows) (inv : law.inv s) : t.Written allows ∧ law.inv t := by
  have kept := safe context context s ⟨rfl, rfl⟩ written inv
  rw [eq] at kept
  exact ⟨kept.written, kept.inv⟩

/-- Looking for what is still alive changes nothing. -/
theorem eq_of_requireLive {id : ScopeId} {name : String}
    (eq : requireLive id name context s = (.ok (), t)) : t = s := by
  unfold requireLive at eq
  split at eq <;> cases eq
  rfl

end Run

-- ============================================================= construction

namespace Below

open Run

/-- How an object is built, `super` being installed already. -/
inductive Built (below : Below) (n : Nat) (object : ScopeId) (c : Class) (args : List Value)
    (context : Context) (s : Store) : Store → Prop where
  | built {flow : Flow} {candidates : List Callable} {constructor : Callable} {v : Value}
      {s₁ s₂ s₃ s₄ : Store} :
      below.executeBlock n object c.body context s = (.ok flow, s₁) →
      constructors object context s₁ = (.ok candidates, s₂) →
      constructor ∈ candidates →
      below.invokeWith (fun frame => change (·.noteFrame object frame)) constructor args false
        context s₂ = (.ok v, s₃) →
      (if c.parent.isSome then below.completeParent object c.name context s₃ = (.ok (), s₄)
        else s₄ = s₃) →
      Built below n object c args context s
        ((s₄.dropCallables object superName).dropCallables object constructorName)

variable {below : Below} {n : Nat} {object : ScopeId} {c : Class} {args : List Value}
  {context : Context} {s t : Store} {o : Object}

theorem built_of_build (eq : below.build n object c args context s = (.ok o, t)) :
    o = ⟨object, c.name⟩ ∧ below.Built n object c args context s t := by
  unfold build at eq
  obtain ⟨flow, s₁, executed, eq⟩ := exists_of_bind eq
  obtain ⟨candidates, s₂, found, eq⟩ := exists_of_bind eq
  cases selected : Callable.select? candidates args with
  | none =>
    simp only [selected] at eq
    cases eq
  | some constructor =>
    simp only [selected] at eq
    obtain ⟨v, s₃, called, eq⟩ := exists_of_bind eq
    have mem := List.mem_of_find?_eq_some selected
    cases isSome : c.parent.isSome with
    | true =>
      rw [isSome] at eq
      obtain ⟨_, s₄, completed, eq⟩ := exists_of_bind eq
      cases eq
      exact ⟨rfl, .built executed found mem called (by rwa [if_pos isSome])⟩
    | false =>
      rw [isSome] at eq
      cases eq
      exact ⟨rfl, .built executed found mem called (by rw [isSome]; rfl)⟩

/-- The constructors of an object are its own, or the one that is supplied. -/
theorem constructors_cases {candidates : List Callable}
    (eq : constructors object context s = (.ok candidates, t)) :
    (t = s ∧ ∀ d ∈ candidates, d ∈ (s.scope object).procedures.own) ∨
      t = s.addProcedure object (.ofScript constructorName [] [] object) ∧
        candidates = [.ofScript constructorName [] [] object] := by
  unfold constructors at eq
  obtain ⟨declared, _, found, eq⟩ := exists_of_bind eq
  cases found
  split at eq
  · cases eq
    exact .inr ⟨rfl, rfl⟩
  · cases eq
    exact .inl ⟨rfl, fun d mem => (List.mem_filter.1 mem).1⟩

/-- The parent part has been there, or is constructed by a `super` of the
object itself. -/
theorem completeParent_cases {className : String}
    (eq : below.completeParent object className context s = (.ok (), t)) :
    (t = s ∧ (s.scope object).construction.superInvoked = true) ∨
      ∃ d ∈ (s.scope object).procedures.own, d.name = superName ∧
        ∃ v, below.invoke d [] false context s = (.ok v, t) := by
  unfold completeParent at eq
  obtain ⟨_, _, looked, eq⟩ := exists_of_bind eq
  cases looked
  by_cases invoked : (s.scope object).construction.superInvoked = true
  · rw [if_pos invoked] at eq
    cases eq
    exact .inl ⟨rfl, invoked⟩
  · rw [if_neg invoked] at eq
    obtain ⟨supers, _, found, eq⟩ := exists_of_bind eq
    cases found
    cases selected : ((s.scope object).procedures.ownNamed superName).find?
        (·.signature.arity == 0) with
    | none =>
      simp only [selected] at eq
      cases eq
    | some d =>
      simp only [selected] at eq
      obtain ⟨v, _, called, eq⟩ := exists_of_bind eq
      cases eq
      obtain ⟨own, named⟩ := List.mem_filter.1 (List.mem_of_find?_eq_some selected)
      exact .inr ⟨d, own, beq_iff_eq.1 named, v, called⟩

/-- To call a `super` is to construct an object of the parent class that joins
the target. -/
theorem exists_of_invoke_super {d : Callable} {parent : Class} {target : ScopeId} {v : Value}
    {wanted : Bool} (body : d.body = .super parent target)
    (eq : (Below.upTo n).invoke d args wanted context s = (.ok v, t)) :
    ∃ base u, parent.Constructs s base u ∧ t = (u.merge target base.scope).noteSuper target := by
  unfold invoke invokeWith at eq
  rw [body] at eq
  obtain ⟨_, _, live, eq⟩ := exists_of_bind eq
  cases eq_of_requireLive live
  obtain ⟨base, u, constructed, eq⟩ := exists_of_bind eq
  obtain ⟨_, _, merged, eq⟩ := exists_of_bind eq
  cases merged
  obtain ⟨_, _, noted, eq⟩ := exists_of_bind eq
  cases noted
  cases eq
  exact ⟨base, u, constructs_of_deeper constructed, rfl⟩

end Below

/-- The store in which an object of a class begins to be built: with a new
scope, and `super` installed there if there is a parent class. -/
def Class.prepare (c : Class) (s : Store) : Store :=
  let (object, t) := s.addChild c.home
  match c.parent with
  | some parent =>
    parent.superArities.foldl (fun t arity => t.addProcedure object (.ofSuper arity parent object)) t
  | none => t

/-- Preparing a new object keeps a law. -/
theorem Law.inv_prepare {allows : Stmt → Bool} (law : Law allows) {c : Class} {s : Store}
    (new : law.isNew (s.addChild c.home).1) (own : c.Written allows) (written : s.Written allows)
    (inv : law.inv (s.addChild c.home).2) :
    (c.prepare s).Written allows ∧ law.inv (c.prepare s) := by
  have born := written.addChild c.home
  unfold Class.prepare
  cases isParent : c.parent with
  | none => exact ⟨born, inv⟩
  | some parent =>
    exact Below.Law.inv_installSupers new (own.parent isParent) parent.superArities born inv

/-- To construct an object is to prepare and build it, provided that the home
of the class is alive. -/
theorem Run.constructAt_eq {levels : Nat} {c : Class} {args : List Value} {context : Context}
    {s : Store} (lives : s.isLive context.held c.home = true) :
    Run.constructAt (levels + 1) c args context s =
      (Below.upTo levels).build levels ⟨s.scopes.size⟩ c args
        { context with held := ⟨s.scopes.size⟩ :: context.held } (c.prepare s) := by
  have live : Run.requireLive c.home c.name context s = (.ok (), s) := if_pos lives
  rw [Run.constructAt, Below.constructObject, Run.bind_apply, live]
  unfold Below.inChild Class.prepare
  dsimp only
  rw [Run.bind_apply]
  cases c.parent <;> rfl

/-- An object is constructed only while the home of its class is alive. -/
theorem Run.isLive_of_constructAt {levels : Nat} {c : Class} {args : List Value} {context : Context}
    {s t : Store} {o : Object} (eq : Run.constructAt (levels + 1) c args context s = (.ok o, t)) :
    s.isLive context.held c.home = true := by
  by_contra gone
  rw [Run.constructAt, Below.constructObject, Run.bind_apply, Run.requireLive, if_neg gone] at eq
  cases eq

/-- An object that is constructed is a new scope, which is prepared and
built. -/
theorem Class.Constructs.exists_build {c : Class} {s t : Store} {o : Object}
    (constructs : c.Constructs s o t) :
    ∃ n args context, (Below.upTo n).build n ⟨s.scopes.size⟩ c args context (c.prepare s)
      = (.ok o, t) := by
  obtain ⟨levels, args, context, eq⟩ := constructs
  cases levels with
  | zero => cases eq
  | succ n => exact ⟨n, args, _, Run.constructAt_eq (Run.isLive_of_constructAt eq) ▸ eq⟩

theorem Store.size_le_join (s : Store) (target base : ScopeId) :
    s.scopes.size ≤ ((s.merge target base).noteSuper target).scopes.size :=
  Nat.le_trans (Change.size_le_apply (.merge target base) s)
    (Change.size_le_apply (.noteSuper target) _)

/-- The law that no scope is lost. -/
def Law.grown (allows : Stmt → Bool) (size : Nat) : Law allows where
  inv s := size ≤ s.scopes.size
  isNew _ := True
  change {c s} _ _ le := Nat.le_trans le (c.size_le_apply s)
  born _ := trivial
  join {_ _ u _ _ _ target base} _ _ _ _ _ _ le :=
    Nat.le_trans le (u.size_le_join target base.scope)

-- ========================================================== finished objects

/-- What is still seen when a name has been dropped does not bear it. -/
theorem Store.mem_callables_dropCallables {s : Store} {id : ScopeId} {name : String} {d : Callable}
    (mem : d ∈ ((s.dropCallables id name).scope id).callables) :
    d ∈ (s.scope id).callables ∧ d.name ≠ name := by
  have inStore := Store.lt_of_mem_callables mem
  rw [dropCallables, scopes_size_modifyScope] at inStore
  rw [dropCallables, scope_modifyScope s inStore, if_pos rfl] at mem
  simp only [Scope.mem_callables, Overloads.mem_all_drop] at mem ⊢
  exact ⟨mem.imp And.left And.left, mem.elim And.right And.right⟩

/-- A construction that ends with an object has constructed it. -/
theorem Class.exists_constructs {c : Class} {levels : Nat} {args : List Value} {context : Context}
    {s : Store} {id : ScopeId}
    (ends : (Run.constructAt levels c args context s).1.toOption.map Object.scope = some id) :
    ∃ o, o.scope = id ∧ c.Constructs s o (Run.constructAt levels c args context s).2 := by
  cases ended : (Run.constructAt levels c args context s).1 with
  | error halt =>
    rw [ended] at ends
    cases ends
  | ok o =>
    rw [ended] at ends
    exact ⟨o, Option.some.inj ends, levels, args, context, Prod.ext ended rfl⟩

namespace Class.Constructs

variable {c : Class} {s t : Store} {o : Object} (constructs : c.Constructs s o t)

include constructs

theorem object_eq : o = ⟨⟨s.scopes.size⟩, c.name⟩ := by
  obtain ⟨n, args, context, eq⟩ := constructs.exists_build
  exact (Below.built_of_build eq).1

/-- A law is kept by every construction. -/
theorem keeps {allows : Stmt → Bool} (law : Law allows) (own : c.Written allows)
    (written : s.Written allows) (inv : law.inv s) : t.Written allows ∧ law.inv t := by
  obtain ⟨levels, args, context, eq⟩ := constructs
  cases levels with
  | zero => cases eq
  | succ n =>
    have lawful := Below.lawful_upTo law (Pace.same allows) n n
    exact (Run.safe_constructAt law _ lawful own args).keeps eq written inv

/-- No scope is lost meanwhile. -/
theorem size_le : s.scopes.size ≤ t.scopes.size := by
  have own : c.Written fun _ => true := c.written_of_forall fun _ => rfl
  exact (constructs.keeps (Law.grown _ s.scopes.size) own (s.written_of_forall fun _ => rfl)
    (Nat.le_refl _)).2

/-- It is in the store when it is finished. -/
theorem lt : o.scope.index < t.scopes.size := by
  have own : c.Written fun _ => true := c.written_of_forall fun _ => rfl
  obtain ⟨n, args, context, eq⟩ := constructs.exists_build
  let law := Law.grown (fun _ => true) (s.scopes.size + 1)
  have born : law.inv (s.addChild c.home).2 := by
    show s.scopes.size + 1 ≤ (s.scopes.push _).size
    rw [Array.size_push]
  have prepared := law.inv_prepare trivial own (s.written_of_forall fun _ => rfl) born
  have lawful := Below.lawful_upTo law (Pace.same _) n n
  have safe : Run.Safe law _ n n ((Below.upTo n).build n ⟨s.scopes.size⟩ c args) _ :=
    Below.safe_build lawful trivial own
  rw [constructs.object_eq]
  exact (safe.keeps eq prepared.1 prepared.2).2

/-- No `super` and no constructor is seen from an object that is finished. -/
theorem cleared :
    ∀ d ∈ (t.scope o.scope).callables, d.name ≠ superName ∧ d.name ≠ constructorName := by
  obtain ⟨n, args, context, eq⟩ := constructs.exists_build
  obtain ⟨rfl, built⟩ := Below.built_of_build eq
  cases built
  intro d mem
  obtain ⟨mem, noConstructor⟩ := Store.mem_callables_dropCallables mem
  exact ⟨(Store.mem_callables_dropCallables mem).2, noConstructor⟩

end Class.Constructs

end RoutineScript
