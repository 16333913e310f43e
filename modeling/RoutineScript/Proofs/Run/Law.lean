/-
What is kept by runs, and how far two runs agree.

# Laws

A `Law` is an invariant of stores that every single change keeps, and that
is kept when a parent part has been constructed and joins its object. To show
that a whole run keeps it nothing else is needed: `Proofs/Run/Lawful.lean`
follows the evaluator once, for all laws.

# Paces

Runs that differ in how many levels of calls they may use are the same run
until one of them is cut short. A `Pace` says which levels and contexts are
compared, and which halts count as being cut short: with the pace of equals a
run is compared to itself, and with a pace at which nothing may be cut, runs
end in the same way whatever their levels are. So do runs in step, which have
the same levels and are cut short together.

`Run.Obeys` puts the two together, and there is one lemma for each way to
make a run.
-/
import RoutineScript.Proofs.Run.Written

namespace RoutineScript

-- ==================================================================== laws

/-- An object of a class is constructed on the way from one store to
another. -/
def Class.Constructs (c : Class) (s : Store) (o : Object) (t : Store) : Prop :=
  ∃ levels args context, Run.constructAt levels c args context s = (.ok o, t)

/-- An invariant of stores that the runs of allowed statements keep. -/
structure Law (allows : Stmt → Bool) where
  inv : Store → Prop
  /-- The objects whose construction began under the law. -/
  isNew : ScopeId → Prop
  change : ∀ {c : Change} {s : Store}, c.Made allows isNew → s.Written allows → inv s →
    inv (c.apply s)
  born : ∀ {s : Store} {home : ScopeId}, inv s → isNew (s.addChild home).1
  /-- A parent part that has been constructed joins its object. -/
  join : ∀ {s t u : Store} {key : ScopeId} {c : Callable} {parent : Class} {target : ScopeId}
    {base : Object},
    inv s → c ∈ (s.scope key).callables → c.body = .super parent target →
    t.Written allows → inv t → parent.Constructs t base u → inv u →
    inv ((u.merge target base.scope).noteSuper target)

/-- Which runs are compared, and which halts cut them short. -/
structure Pace (allows : Stmt → Bool) where
  /-- The levels and the contexts of the two runs. -/
  fits : Nat → Nat → Context → Context → Prop
  cuts : Halt → Prop
  /-- Whether both runs are cut short where one of them is. -/
  inStep : Prop
  together : ∀ {n m c c'}, inStep → fits n m c c' → m = n
  /-- What is worked with keeps the same scopes alive. -/
  live : ∀ {n m c c'}, fits n m c c' → ∀ (s : Store) (id : ScopeId),
    s.isLive c'.held id = s.isLive c.held id
  hold : ∀ {n m c c'} (ids : List ScopeId), fits n m c c' →
    fits n m { c with held := ids ++ c.held } { c' with held := ids ++ c'.held }
  /-- A call that is too deep is too deep for both, or cut short. -/
  tooDeep : ∀ {n m c c'}, fits n m c c' → c.limit ≤ c.depth →
    ¬inStep ∧ cuts (.fault (Cause.depthExceeded c.limit)) ∨
      c'.limit ≤ c'.depth ∧ c'.limit = c.limit
  /-- Other calls use one level each. -/
  descend : ∀ {n m c c'}, fits n m c c' → c.depth < c.limit → c'.depth < c'.limit ∧
    (n = 0 ∧ cuts .exhausted ∨ ∃ n' m', n = n' + 1 ∧ m = m' + 1 ∧
      fits n' m' { c with depth := c.depth + 1 } { c' with depth := c'.depth + 1 })
  loops : ∀ {n m c c' condition body}, allows (.whileLoop condition body) = true →
    fits n m c c' → cuts .exhausted ∧ n ≤ m
  apart : ∀ {n m c c' body}, allows (.thread body) = true → fits n m c c' →
    fits n m { c with depth := 0 } { c' with depth := 0 }
  /-- Where faults are handled, none of them cuts a run short. -/
  handles : ∀ {statement}, allows statement = true →
    ((∃ body handler, statement = .attempt body handler) ∨ ∃ body, statement = .thread body) →
    ∀ fault, ¬cuts (.fault fault)
  onLine : ∀ {fault} (line : Nat), cuts (.fault fault) → cuts (.fault (fault.atLine line))

/-- A run next to itself. -/
def Pace.same (allows : Stmt → Bool) : Pace allows where
  fits n m c c' := n = m ∧ c = c'
  cuts halt := halt = .exhausted
  inStep := False
  together := nofun
  live := by
    rintro n m c c' ⟨rfl, rfl⟩ s id
    rfl
  hold := by
    rintro n m c c' ids ⟨rfl, rfl⟩
    exact ⟨rfl, rfl⟩
  tooDeep := by
    rintro n m c c' ⟨rfl, rfl⟩ tooDeep
    exact .inr ⟨tooDeep, rfl⟩
  descend := by
    rintro n m c c' ⟨rfl, rfl⟩ room
    refine ⟨room, ?_⟩
    cases n with
    | zero => exact .inl ⟨rfl, rfl⟩
    | succ n => exact .inr ⟨n, n, rfl, rfl, rfl, rfl⟩
  loops := by
    rintro n m c c' condition body - ⟨rfl, rfl⟩
    exact ⟨rfl, Nat.le_refl n⟩
  apart := by
    rintro n m c c' body - ⟨rfl, rfl⟩
    exact ⟨rfl, rfl⟩
  handles := by
    intro statement _ _ fault cut
    cases cut
  onLine := by
    intro fault line cut
    cases cut

-- ==================================================================== runs

section

variable {allows : Stmt → Bool} (law : Law allows) (pace : Pace allows)

/-- How two runs end that began alike: in the same way, unless the first one
is cut short, and then too if they are in step. In each case the law is kept. -/
inductive Law.Kept {α : Type} (post : α → Prop) :
    Except Halt α × Store → Except Halt α × Store → Prop where
  | ok {a : α} {t : Store} : t.Written allows → law.inv t → post a → Kept post (.ok a, t) (.ok a, t)
  | fault {fault : Fault} {t : Store} : t.Written allows → law.inv t →
      Kept post (.error (.fault fault), t) (.error (.fault fault), t)
  | cut {halt : Halt} {t : Store} {ended' : Except Halt α × Store} : t.Written allows → law.inv t →
      pace.cuts halt → (pace.inStep → ended' = (.error halt, t)) →
      Kept post (.error halt, t) ended'

variable {law pace} {α : Type} {post : α → Prop} {ended ended' : Except Halt α × Store}

theorem Law.Kept.written (kept : Law.Kept law pace post ended ended') : ended.2.Written allows := by
  cases kept <;> assumption

theorem Law.Kept.inv (kept : Law.Kept law pace post ended ended') : law.inv ended.2 := by
  cases kept <;> assumption

/-- What is known of a result may be told by how either of the runs ended. -/
theorem Law.Kept.imp {post' : α → Prop} (kept : Law.Kept law pace post ended ended')
    (known : ∀ a t, ended = (.ok a, t) → ended' = (.ok a, t) → post a → post' a) :
    Law.Kept law pace post' ended ended' := by
  cases kept with
  | ok written inv h => exact .ok written inv (known _ _ rfl rfl h)
  | fault written inv => exact .fault written inv
  | cut written inv cut both => exact .cut written inv cut both

end

namespace Run

variable {allows : Stmt → Bool} (law : Law allows) (pace : Pace allows) (n m : Nat)

/-- Wherever two runs start alike, the law is kept, and they end alike. -/
def Obeys {α : Type} (post : α → Prop) (run run' : Run α) : Prop :=
  ∀ context context' s, pace.fits n m context context' → s.Written allows → law.inv s →
    Law.Kept law pace post (run context s) (run' context' s)

/-- Any result is fine. -/
abbrev Safe {α : Type} (run run' : Run α) : Prop :=
  Obeys law pace n m (fun _ => True) run run'

variable {law pace n m} {α β : Type} {post : α → Prop}

theorem obeys_pure {a : α} (h : post a) : Obeys law pace n m post (pure a) (pure a) :=
  fun _ _ _ _ written inv => .ok written inv h

theorem safe_pure {a : α} : Safe law pace n m (pure a) (pure a) :=
  obeys_pure trivial

theorem obeys_fail (fault : Fault) :
    Obeys law pace n m post (fail fault : Run α) (fail fault) :=
  fun _ _ _ _ written inv => .fault written inv

/-- A run out of patience is cut short. -/
theorem obeys_exhausted (cut : pace.cuts .exhausted) {run' : Run α}
    (both : pace.inStep → run' = throw .exhausted) :
    Obeys law pace n m post (throw .exhausted) run' :=
  fun _ context' s _ written inv =>
    .cut written inv cut fun inStep => congrFun (congrFun (both inStep) context') s

theorem obeys_bind {P : β → Prop} {run run' : Run β} {next next' : β → Run α}
    (first : Obeys law pace n m P run run')
    (second : ∀ b, P b → Obeys law pace n m post (next b) (next' b)) :
    Obeys law pace n m post (run >>= next) (run' >>= next') := by
  intro context context' s fits written inv
  rw [bind_apply, bind_apply]
  have kept := first context context' s fits written inv
  generalize run context s = ended, run' context' s = ended' at kept
  cases kept with
  | ok written inv h => exact second _ h context context' _ fits written inv
  | fault written inv => exact .fault written inv
  | cut written inv cut both => exact .cut written inv cut fun inStep => by rw [both inStep]

theorem safe_bind {run run' : Run β} {next next' : β → Run α} (first : Safe law pace n m run run')
    (second : ∀ b, Obeys law pace n m post (next b) (next' b)) :
    Obeys law pace n m post (run >>= next) (run' >>= next') :=
  obeys_bind first fun b _ => second b

theorem obeys_ofResult {result : Except Fault α} (h : ∀ a, result = .ok a → post a) :
    Obeys law pace n m post (ofResult result) (ofResult result) := by
  cases result with
  | ok a => exact obeys_pure (h a rfl)
  | error fault => exact obeys_fail fault

theorem safe_ofResult {result : Except Fault α} :
    Safe law pace n m (ofResult result) (ofResult result) :=
  obeys_ofResult fun _ _ => trivial

theorem obeys_look {f : Store → α} (h : ∀ s, s.Written allows → law.inv s → post (f s)) :
    Obeys law pace n m post (look f) (look f) :=
  fun _ _ s _ written inv => .ok written inv (h s written inv)

theorem safe_look {f : Store → α} : Safe law pace n m (look f) (look f) :=
  obeys_look fun _ _ _ => trivial

theorem safe_lookUp {f : Store → Except Fault α} :
    Safe law pace n m (lookUp f) (lookUp f) :=
  safe_bind safe_look fun _ => safe_ofResult

-- ------------------------------------------------------------------ changes

/-- A change that is never refused. -/
theorem safe_change {f : Store → Store} (c : Change) (made : c.Made allows law.isNew)
    (applies : ∀ s, f s = c.apply s) : Safe law pace n m (change f) (change f) := by
  intro context context' s fits written inv
  have eq : ∀ context, change f context s = (.ok (), c.apply s) :=
    fun _ => Prod.ext rfl (applies s)
  rw [eq, eq]
  exact .ok (made.written written) (law.change made written inv) trivial

/-- A change that may be refused. -/
theorem safe_attempt {f : Store → Except Fault α × Store} (c : Store → Change)
    (made : ∀ s, (c s).Made allows law.isNew) (applies : ∀ s, (f s).2 = (c s).apply s) :
    Safe law pace n m (attempt f) (attempt f) := by
  intro context context' s fits written inv
  have written' := (made s).written written
  have inv' := law.change (made s) written inv
  rw [← applies] at written' inv'
  unfold attempt
  cases outcome : f s with
  | mk r t =>
    rw [outcome] at written' inv'
    cases r with
    | ok a => exact .ok written' inv' trivial
    | error fault => exact .fault written' inv'

/-- A new scope may be that of an object. -/
theorem obeys_newChild (parent : ScopeId) :
    Obeys law pace n m law.isNew (newChild parent) (newChild parent) := by
  intro context context' s fits written inv
  have made : (Change.operation (.child parent)).Made allows law.isNew := .child parent
  have new : law.isNew (s.addChild parent).1 := law.born inv
  exact .ok (made.written written) (law.change made written inv) new

-- ------------------------------------------------------- around other runs

theorem obeys_holding {ids : List ScopeId} {run run' : Run α}
    (obeys : Obeys law pace n m post run run') :
    Obeys law pace n m post (holding ids run) (holding ids run') := by
  intro context context' s fits written inv
  exact obeys _ _ s (pace.hold _ fits) written inv

theorem safe_requireLive (id : ScopeId) (name : String) :
    Safe law pace n m (requireLive id name) (requireLive id name) := by
  intro context context' s fits written inv
  unfold requireLive
  rw [pace.live fits]
  split
  · exact .ok written inv trivial
  · exact .fault written inv

theorem obeys_onLine {line : Nat} {run run' : Run α} (obeys : Obeys law pace n m post run run') :
    Obeys law pace n m post (onLine line run) (onLine line run') := by
  intro context context' s fits written inv
  unfold onLine
  have kept := obeys context context' s fits written inv
  generalize run context s = ended, run' context' s = ended' at kept
  cases kept with
  | ok written inv h => exact .ok written inv h
  | fault written inv => exact .fault written inv
  | @cut halt _ _ written inv cut both =>
    cases halt with
    | fault fault =>
      exact .cut written inv (pace.onLine line cut) fun inStep => by rw [both inStep]
    | exhausted => exact .cut written inv cut fun inStep => by rw [both inStep]

/-- A handler goes on from where the fault has stopped the run before it. -/
theorem obeys_handling {run run' handler handler' : Run α}
    (uncut : ∀ fault, ¬pace.cuts (.fault fault)) (obeys : Obeys law pace n m post run run')
    (handled : Obeys law pace n m post handler handler') :
    Obeys law pace n m post (handling run handler) (handling run' handler') := by
  intro context context' s fits written inv
  unfold handling
  have kept := obeys context context' s fits written inv
  generalize run context s = ended, run' context' s = ended' at kept
  cases kept with
  | ok written inv h => exact .ok written inv h
  | fault written inv => exact handled context context' _ fits written inv
  | @cut halt _ _ written inv cut both =>
    cases halt with
    | fault fault => exact absurd cut (uncut fault)
    | exhausted => exact .cut written inv cut fun inStep => by rw [both inStep]

end Run

end RoutineScript
