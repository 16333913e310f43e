/-
Runs keep to a regime.

Wherever a regime is in force, evaluating an expression keeps it in force, and
so does executing a statement where that is permitted; a statement that runs
its bodies in scopes of their own needs no more than a shelter. The values
that come out mention free objects only. The proof follows the evaluator, as
for activities and for laws; what is new is that places matter, and that
places are told by the store from which a run starts.
-/
import RoutineScript.Proofs.Run.Territory

namespace RoutineScript

open Mentions (within)

-- ==================================================================== runs

namespace Run

variable {α β : Type} {R : Regime} {s : Store}

/-- Started from this store, a run leaves the regime in force, and its result
has a property that may depend on the store it ends with. -/
def AbidesTo (R : Regime) (s : Store) (post : Store → α → Prop) (run : Run α) : Prop :=
  R.Rules s → ∀ context, s.Older (run context s).2 ∧ R.Rules (run context s).2 ∧
    ∀ a, (run context s).1 = .ok a → post (run context s).2 a

/-- The result mentions free objects only. -/
abbrev Abides [Mentions α] (R : Regime) (s : Store) (run : Run α) : Prop :=
  AbidesTo R s (fun t a => within (R.free t) a) run

variable {post : Store → α → Prop}

theorem abides_pure {a : α} (h : post s a) : AbidesTo R s post (pure a) := by
  intro rules context
  refine ⟨.refl s, rules, ?_⟩
  intro _ eq
  cases eq
  exact h

theorem abides_throw (halt : Halt) : AbidesTo R s post (throw halt) :=
  fun rules _ => ⟨.refl s, rules, nofun⟩

theorem abides_fail (fault : Fault) : AbidesTo R s post (fail fault) :=
  abides_throw (.fault fault)

/-- A run abides if its first part does and, from wherever that one ends, its
second part. -/
theorem abides_bind {first : Store → β → Prop} {run : Run β} {next : β → Run α}
    (h : AbidesTo R s first run)
    (second : ∀ t b, s.Older t → first t b → AbidesTo R t post (next b)) :
    AbidesTo R s post (run >>= next) := by
  intro rules context
  rw [bind_apply]
  obtain ⟨older, ruled, result⟩ := h rules context
  cases outcome : run context s with
  | mk r t =>
    rw [outcome] at older ruled result
    cases r with
    | error halt => exact ⟨older, ruled, nofun⟩
    | ok b =>
      obtain ⟨older', ruled', result'⟩ := second t b older (result b rfl) ruled context
      exact ⟨older.trans older', ruled', result'⟩

theorem abides_ofResult [Mentions α] {result : Except Fault α}
    (h : ∀ a, result = .ok a → within (R.free s) a) : Abides R s (ofResult result) := by
  cases result with
  | ok a => exact abides_pure (h a rfl)
  | error fault => exact abides_fail fault

theorem abides_look {f : Store → α} (h : R.Rules s → post s (f s)) :
    AbidesTo R s post (look f) := by
  intro rules context
  refine ⟨.refl s, rules, ?_⟩
  intro _ eq
  cases eq
  exact h rules

theorem abides_lookUp [Mentions α] {f : Store → Except Fault α}
    (h : R.Rules s → ∀ a, f s = .ok a → within (R.free s) a) : Abides R s (lookUp f) := by
  intro rules context
  have unfolded : lookUp f context s = ofResult (f s) context s := by
    unfold lookUp
    rw [bind_apply]
    rfl
  rw [unfolded]
  exact abides_ofResult (h rules) rules context

-- ------------------------------------------------------------------ changes

/-- A change that may be refused, and that the regime survives. -/
theorem abides_attempt_of {f : Store → Except Fault α × Store} (c : Change)
    (survives : R.Rules s → R.Rules (c.apply s)) (applies : (f s).2 = c.apply s)
    (result : R.Rules s → ∀ a, (f s).1 = .ok a → post (c.apply s) a) :
    AbidesTo R s post (attempt f) := by
  intro rules context
  have older := Store.older_apply c s
  have ruled := survives rules
  have result := result rules
  rw [← applies] at older ruled result
  unfold attempt
  cases outcome : f s with
  | mk r t =>
    rw [outcome] at older ruled result
    cases r with
    | error fault => exact ⟨older, ruled, nofun⟩
    | ok a =>
      refine ⟨older, ruled, ?_⟩
      intro _ eq
      cases eq
      exact result a rfl

/-- A change that may be refused, and that scripts may make. -/
theorem abides_attempt {f : Store → Except Fault α × Store} (c : Change)
    (permitted : R.Permitted s c) (applies : (f s).2 = c.apply s)
    (result : R.Rules s → ∀ a, (f s).1 = .ok a → post (c.apply s) a) :
    AbidesTo R s post (attempt f) :=
  abides_attempt_of c (fun rules => rules.permitted permitted) applies result

/-- A change that is never refused. -/
theorem abides_change (c : Change) (permitted : R.Permitted s c) : Abides R s (change c.apply) :=
  fun rules _ => ⟨Store.older_apply c s, rules.permitted permitted, fun _ _ => trivial⟩

/-- In a new scope may be done what its parent shelters. -/
theorem abides_newChild {parent : ScopeId} {plain : Bool} (shelters : R.Shelters s parent plain) :
    AbidesTo R s (fun t child => R.Permits t child plain) (newChild parent) := by
  intro rules context
  have permitted : R.Permitted s (.operation (.child parent)) := .child shelters.plainly
  refine ⟨Store.older_apply (.operation (.child parent)) s, rules.permitted permitted, ?_⟩
  intro _ eq
  cases eq
  exact shelters.imp (R.born rules.holds rules.keeps)
    fun ⟨tied, isPlain⟩ => ⟨R.bornTied rules.holds rules.keeps tied, isPlain⟩

-- ------------------------------------------------------- around other runs

theorem abides_holding {ids : List ScopeId} {run : Run α} (h : AbidesTo R s post run) :
    AbidesTo R s post (holding ids run) :=
  fun rules _ => h rules _

theorem abides_apart {run : Run α} (h : AbidesTo R s post run) : AbidesTo R s post (apart run) :=
  fun rules _ => h rules _

theorem abides_deeper {run : Run α} (h : AbidesTo R s post run) :
    AbidesTo R s post (deeper run) := by
  intro rules context
  unfold deeper
  split
  · exact ⟨.refl s, rules, nofun⟩
  · exact h rules _

theorem abides_requireLive (id : ScopeId) (name : String) : Abides R s (requireLive id name) := by
  intro rules context
  unfold requireLive
  split
  · exact ⟨.refl s, rules, fun _ _ => trivial⟩
  · exact ⟨.refl s, rules, nofun⟩

theorem abides_onLine {line : Nat} {run : Run α} (h : AbidesTo R s post run) :
    AbidesTo R s post (onLine line run) := by
  intro rules context
  obtain ⟨older, ruled, result⟩ := h rules context
  unfold onLine
  split
  · next eq =>
    rw [eq] at older ruled
    exact ⟨older, ruled, nofun⟩
  · exact ⟨older, ruled, result⟩

/-- A handler goes on from where the fault has stopped the run before it. -/
theorem abides_handling {run handler : Run α} (h : AbidesTo R s post run)
    (handled : ∀ t, s.Older t → AbidesTo R t post handler) :
    AbidesTo R s post (handling run handler) := by
  intro rules context
  obtain ⟨older, ruled, result⟩ := h rules context
  unfold handling
  split
  · next eq =>
    rw [eq] at older ruled
    obtain ⟨older', ruled', result'⟩ := handled _ older ruled context
    exact ⟨older.trans older', ruled', result'⟩
  · exact ⟨older, ruled, result⟩

/-- A parent part that is constructed joins its object. -/
theorem abides_joining {run : Run Object} (h : Abides R s run) {target : ScopeId}
    (atHome : target ∈ R.home s) :
    Abides R s (do
      let base ← run
      change (·.merge target base.scope)
      change (·.noteSuper target)
      return Value.null) := by
  refine abides_bind h fun t base older free => ?_
  intro rules context
  refine ⟨Store.older_join t target base.scope, rules.join (R.home_mono older atHome) free, ?_⟩
  intro _ eq
  cases eq
  exact within_null

end Run

-- ============================================================ below and above

/-- What runs one level below keeps to the regime. -/
structure Below.Abiding (R : Regime) (below : Below) : Prop where
  enter : ∀ s scope block, scope ∈ R.work s → Run.Abides R s (below.enter scope block)
  construct : ∀ s c args, (∀ place ∈ c.homes, place ∈ R.home s) → within (R.free s) args →
    Run.Abides R s (below.construct c args)

namespace Below

open Run

variable {R : Regime} {below : Below} {s : Store}

-- =============================================================== invocation

theorem abides_bindParams {frame : ScopeId} {params : List String} {args : List Value}
    (mayBind : R.MayBind s frame) (known : within (R.free s) args) :
    Abides R s (bindParams frame params args) := by
  induction params generalizing s args with
  | nil => exact abides_pure trivial
  | cons param params ih =>
    cases args with
    | nil => exact abides_pure trivial
    | cons arg args =>
      have declares : Abides R s (attempt (·.declare frame param arg)) :=
        abides_attempt (.operation (.declare frame param arg))
          (.declare param mayBind (known arg List.mem_cons_self)) rfl fun _ _ _ => trivial
      refine abides_bind declares fun t _ older _ => ?_
      have rest : within (R.free s) args := fun v mem => known v (List.mem_cons_of_mem _ mem)
      exact ih (mayBind.mono older) (Mentions.mono (R.free_mono older) rest)

theorem abides_outcome {name : String} {wanted : Bool} {flow : Flow}
    (known : within (R.free s) flow) : Abides R s (outcome name wanted flow) := by
  cases flow with
  | returned v => exact abides_pure (known v rfl)
  | finished =>
    cases wanted
    · exact abides_pure within_null
    · exact abides_fail _

theorem abides_callHost {function : HostFunction} {args : List Value}
    (trusted : within (R.free s) function) (known : within (R.free s) args) :
    Abides R s (attempt (·.callHost function args)) := by
  refine abides_attempt (.host (function.run args s.host).2) (.host _) rfl fun _ v eq => ?_
  have returned : function.run args s.host = (.ok v, (function.run args s.host).2) :=
    Prod.ext eq rfl
  exact Mentions.mono (R.free_mono (Store.older_apply _ s)) (within_run trusted known returned)

variable (abiding : below.Abiding R)

include abiding

/-- Calling an overload that may be called, with arguments that are free. -/
theorem abides_invokeWith {onFrame : ScopeId → Run Unit} {d : Callable} {args : List Value}
    {wanted : Bool}
    (frames : ∀ t frame, s.Older t → frame ∈ R.work t → Abides R t (onFrame frame))
    (trusts : R.Trusts s d) (known : within (R.free s) args) :
    Abides R s (below.invokeWith onFrame d args wanted) := by
  have homes := trusts.homes
  unfold invokeWith
  unfold Callable.homes at homes
  split
  · next function body => exact abides_callHost (trusts.knows function body) known
  · next params block home body =>
    rw [body] at homes
    have atHome : home ∈ R.home s := homes home List.mem_cons_self
    refine abides_bind (abides_requireLive home _) fun t _ older _ => ?_
    have atHome := R.home_mono older atHome
    have known : within (R.free t) args := Mentions.mono (R.free_mono older) known
    refine abides_bind (abides_newChild (.inl atHome : R.Shelters t home false))
      fun u frame born permits => ?_
    have known : within (R.free u) args := Mentions.mono (R.free_mono born) known
    refine abides_bind (abides_bindParams permits.mayBind known) fun v _ bound _ => ?_
    have works := R.work_mono bound permits.works
    have later := older.trans (born.trans bound)
    refine abides_bind (frames v frame later works) fun w _ noted _ => ?_
    refine abides_bind (abides_deeper (abiding.enter w frame block (R.work_mono noted works)))
      fun x flow _ ended => ?_
    exact abides_outcome ended
  · next parent target body =>
    rw [body] at homes
    refine abides_bind (abides_requireLive target _) fun t _ older _ => ?_
    have homes := fun place mem => R.home_mono older (homes place mem)
    have known : within (R.free t) args := Mentions.mono (R.free_mono older) known
    have constructs := abiding.construct t parent args
      (fun place mem => homes place (List.mem_cons_of_mem _ mem)) known
    exact abides_joining (abides_holding (abides_deeper constructs)) (homes target List.mem_cons_self)

theorem abides_invoke {d : Callable} {args : List Value} {wanted : Bool} (trusts : R.Trusts s d)
    (known : within (R.free s) args) : Abides R s (below.invoke d args wanted) :=
  abides_invokeWith abiding (fun _ _ _ _ => abides_pure trivial) trusts known

theorem abides_dispatch {name : String} {candidates : List Callable} {args : List Value}
    {wanted : Bool} (trusts : ∀ d ∈ candidates, R.Trusts s d) (known : within (R.free s) args) :
    Abides R s (below.dispatch name candidates args wanted) := by
  unfold dispatch
  split
  · exact abides_fail _
  · split
    · next d selected =>
      exact abides_invoke abiding (trusts d (List.mem_of_find?_eq_some selected)) known
    · exact abides_fail _

omit abiding in
/-- The overloads that are visible from a scope may be called. -/
theorem abides_lookNamed (scope : ScopeId) (name : String) :
    AbidesTo R s (fun t candidates => ∀ d ∈ candidates, R.Trusts t d)
        (look fun s => (s.scope scope).procedures.named name) ∧
      AbidesTo R s (fun t candidates => ∀ d ∈ candidates, R.Trusts t d)
        (look fun s => (s.scope scope).functions.named name) := by
  refine ⟨abides_look fun rules d mem => ?_, abides_look fun rules d mem => ?_⟩
  · exact rules.holds.trusts (Scope.mem_callables_of_procedure mem)
  · exact rules.holds.trusts (Scope.mem_callables_of_function mem)

-- ==================================================================== calls

theorem abides_callProcedure {scope : ScopeId} {name : String} {args : List Value}
    (known : within (R.free s) args) : Abides R s (below.callProcedure scope name args) := by
  have found : AbidesTo R s (fun t candidates => ∀ d ∈ candidates, R.Trusts t d)
      (look fun s => (s.scope scope).procedures.named name ++
        (s.scope scope).functions.named name) := by
    exact abides_look fun rules d mem =>
      rules.holds.trusts (Scope.mem_callables_of_named mem)
  exact abides_bind found fun t candidates older trusts =>
    abides_dispatch abiding trusts (Mentions.mono (R.free_mono older) known)

theorem abides_callFunction {scope : ScopeId} {name : String} {args : List Value}
    (known : within (R.free s) args) : Abides R s (below.callFunction scope name args) := by
  refine abides_bind (abides_lookNamed scope name).2 fun t functions older trusts => ?_
  refine abides_bind (abides_lookNamed scope name).1 fun u procedures older' _ => ?_
  split
  · exact abides_fail _
  · exact abides_dispatch abiding (fun d mem => (trusts d mem).mono older')
      (Mentions.mono (R.free_mono (older.trans older')) known)

theorem abides_callMember {scope : ScopeId} {name : String} {args : List Value}
    (known : within (R.free s) args) : Abides R s (below.callMember scope name args) := by
  refine abides_bind (abides_lookNamed scope name).2 fun t functions older trusts => ?_
  have known : within (R.free t) args := Mentions.mono (R.free_mono older) known
  split
  · exact abides_bind (abides_lookNamed scope name).1 fun u procedures older' trusts =>
      abides_dispatch abiding trusts (Mentions.mono (R.free_mono older') known)
  · exact abides_dispatch abiding trusts known

omit abiding in
/-- The class that is found is at home. -/
theorem abides_findClass {scope : ScopeId} {name : String} :
    AbidesTo R s (fun t c => ∀ place ∈ c.homes, place ∈ R.home t) (findClass scope name) := by
  have looked : AbidesTo R s (fun t (found : Option Class) =>
      ∀ c, found = some c → ∀ place ∈ c.homes, place ∈ R.home t) (look (·.class? scope name)) :=
    abides_look fun rules c found => rules.holds.class found
  refine abides_bind looked fun t found _ homes => ?_
  cases found with
  | none => exact abides_fail _
  | some c => exact abides_pure (homes c rfl)

theorem abides_instantiate {scope : ScopeId} {className : String} {args : List Value}
    (known : within (R.free s) args) : Abides R s (below.instantiate scope className args) :=
  abides_bind abides_findClass fun t c older homes =>
    abides_deeper (abiding.construct t c args homes (Mentions.mono (R.free_mono older) known))

end Below

end RoutineScript
