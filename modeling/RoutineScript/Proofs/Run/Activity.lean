/-
The activity of a run: the changes it makes, one after the other, and the
objects that come to be known meanwhile.

# Two ways to construct

An object is constructed in a new scope, and what becomes of it is decided
when its construction is done. Either it is handed out (`constructed`): from
then on it is known, and anybody may hold it. Or it was the parent part of
another object (`merged`): then it is merged into that one at once, and
nobody has it in hands. No object goes both ways, for while it is under
construction it is neither known nor merged. These two are brackets around
the activity of the construction, and all other changes are single steps.

# Runs

`Run.Acts K` says of a run that it is active in this way wherever it starts,
if `K` is known there, and that its result mentions what is known at its end
only. There is one lemma for each way to make a run; that the whole evaluator
acts is in `Proofs/Run/Evaluator.lean`.
-/
import RoutineScript.Proofs.Run.Change

namespace RoutineScript

open Mentions (within)

-- ================================================================ activity

/-- The changes made on the way from one store to another. Values that
mention objects in the first set only are used at the beginning, and those
that mention objects in the second one at the end. -/
inductive Activity : Set ScopeId → Store → List Change → Set ScopeId → Store → Prop where
  | done {K : Set ScopeId} {s : Store} : Activity K s [] K s
  | step {K L : Set ScopeId} {s t : Store} {c : Change} {changes : List Change} :
      c.base? = none → c.Uses K → Activity K (c.apply s) changes L t →
      Activity K s (c :: changes) L t
  /-- The object under construction is handed out. -/
  | constructed {K L M : Set ScopeId} {s t u : Store} {home : ScopeId}
      {inner changes : List Change} :
      Activity K (s.addChild home).2 inner L t →
      Activity (insert (s.addChild home).1 L) t changes M u →
      Activity K s (.operation (.child home) :: (inner ++ changes)) M u
  /-- The object under construction is merged into another one. -/
  | merged {K L M : Set ScopeId} {s t u : Store} {home target : ScopeId}
      {inner changes : List Change} :
      Activity K (s.addChild home).2 inner L t →
      Activity L (t.merge target (s.addChild home).1) changes M u →
      Activity K s
        (.operation (.child home) :: (inner ++ .merge target (s.addChild home).1 :: changes)) M u

namespace Activity

variable {K L M : Set ScopeId} {s t u : Store} {first second changes : List Change}

/-- One activity after the other. -/
theorem trans (before : Activity K s first L t) (after : Activity L t second M u) :
    Activity K s (first ++ second) M u := by
  induction before with
  | done => exact after
  | step plain uses _ ih => exact step plain uses (ih after)
  | constructed inner _ _ ih =>
    rw [List.cons_append, List.append_assoc]
    exact constructed inner (ih after)
  | merged inner _ _ ih =>
    rw [List.cons_append, List.append_assoc, List.cons_append]
    exact merged inner (ih after)

/-- An activity ends with what becomes of the store by its changes. -/
theorem eq_replay (activity : Activity K s changes L t) : t = Change.replay changes s := by
  induction activity with
  | done => rfl
  | step _ _ _ ih => exact ih
  | constructed _ _ inner ih =>
    rw [ih, inner]
    exact (Change.replay_append _ _ _).symm
  | @merged _ _ _ s _ _ home target _ changes _ _ inner ih =>
    rw [ih, inner]
    exact (Change.replay_append _ (.merge target (s.addChild home).1 :: changes) _).symm

/-- What is known stays known. -/
theorem subset (activity : Activity K s changes L t) : K ⊆ L := by
  induction activity with
  | done => exact fun _ mem => mem
  | step _ _ _ ih => exact ih
  | constructed _ _ inner ih => exact fun _ mem => ih (Set.mem_insert_of_mem _ (inner mem))
  | merged _ _ inner ih => exact fun _ mem => ih (inner mem)

theorem knows (activity : Activity K s changes L t) (known : s.Knows K) : t.Knows L := by
  induction activity with
  | done => exact known
  | step _ uses _ ih => exact ih (Change.knows_apply known uses)
  | constructed _ _ inner ih =>
    exact ih ((inner (known.addChild _)).mono (Set.subset_insert _ _))
  | merged _ _ inner ih => exact ih ((inner (known.addChild _)).merge _ _)

/-- A single change. -/
theorem single {c : Change} (plain : c.base? = none) (uses : c.Uses K) :
    Activity K s [c] K (c.apply s) :=
  step plain uses done

end Activity

-- ==================================================================== runs

section

/-- Data that mentions no object at all. -/
@[reducible]
def Mentions.nothing {α : Type} : Mentions α where
  within _ _ := True
  mono _ h := h

instance : Mentions Unit := .nothing
instance : Mentions Bool := .nothing
instance : Mentions Float := .nothing
instance : Mentions ScopeId := .nothing
instance : Mentions Class := .nothing
instance : Mentions Expr := .nothing
instance : Mentions (Located Stmt) := .nothing

instance {α : Type} [Mentions α] : Mentions (Option α) where
  within K a := ∀ b, a = some b → within K b
  mono sub h b eq := Mentions.mono sub (h b eq)

instance : Mentions Flow where
  within K flow := ∀ v, flow = .returned v → within K v
  mono sub h v eq := Mentions.mono sub (h v eq)

end

namespace Run

variable {α β : Type} {K : Set ScopeId}

/-- Wherever a run starts, if `K` is known there, it is an activity, and its
result has a property that may depend on what is known at its end. -/
def ActsTo (property : Set ScopeId → α → Prop) (K : Set ScopeId) (run : Run α) : Prop :=
  ∀ context s, s.Knows K → ∃ changes L, Activity K s changes L (run context s).2 ∧
    ∀ a, (run context s).1 = .ok a → property L a

/-- A run is an activity, and its result mentions what is known at its end. -/
abbrev Acts [Mentions α] (K : Set ScopeId) (run : Run α) : Prop :=
  ActsTo within K run

variable {property : Set ScopeId → α → Prop}

theorem acts_pure {a : α} (h : property K a) : ActsTo property K (pure a) := by
  intro context s known
  refine ⟨[], K, .done, ?_⟩
  intro _ mem
  cases mem
  exact h

theorem acts_throw (halt : Halt) : ActsTo property K (throw halt) := by
  intro context s known
  exact ⟨[], K, .done, fun _ h => by cases h⟩

theorem acts_fail (fault : Fault) : ActsTo property K (fail fault) :=
  acts_throw (.fault fault)

/-- A run acts if its first part does and, whatever comes to be known, its
second part. -/
theorem acts_bind [Mentions β] {run : Run β} {next : β → Run α} (first : Acts K run)
    (second : ∀ L b, K ⊆ L → within L b → ActsTo property L (next b)) :
    ActsTo property K (run >>= next) := by
  intro context s known
  rw [bind_apply]
  obtain ⟨changes, L, activity, result⟩ := first context s known
  cases outcome : run context s with
  | mk r t =>
    rw [outcome] at activity result
    cases r with
    | error halt => exact ⟨changes, L, activity, fun _ h => by cases h⟩
    | ok b =>
      obtain ⟨changes', M, activity', result'⟩ :=
        second L b activity.subset (result b rfl) context t (activity.knows known)
      exact ⟨changes ++ changes', M, activity.trans activity', result'⟩

variable [Mentions α]

theorem acts_ofResult {result : Except Fault α} (h : ∀ a, result = .ok a → within K a) :
    Acts K (ofResult result) := by
  cases result with
  | ok a => exact acts_pure (h a rfl)
  | error fault => exact acts_fail fault

theorem acts_look {f : Store → α} (h : ∀ s, s.Knows K → within K (f s)) : Acts K (look f) := by
  intro context s known
  refine ⟨[], K, .done, ?_⟩
  intro _ mem
  cases mem
  exact h s known

theorem acts_lookUp {f : Store → Except Fault α}
    (h : ∀ s a, s.Knows K → f s = .ok a → within K a) : Acts K (lookUp f) := by
  intro context s known
  have unfolded : lookUp f context s = ofResult (f s) context s := by
    unfold lookUp
    rw [bind_apply]
    rfl
  rw [unfolded]
  exact acts_ofResult (fun a eq => h s a known eq) context s known

/-- A change that may be refused. -/
theorem acts_attempt {f : Store → Except Fault α × Store} (c : Store → Change)
    (plain : ∀ s, (c s).base? = none) (uses : ∀ s, (c s).Uses K)
    (applies : ∀ s, (f s).2 = (c s).apply s)
    (result : ∀ s a, s.Knows K → (f s).1 = .ok a → within K a) : Acts K (attempt f) := by
  intro context s known
  have activity := Activity.single (s := s) (plain s) (uses s)
  have result := fun a => result s a known
  rw [← applies] at activity
  unfold attempt
  cases outcome : f s with
  | mk r t =>
    rw [outcome] at activity result
    refine ⟨[c s], K, ?_, ?_⟩
    · cases r <;> exact activity
    · cases r with
      | error fault => exact fun _ h => by cases h
      | ok a =>
        intro _ mem
        cases mem
        exact result a rfl

/-- A change that is never refused. -/
theorem acts_change (c : Change) (plain : c.base? = none) (uses : c.Uses K) :
    Acts K (change c.apply) :=
  fun _ _ _ => ⟨[c], K, .single plain uses, fun _ _ => trivial⟩

theorem acts_newChild (parent : ScopeId) : Acts K (newChild parent) :=
  fun _ _ _ => ⟨[.operation (.child parent)], K, .single rfl trivial, fun _ _ => trivial⟩

-- ------------------------------------------------------- around other runs

omit [Mentions α] in
theorem acts_holding {ids : List ScopeId} {run : Run α} (h : ActsTo property K run) :
    ActsTo property K (holding ids run) :=
  fun _ s known => h _ s known

theorem acts_holdingValues {values : List Value} {run : Run α} (h : Acts K run) :
    Acts K (holdingValues values run) :=
  acts_holding h

theorem acts_apart {run : Run α} (h : Acts K run) : Acts K (apart run) :=
  fun _ s known => h _ s known

theorem acts_deeper {run : Run α} (h : Acts K run) : Acts K (deeper run) := by
  intro context s known
  unfold deeper
  split
  · exact ⟨[], K, .done, fun _ h => by cases h⟩
  · exact h _ s known

theorem acts_requireLive (id : ScopeId) (name : String) : Acts K (requireLive id name) := by
  intro context s known
  unfold requireLive
  split
  · exact ⟨[], K, .done, fun _ _ => trivial⟩
  · exact ⟨[], K, .done, fun _ h => by cases h⟩

theorem acts_onLine {line : Nat} {run : Run α} (h : Acts K run) : Acts K (onLine line run) := by
  intro context s known
  obtain ⟨changes, L, activity, result⟩ := h context s known
  unfold onLine
  split
  · next eq =>
    rw [eq] at activity
    exact ⟨changes, L, activity, fun _ h => by cases h⟩
  · exact ⟨changes, L, activity, result⟩

/-- A handler goes on from where the fault has stopped the run before it. -/
theorem acts_handling {run handler : Run α} (h : Acts K run) (handled : ∀ L, K ⊆ L → Acts L handler) :
    Acts K (handling run handler) := by
  intro context s known
  obtain ⟨changes, L, activity, result⟩ := h context s known
  unfold handling
  split
  · next eq =>
    rw [eq] at activity
    obtain ⟨changes', M, activity', result'⟩ :=
      handled L activity.subset context _ (activity.knows known)
    exact ⟨changes ++ changes', M, activity.trans activity', result'⟩
  · exact ⟨changes, L, activity, result⟩

-- ------------------------------------------------------------ construction

/-- Wherever a run starts, if `K` is known there, it is stopped at once or
constructs an object: it adds a scope first, and the object it ends with is
that scope. -/
def Constructs (K : Set ScopeId) (run : Run Object) : Prop :=
  ∀ context s, s.Knows K → (∃ halt, run context s = (.error halt, s)) ∨
    ∃ home changes L, Activity K (s.addChild home).2 changes L (run context s).2 ∧
      ∀ o, (run context s).1 = .ok o → o.scope = (s.addChild home).1

theorem constructs_holding {ids : List ScopeId} {run : Run Object} (h : Constructs K run) :
    Constructs K (holding ids run) :=
  fun _ s known => h _ s known

theorem constructs_deeper {run : Run Object} (h : Constructs K run) :
    Constructs K (deeper run) := by
  intro context s known
  unfold deeper
  split
  · exact Or.inl ⟨_, rfl⟩
  · exact h _ s known

theorem constructs_requireLive {run : Run Object} (id : ScopeId) (name : String)
    (h : Constructs K run) : Constructs K (do requireLive id name; run) := by
  intro context s known
  by_cases live : s.isLive context.held id = true
  · rw [bind_apply, requireLive, if_pos live]
    exact h context s known
  · rw [bind_apply, requireLive, if_neg live]
    exact Or.inl ⟨_, rfl⟩

/-- An activity that goes on in a new scope, and ends with this scope as its
object. -/
theorem constructs_newChild {home : ScopeId} {run : ScopeId → Run Object}
    (h : ∀ child, ActsTo (fun _ o => o.scope = child) K (run child)) :
    Constructs K (newChild home >>= run) := by
  intro context s known
  obtain ⟨changes, L, activity, here⟩ := h (s.addChild home).1 context _ (known.addChild home)
  exact Or.inr ⟨home, changes, L, activity, here⟩

/-- An object that is constructed and handed out. -/
theorem acts_of_constructs {run : Run Object} (h : Constructs K run) : Acts K run := by
  intro context s known
  rcases h context s known with ⟨halt, stopped⟩ | ⟨home, changes, L, activity, result⟩
  · rw [stopped]
    exact ⟨[], K, .done, fun _ h => by cases h⟩
  · cases outcome : (run context s).1 with
    | error halt =>
      exact ⟨_, L, .step (c := .operation (.child home)) rfl trivial activity,
        fun _ h => by cases h⟩
    | ok o =>
      refine ⟨_, _, .constructed activity .done, ?_⟩
      intro _ mem
      cases mem
      rw [show within _ o ↔ o.scope ∈ _ from Iff.rfl, result o outcome]
      exact Set.mem_insert _ _

/-- An object that is constructed and merged into another one. -/
theorem acts_merging {run : Run Object} (h : Constructs K run) (target : ScopeId) :
    Acts K (do
      let base ← run
      change (·.merge target base.scope)
      change (·.noteSuper target)
      return Value.null) := by
  intro context s known
  rw [bind_apply]
  rcases h context s known with ⟨halt, stopped⟩ | ⟨home, changes, L, activity, result⟩
  · rw [stopped]
    exact ⟨[], K, .done, fun _ h => by cases h⟩
  · cases outcome : run context s with
    | mk r t =>
      rw [outcome] at activity result
      cases r with
      | error halt =>
        exact ⟨_, L, .step (c := .operation (.child home)) rfl trivial activity,
          fun _ h => by cases h⟩
      | ok o =>
        have here := result o rfl
        have noted : Activity L (t.merge target (s.addChild home).1) [.noteSuper target] L
            ((t.merge target (s.addChild home).1).noteSuper target) := .single rfl trivial
        have merged := Activity.merged activity noted
        rw [← here] at merged
        refine ⟨_, L, merged, ?_⟩
        intro _ mem
        cases mem
        exact within_of_objects_eq_nil rfl

end Run

end RoutineScript
