/-
What a host can do with a store: it works on scopes itself, asks the
interpreter for runs, and takes hold of the objects it comes to see.

The stores that come about in this way (`Hosted`) are those that every
statement about sessions is about. A host cannot make up an object either: it
uses those it was handed, those it can see in a variable, and those that a
function it has registered keeps (`Store.holdable`).
-/
import RoutineScript.Proofs.Run.Evaluator

namespace RoutineScript

open Mentions (within)

-- ================================================================ requests

/-- A run that a host can ask for. -/
inductive Request where
  | execute (scope : ScopeId) (program : Block)
  | executeSource (scope : ScopeId) (source : String)
  | evaluate (scope : ScopeId) (text : String)
  | instantiate (scope : ScopeId) (className : String) (args : List Value)
  | call (object : Object) (name : String) (args : List Value)

namespace Request

/-- The run, calls nested no deeper than `levels`. -/
def run (levels : Nat) : Request → Run Value
  | execute scope program => do
    Interpreter.runProgram levels scope program
    return .null
  | executeSource scope source => do
    Interpreter.runSource levels scope source
    return .null
  | evaluate scope text => Interpreter.evaluateText levels scope text
  | instantiate scope className args => do
    return .object (← Interpreter.instantiate levels scope className args)
  | call object name args => Interpreter.callMember levels object name args

/-- What a host passes to a run mentions no object outside of `K`. -/
def Uses (K : Set ScopeId) : Request → Prop
  | instantiate _ _ args => within K args
  | call object _ args => within K object ∧ within K args
  | execute .. | executeSource .. | evaluate .. => True

/-- What a host asks for is an activity. -/
theorem acts_run {K : Set ScopeId} (levels : Nat) {request : Request} (uses : request.Uses K) :
    Run.Acts K (request.run levels) := by
  cases request with
  | execute scope program =>
    exact Run.acts_bind (Interpreter.acts_runProgram levels scope program)
      fun _ _ _ _ => Run.acts_pure within_null
  | executeSource scope source =>
    exact Run.acts_bind (Interpreter.acts_runSource levels scope source)
      fun _ _ _ _ => Run.acts_pure within_null
  | evaluate scope text => exact Interpreter.acts_evaluateText levels scope text
  | instantiate scope className args =>
    exact Run.acts_bind (Interpreter.acts_instantiate levels scope className uses)
      fun _ _ _ known => Run.acts_pure (within_object.2 known)
  | call object name args => exact Interpreter.acts_callMember levels object name uses.2

end Request

-- =============================================================== outcomes

namespace Run

variable {α : Type}

/-- The fault that has stopped a run. -/
def fault? (outcome : Except Halt α) : Option Fault :=
  match outcome with
  | .error (.fault fault) => some fault
  | _ => none

theorem eq_error_of_fault? {outcome : Except Halt α} {fault : Fault}
    (stopped : fault? outcome = some fault) : outcome = .error (.fault fault) := by
  unfold fault? at stopped
  split at stopped
  · rw [Option.some.inj stopped]
  · cases stopped

/-- A run that is not stopped ends with something. -/
theorem exists_ok {run : Run α} {context : Context} {s : Store}
    (ends : (run context s).1.toOption.isSome = true) :
    ∃ a, run context s = (.ok a, (run context s).2) := by
  cases outcome : (run context s).1 with
  | ok a => exact ⟨a, Prod.ext outcome rfl⟩
  | error halt =>
    rw [outcome] at ends
    cases ends

end Run

-- ================================================================== hosting

namespace Store

/-- The objects that a script or its host can hold, given those that the host
was handed: these, those in variables, and those that functions keep. -/
def holdable (s : Store) (handed : Set ScopeId) : Set ScopeId :=
  {id | id ∈ handed ∨ (∃ slot, id ∈ (s.value slot).objects) ∨
    ∃ key, ∃ c ∈ (s.scope key).callables, id ∈ c.kept}

/-- What can be held is known. -/
theorem Knows.holdable_subset {s : Store} {handed K : Set ScopeId} (known : s.Knows K)
    (sub : handed ⊆ K) : s.holdable handed ⊆ K := by
  rintro id (mem | ⟨slot, mem⟩ | ⟨key, c, visible, mem⟩)
  · exact sub mem
  · exact known.value slot id mem
  · unfold Callable.kept at mem
    split at mem
    · next function body =>
      exact within_objectsIn.1 (known.callable key c visible function body).2 id mem
    · cases mem
    · cases mem

end Store

/-- The stores that come about with a host, and the objects that it was
handed. -/
inductive Hosted : Set ScopeId → Store → Prop where
  | start : Hosted ∅ .empty
  /-- The host works on a scope. -/
  | operate {handed : Set ScopeId} {s : Store} {o : Operation} :
      Hosted handed s → o.Uses (s.holdable handed) → Hosted handed (o.perform s).2
  /-- The host asks for a run and gets its value, if there is one. -/
  | ask {handed : Set ScopeId} {s : Store} {request : Request} (levels : Nat)
      (context : Context) :
      Hosted handed s → request.Uses (s.holdable handed) →
      Hosted {id | id ∈ handed ∨
          ∃ v, (request.run levels context s).1 = .ok v ∧ id ∈ v.objects}
        (request.run levels context s).2
  /-- The host takes hold of an object. -/
  | take {handed : Set ScopeId} {s : Store} {id : ScopeId} :
      Hosted handed s → id ∈ s.holdable handed → Hosted (insert id handed) s
  /-- The host changes its own state. -/
  | attend {handed : Set ScopeId} {s : Store} (state : HostState) :
      Hosted handed s → Hosted handed { s with host := state }

/-- Whatever holds at the start and is kept by every activity holds with a
host. -/
theorem Hosted.induct_activity {P : Set ScopeId → Store → Prop}
    (start : P ∅ .empty)
    (active : ∀ {K L s t changes}, P K s → s.Knows K → Activity K s changes L t → P L t)
    {handed : Set ScopeId} {s : Store} (hosted : Hosted handed s) :
    ∃ K, handed ⊆ K ∧ s.Knows K ∧ P K s := by
  induction hosted with
  | start => exact ⟨∅, fun _ mem => mem, Store.knows_empty, start⟩
  | @operate handed s op _ uses ih =>
    obtain ⟨K, sub, known, holds⟩ := ih
    have activity : Activity K s [.operation op] K (op.perform s).2 :=
      .single rfl (uses.mono (known.holdable_subset sub))
    exact ⟨K, sub, activity.knows known, active holds known activity⟩
  | @ask handed s request levels context _ uses ih =>
    obtain ⟨K, sub, known, holds⟩ := ih
    have uses : request.Uses K := by
      have held := known.holdable_subset sub
      cases request with
      | instantiate => exact Mentions.mono held uses
      | call => exact ⟨Mentions.mono held uses.1, Mentions.mono held uses.2⟩
      | execute | executeSource | evaluate => trivial
    obtain ⟨changes, L, activity, result⟩ := Request.acts_run levels uses context s known
    refine ⟨L, ?_, activity.knows known, active holds known activity⟩
    rintro id (mem | ⟨v, ended, mem⟩)
    · exact activity.subset (sub mem)
    · exact result v ended id mem
  | take _ mem ih =>
    obtain ⟨K, sub, known, holds⟩ := ih
    exact ⟨K, Set.insert_subset (known.holdable_subset sub mem) sub, known, holds⟩
  | @attend handed s state _ ih =>
    obtain ⟨K, sub, known, holds⟩ := ih
    have activity : Activity K s [.host state] K { s with host := state } := .single rfl trivial
    exact ⟨K, sub, activity.knows known, active holds known activity⟩

end RoutineScript
