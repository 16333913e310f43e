/-
What a run can do to a store in one step, and what no step does.

# Changes

A run changes the store by the operations that a host has too, and by some of
its own: it defines callables, keeps the books of a construction, merges the
parent part into an object, and hands the state of the host to functions. A
`Change` is one of these, with all that decides what becomes of the store, so
a run is told by the list of its changes (`replay`).

# Laws

Whatever a change binds is derived from what was bound before (`Derives`),
and what a store knows (`Knows`) it knows after any change that uses nothing
else. Except for a merge, a change lets a store grow (`Grows`).
-/
import RoutineScript.Proofs.Store.Growth
import RoutineScript.Proofs.Store.Knowledge
import RoutineScript.Run.Construct

namespace RoutineScript

open Mentions (within)

-- ================================================================= changes

/-- One step of a run, as it changes the store. -/
inductive Change where
  | operation (op : Operation)
  /-- The host is left in a state by one of its functions. -/
  | host (state : HostState)
  | define (id : ScopeId) (name : String) (params : List String) (body : Block)
  | declareClass (c : Class)
  /-- Adds a callable of a construction. -/
  | offer (id : ScopeId) (c : Callable)
  | dropCallables (id : ScopeId) (name : String)
  | noteFrame (id frame : ScopeId)
  | noteSuper (id : ScopeId)
  | merge (id base : ScopeId)

namespace Change

/-- Makes a change. -/
def apply (c : Change) (s : Store) : Store :=
  match c with
  | operation op => (op.perform s).2
  | host state => { s with host := state }
  | define id name params body => (s.define id name params body).2
  | declareClass c => s.declareClass c
  | offer id c => s.addProcedure id c
  | dropCallables id name => s.dropCallables id name
  | noteFrame id frame => s.noteFrame id frame
  | noteSuper id => s.noteSuper id
  | merge id base => s.merge id base

/-- Makes changes one after the other. -/
def replay (changes : List Change) (s : Store) : Store :=
  changes.foldl (fun s c => c.apply s) s

theorem replay_append (first second : List Change) (s : Store) :
    replay (first ++ second) s = replay second (replay first s) :=
  List.foldl_append

/-- The object that a change merges into another one. -/
def base? : Change → Option ScopeId
  | merge _ base => some base
  | _ => none

end Change

namespace Change

-- =================================================================== slots

/-- What a change binds is bound before, or fresh. -/
theorem derives_apply (c : Change) (s : Store) : ∃ fresh, s.Derives (c.apply s) fresh := by
  cases c with
  | operation op => exact op.derives_perform s
  | host state => exact ⟨none, Nat.le_refl _, fun bound => Or.inl ⟨_, _, bound⟩⟩
  | define id name params body =>
    refine ⟨none, ?_⟩
    simp only [apply]
    have procedure := s.derives_modifyScope_of_eq id
      (fun scope => { scope with
        procedures := scope.procedures.add (Callable.ofScript name params body id) }) rfl
    rcases s.define_cases id name params body with ⟨_, h⟩ | h <;> rw [h]
    · exact .refl s
    · dsimp only
      split
      · exact procedure.trans (Store.derives_modifyScope_of_eq _ id _ rfl)
      · exact procedure
  | declareClass c => exact ⟨none, s.derives_modifyScope_of_eq c.home _ rfl⟩
  | offer id c => exact ⟨none, s.derives_modifyScope_of_eq id _ rfl⟩
  | dropCallables id name => exact ⟨none, s.derives_modifyScope_of_eq id _ rfl⟩
  | noteFrame id frame => exact ⟨none, s.derives_modifyScope_of_eq id _ rfl⟩
  | noteSuper id => exact ⟨none, s.derives_noteSuper id⟩
  | merge id base => exact ⟨none, s.derives_merge id base⟩

theorem tidy_apply {c : Change} {s : Store} (tidy : s.Tidy) : (c.apply s).Tidy := by
  obtain ⟨fresh, derives⟩ := derives_apply c s
  exact tidy.of_derives derives

theorem tidy_replay {changes : List Change} {s : Store} (tidy : s.Tidy) :
    (replay changes s).Tidy := by
  induction changes generalizing s with
  | nil => exact tidy
  | cons c changes ih => exact ih (tidy_apply tidy)

-- ================================================================= growth

/-- A change that is no merge lets a store grow. -/
theorem grows_apply {c : Change} (plain : c.base? = none) (s : Store) :
    ∃ subject, s.Grows (c.apply s) subject := by
  cases c with
  | operation op => exact op.grows_perform s
  | host state => exact ⟨none, Nat.le_refl _, fun _ => rfl, Or.inl⟩
  | define id name params body => exact ⟨none, s.grows_define id name params body⟩
  | declareClass c => exact ⟨none, s.grows_modifyScope c.home _ rfl fun {_ _} bound => bound⟩
  | offer id c => exact ⟨none, s.grows_modifyScope id _ rfl fun {_ _} bound => bound⟩
  | dropCallables id name =>
    exact ⟨none, s.grows_modifyScope id _ rfl fun {_ _} bound => bound⟩
  | noteFrame id frame => exact ⟨none, s.grows_modifyScope id _ rfl fun {_ _} bound => bound⟩
  | noteSuper id => exact ⟨none, s.grows_noteSuper id⟩
  | merge id base => cases plain

-- ============================================================== knowledge

/-- What a change uses mentions no object outside of `K`. -/
def Uses (K : Set ScopeId) : Change → Prop
  | operation op => op.Uses K
  | offer _ c => within K c
  | _ => True

/-- Knowledge is kept by changes that use it. -/
theorem knows_apply {c : Change} {K : Set ScopeId} {s : Store} (known : s.Knows K)
    (uses : c.Uses K) : (c.apply s).Knows K := by
  cases c with
  | operation op => exact known.perform uses
  | host state => exact ⟨known.value, known.callable⟩
  | define id name params body => exact known.define id name params body
  | declareClass c => exact known.modifyScope c.home (known.callable c.home)
  | offer id c => exact known.addProcedure id uses
  | dropCallables id name => exact known.dropCallables id name
  | noteFrame id frame => exact known.modifyScope id (known.callable id)
  | noteSuper id => exact known.noteSuper id
  | merge id base => exact known.merge id base

end Change

end RoutineScript
