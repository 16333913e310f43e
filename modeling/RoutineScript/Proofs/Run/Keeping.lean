/-
What a run makes of the scopes that it keeps alive.

A run looks at the scopes that are worked with only when it calls something:
then the home of what it calls has to be alive. So nothing depends on how
often, and in which order, scopes are kept (`Context.Alike`); runs in contexts
that are alike are in step (`Pace.alike`), and end in the same way. And an
expression that calls and constructs nothing only looks at the store
(`Run.Looks`), so it does not depend on its context at all (`Run.Heedless`).
-/
import RoutineScript.Proofs.Run.Termination
import RoutineScript.Proofs.Run.Updates
import RoutineScript.Proofs.Store.Living

namespace RoutineScript

-- ============================================================ alike contexts

/-- In both contexts calls are nested alike, and the same scopes are kept
alive. -/
structure Context.Alike (c c' : Context) : Prop where
  limit : c'.limit = c.limit
  depth : c'.depth = c.depth
  held : ∀ id, id ∈ c'.held ↔ id ∈ c.held

theorem Halt.exhausted_ne_fault (fault : Fault) : Halt.exhausted ≠ .fault fault := by
  intro same
  cases same

/-- Runs in contexts that are alike are in step. No fault cuts them short. -/
def Pace.alike : Pace fun _ => true where
  fits n m c c' := m = n ∧ c.Alike c'
  cuts halt := ∀ fault, halt ≠ .fault fault
  inStep := True
  together _ fits := fits.1
  live := by
    rintro n m c c' ⟨-, alike⟩ s id
    exact s.isLive_congr alike.held
  hold := by
    rintro n m c c' ids ⟨levels, alike⟩
    refine ⟨levels, alike.limit, alike.depth, fun id => ?_⟩
    rw [List.mem_append, List.mem_append, alike.held]
  tooDeep := by
    rintro n m c c' ⟨-, alike⟩ tooDeep
    exact .inr ⟨by rwa [alike.limit, alike.depth], alike.limit⟩
  descend := by
    rintro n m c c' ⟨rfl, alike⟩ room
    refine ⟨by rwa [alike.limit, alike.depth], ?_⟩
    cases m with
    | zero => exact .inl ⟨rfl, Halt.exhausted_ne_fault⟩
    | succ n =>
      refine .inr ⟨n, n, rfl, rfl, rfl, alike.limit, ?_, alike.held⟩
      exact congrArg (· + 1) alike.depth
  loops := by
    rintro n m c c' condition body - ⟨rfl, -⟩
    exact ⟨Halt.exhausted_ne_fault, Nat.le_refl m⟩
  apart := by
    rintro n m c c' body - ⟨levels, alike⟩
    exact ⟨levels, alike.limit, rfl, alike.held⟩
  handles _ _ fault cut := cut fault rfl
  onLine _ cut := absurd rfl (cut _)

namespace Run

variable {α : Type} {context context' : Context} {s : Store}

/-- Runs in step end in the same way. -/
theorem eq_of_safe {n : Nat} {run : Run α}
    (safe : Safe (Law.trivial fun _ => true) Pace.alike n n run run)
    (alike : context.Alike context') : run context' s = run context s := by
  have kept := safe context context' s ⟨rfl, alike⟩ (s.written_of_forall fun _ => rfl) trivial
  generalize run context s = ended, run context' s = ended' at kept
  cases kept with
  | ok => rfl
  | fault => rfl
  | cut _ _ _ both => exact both trivial

end Run

namespace Below

open Run

variable {levels : Nat} {scope : ScopeId} {context context' : Context} {s : Store}

theorem lawful_alike (levels : Nat) :
    Below.Lawful (Law.trivial fun _ => true) Pace.alike levels levels (Below.upTo levels)
      (Below.upTo levels) :=
  lawful_upTo _ _ levels levels

/-- So is the object that an expression evaluates to. -/
theorem evaluateObject_alike (e : Expr) (alike : context.Alike context') :
    (Below.upTo levels).evaluateObject scope e context' s =
      (Below.upTo levels).evaluateObject scope e context s :=
  eq_of_safe (safe_evaluateObject (lawful_alike levels) scope e) alike

end Below

-- ================================================================== looking

namespace Run

variable {α β : Type}

/-- A run that does not depend on its context. -/
def Heedless (run : Run α) : Prop :=
  ∀ context context' s, run context s = run context' s

/-- What goes on without its context goes on alike from where a run has ended
alike. -/
theorem bind_of_heedless {run : Run β} {next : β → Run α} {context context' : Context} {s : Store}
    (first : run context s = run context' s) (second : ∀ b, Heedless (next b)) :
    (run >>= next) context s = (run >>= next) context' s := by
  rw [bind_apply, bind_apply, first]
  cases run context' s with
  | mk result t =>
    cases result with
    | ok b => exact second b context context' t
    | error halt => rfl

/-- A run that only looks at the store. -/
def Looks (run : Run α) : Prop :=
  ∃ result : Store → Except Halt α, ∀ context s, run context s = (result s, s)

theorem Looks.heedless {run : Run α} (looks : Looks run) : Heedless run := by
  obtain ⟨result, ends⟩ := looks
  intro context context' s
  rw [ends, ends]

theorem looks_pure {a : α} : Looks (pure a) :=
  ⟨fun _ => .ok a, fun _ _ => rfl⟩

theorem looks_ofResult {result : Except Fault α} : Looks (ofResult result) := by
  cases result with
  | ok a => exact looks_pure
  | error fault => exact ⟨fun _ => .error (.fault fault), fun _ _ => rfl⟩

theorem looks_bind {run : Run β} {next : β → Run α} (first : Looks run)
    (second : ∀ b, Looks (next b)) : Looks (run >>= next) := by
  obtain ⟨result, ends⟩ := first
  choose results ends' using second
  refine ⟨fun s => (result s).bind fun b => results b s, fun context s => ?_⟩
  rw [bind_apply, ends]
  dsimp only
  cases result s with
  | ok b => exact ends' b context s
  | error halt => rfl

theorem looks_lookUp {f : Store → Except Fault α} : Looks (lookUp f) :=
  looks_bind ⟨fun s => .ok (f s), fun _ _ => rfl⟩ fun _ => looks_ofResult

theorem looks_holding {ids : List ScopeId} {run : Run α} (looks : Looks run) :
    Looks (holding ids run) := by
  obtain ⟨result, ends⟩ := looks
  exact ⟨result, fun context s => ends _ s⟩

end Run

namespace Below

open Run

variable {below : Below} {scope : ScopeId}

mutual

/-- A quiet expression is evaluated by looking. -/
theorem looks_evaluate (e : Expr) (quiet : e.isQuiet = true) : Looks (below.evaluate scope e) := by
  unfold evaluate
  cases e with
  | number | string | bool | null => exact looks_pure
  | list items =>
    rw [Expr.isQuiet] at quiet
    exact looks_bind (looks_evaluateAll items quiet) fun _ => looks_pure
  | name x => exact looks_lookUp
  | member object m =>
    rw [Expr.isQuiet] at quiet
    exact looks_bind (looks_evaluate object quiet) fun _ => looks_lookUp
  | index target position =>
    rw [Expr.isQuiet, Bool.and_eq_true] at quiet
    refine looks_bind (looks_evaluate target quiet.1) fun t => ?_
    exact looks_bind (looks_holding (looks_evaluate position quiet.2)) fun p => looks_ofResult
  | unary op operand =>
    rw [Expr.isQuiet] at quiet
    exact looks_bind (looks_evaluate operand quiet) fun _ => looks_ofResult
  | binary op left right =>
    rw [Expr.isQuiet, Bool.and_eq_true] at quiet
    refine looks_bind (looks_evaluate left quiet.1) fun l => ?_
    split
    · refine looks_bind looks_ofResult fun b => ?_
      split
      · exact looks_pure
      · refine looks_bind (looks_evaluate right quiet.2) fun r => ?_
        exact looks_bind looks_ofResult fun _ => looks_pure
    · exact looks_bind (looks_holding (looks_evaluate right quiet.2)) fun r => looks_ofResult
  | call | methodCall | new => cases quiet

theorem looks_evaluateAll (es : List Expr) (quiet : Expr.allQuiet es = true) :
    Looks (below.evaluateAll scope es) := by
  unfold evaluateAll
  cases es with
  | nil => exact looks_pure
  | cons e rest =>
    rw [Expr.allQuiet, Bool.and_eq_true] at quiet
    refine looks_bind (looks_evaluate e quiet.1) fun v => ?_
    exact looks_bind (looks_holding (looks_evaluateAll rest quiet.2)) fun _ => looks_pure

end

theorem looks_evaluateObject {e : Expr} (quiet : e.isQuiet = true) :
    Looks (below.evaluateObject scope e) :=
  looks_bind (looks_evaluate e quiet) fun _ => looks_ofResult

end Below

end RoutineScript
