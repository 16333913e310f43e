/-
What a statement does in its own scope.

Where a regime lets scripts work, they may do everything. The scope in which a
statement is executed need not be such a scope, for the statement itself does
little there: it declares, assigns and removes names, defines callables and
declares classes (`Change.Local`). All the rest is done by what it calls, in
the objects that it holds, and in the scopes of its blocks. So a regime that
survives these few changes in a scope can lend it to statements
(`Regime.Lends`), whatever they call.

Of all that a statement does there itself, only a deletion takes something
away. The names that it deletes are read off its text (`Stmt.dropped`).
-/
import RoutineScript.Proofs.Run.Ruled

namespace RoutineScript

open Mentions (within)

-- ================================================================ statements

namespace Stmt

mutual

/-- The names that a statement deletes in the scope where it is executed. The
parts of a `try` are executed there, too; those of a block are not. -/
def dropped : Stmt → List String
  | delete (.name x) => [x]
  | attempt body none => blockDropped body
  | attempt body (some handler) => blockDropped body ++ blockDropped handler
  | _ => []

/-- The names that the statements of a block delete there. -/
def blockDropped : List (Located Stmt) → List String
  | [] => []
  | ⟨_, statement⟩ :: rest => statement.dropped ++ blockDropped rest

end

end Stmt

-- =================================================================== lending

/-- The changes that a statement itself makes in the scope `x` where it is
executed, when the objects in `K` are known. -/
inductive Change.Local (K : Set ScopeId) (x : ScopeId) (lost : Set String) : Change → Prop where
  | declare (name : String) {v : Value} : within K v →
      Local K x lost (.operation (.declare x name v))
  | assign (name : String) {v : Value} : within K v →
      Local K x lost (.operation (.assign x name v))
  | remove {name : String} : name ∈ lost → Local K x lost (.operation (.remove x name))
  | define (name : String) (params : List String) (body : Block) :
      Local K x lost (.define x name params body)
  | declareClass {c : Class} : c.home = x → Local K x lost (.declareClass c)

/-- A regime lends a scope to statements that delete no names but these. -/
structure Regime.Lends (R : Regime) (x : ScopeId) (lost : Set String) : Prop where
  /-- Whatever is called or constructed is at home. -/
  home : ∀ s, R.home s = Set.univ
  survives : ∀ {s : Store} {c : Change}, R.Holds s → R.keeps s → c.Local (R.free s) x lost →
    R.keeps (c.apply s)

namespace Regime.Lends

variable {R : Regime} {x : ScopeId} {lost : Set String} {s : Store}

theorem atHome (lends : R.Lends x lost) (s : Store) (id : ScopeId) : id ∈ R.home s := by
  rw [lends.home s]
  trivial

theorem rules (lends : R.Lends x lost) {c : Change} (changes : c.Local (R.free s) x lost)
    (rules : R.Rules s) : R.Rules (c.apply s) where
  holds := by
    refine rules.holds.apply ?_ (fun _ place _ => lends.atHome s place)
      fun _ place _ => lends.atHome s place
    cases changes with
    | declare _ known | assign _ known => exact known
    | remove | define | declareClass => trivial
  keeps := lends.survives rules.holds rules.keeps changes

end Regime.Lends

namespace Below

open Run

variable {R : Regime} {below : Below} {x : ScopeId} {lost : Set String}

section

variable (abiding : below.Abiding R) (lends : R.Lends x lost) {s : Store}

include abiding lends

theorem abides_assignPlace_of_lends {v : Value} (known : within (R.free s) v) (place : Place) :
    Abides R s (below.assignPlace x v place) := by
  cases place with
  | name y =>
    exact abides_attempt_of (.operation (.assign x y v)) (lends.rules (.assign y known)) rfl
      fun _ _ _ => trivial
  | member object m =>
    refine abides_bind (abides_holding (abides_evaluateObject abiding object))
      fun t o older free => ?_
    exact abides_assign m (.inl free) (Mentions.mono (R.free_mono older) known)

theorem abides_deletePlace_of_lends {place : Place}
    (deletes : ∀ name ∈ (Stmt.delete place).dropped, name ∈ lost) :
    Abides R s (below.deletePlace x place) := by
  cases place with
  | name y =>
    have inLost : y ∈ lost := deletes y (by rw [Stmt.dropped]; exact List.mem_singleton_self y)
    have removes : Abides R s (attempt (·.remove x y)) := by
      refine abides_attempt_of (.operation (.remove x y)) (lends.rules (.remove inLost)) rfl
        fun rules v eq => ?_
      exact Mentions.mono (R.free_mono (Store.older_apply _ s)) (rules.holds.knows.removed eq)
    exact abides_bind removes fun _ _ _ _ => abides_pure trivial
  | member object m =>
    refine abides_bind (abides_evaluateObject abiding object) fun t o _ free => ?_
    exact abides_bind (abides_remove m (.inl free)) fun _ _ _ _ => abides_pure trivial

theorem abides_declareClass_of_lends (name : String) (parent : Option Expr) (body : Block) :
    Abides R s (below.declareClass x name parent body) := by
  refine abides_declareClass_of abiding (fun t c _ here _ => ?_) name parent body
  exact fun rules _ => ⟨Store.older_apply (.declareClass c) t,
    lends.rules (.declareClass here) rules, fun _ _ => trivial⟩

end

mutual

/-- A statement that is executed in a scope that is lent keeps to the regime.
Only a `try` has parts that are executed there as well. -/
theorem abides_execute_of_lends (abiding : below.Abiding R) (lends : R.Lends x lost)
    (patience : Nat) (s : Store) (statement : Stmt)
    (deletes : ∀ name ∈ statement.dropped, name ∈ lost) :
    Abides R s (below.execute patience x statement) := by
  have elsewhere : statement.isBlock = true →
      Abides R s (below.execute patience x statement) := by
    intro block
    refine abides_execute abiding patience s x statement (.inl (lends.atHome s x)) fun simple => ?_
    rw [block] at simple
    cases simple
  cases statement with
  | branch | whileLoop | forLoop | countLoop | thread => exact elsewhere rfl
  | assign place e =>
    unfold execute
    refine abides_bind (abides_evaluate abiding s x e) fun t v _ known => ?_
    exact abides_doing (abides_assignPlace_of_lends abiding lends known place)
  | compound place op e =>
    unfold execute
    exact abides_doing (abides_combine_of abiding
      (fun _ _ _ known => abides_assignPlace_of_lends abiding lends known place) op e)
  | step place delta =>
    unfold execute
    refine abides_bind (abides_readPlace abiding place) fun t v _ _ => ?_
    refine abides_bind (abides_ofResult fun _ _ => trivial) fun u current _ _ => ?_
    exact abides_doing (abides_assignPlace_of_lends abiding lends (within_number _) place)
  | delete place =>
    unfold execute
    exact abides_doing (abides_deletePlace_of_lends abiding lends deletes)
  | make name =>
    unfold execute
    exact abides_doing (abides_attempt_of (.operation (.declare x name .null))
      (lends.rules (.declare name within_null)) rfl fun _ _ _ => trivial)
  | call callee args =>
    unfold execute
    exact abides_doing (abides_callStatement abiding callee args)
  | «return» value => exact abides_return abiding patience value
  | attempt body handler =>
    unfold execute
    cases handler with
    | none =>
      unfold Stmt.dropped at deletes
      exact abides_handling (abides_executeBlock_of_lends abiding lends patience s body deletes)
        fun _ _ => abides_finished
    | some handler =>
      unfold Stmt.dropped at deletes
      exact abides_handling
        (abides_executeBlock_of_lends abiding lends patience s body fun name mem =>
          deletes name (List.mem_append_left _ mem))
        fun t _ => abides_executeBlock_of_lends abiding lends patience t handler fun name mem =>
          deletes name (List.mem_append_right _ mem)
  | define name params body =>
    unfold execute
    exact abides_doing (abides_attempt_of (.define x name params body)
      (lends.rules (.define name params body)) rfl fun _ _ _ => trivial)
  | declareClass name parent body =>
    unfold execute
    exact abides_doing (abides_declareClass_of_lends abiding lends name parent body)
  | invalid fault =>
    unfold execute
    exact abides_fail fault

theorem abides_executeBlock_of_lends (abiding : below.Abiding R) (lends : R.Lends x lost)
    (patience : Nat) (s : Store) (block : List (Located Stmt))
    (deletes : ∀ name ∈ Stmt.blockDropped block, name ∈ lost) :
    Abides R s (below.executeBlock patience x block) := by
  unfold executeBlock
  cases block with
  | nil => exact abides_finished
  | cons statement rest =>
    obtain ⟨line, statement⟩ := statement
    rw [Stmt.blockDropped] at deletes
    refine abides_bind (abides_onLine (abides_execute_of_lends abiding lends patience s statement
      fun name mem => deletes name (List.mem_append_left _ mem))) fun t flow _ ended => ?_
    cases flow with
    | finished =>
      exact abides_executeBlock_of_lends abiding lends patience t rest fun name mem =>
        deletes name (List.mem_append_right _ mem)
    | returned v => exact abides_pure ended

end

end Below

end RoutineScript
