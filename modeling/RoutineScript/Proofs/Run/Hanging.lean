/-
What a run executes, told by what would become of it otherwise.

A run shows its result and what it has made of the store, but not which
statements it has executed. Still that can be told: a run that executes a
statement of some kind would never end if such statements never ended, for
lost patience is not handled. And the statements that it does not execute
might as well hang, without anybody noticing.

# The argument

Statements hang where they would be executed. In each block that is entered,
those of the kind are replaced by a loop without an end (`Stmt.hangBlock`); the
bodies of definitions and classes go into the store as they are, and are
looked through when they are entered. So a run in which statements hang and
the run itself find the same store all the way, up to the first statement that
hangs (`Run.executes_or_same`). This is one more comparison of two levels under
the law that holds of all runs, with new work to do only where blocks stand in
statements.
-/
import RoutineScript.Proofs.Run.Located
import RoutineScript.Proofs.Run.Termination

namespace RoutineScript

-- ================================================================== hanging

namespace Stmt

/-- A statement that never ends. -/
def endless : Stmt :=
  .whileLoop (.bool true) []

variable (p : Stmt → Bool)

mutual

/-- A statement with blocks in which the statements of a kind never end. What
it defines stays as it is. -/
def hangWithin : Stmt → Stmt
  | branch arms => branch (hangArms arms)
  | whileLoop condition body => whileLoop condition (hangBlock body)
  | forLoop count body => forLoop count (hangBlock body)
  | countLoop name start stop body => countLoop name start stop (hangBlock body)
  | attempt body none => attempt (hangBlock body) none
  | attempt body (some handler) => attempt (hangBlock body) (some (hangBlock handler))
  | thread body => thread (hangBlock body)
  | statement => statement

/-- A block in which the statements of a kind never end. -/
def hangBlock : List (Located Stmt) → List (Located Stmt)
  | [] => []
  | ⟨line, statement⟩ :: rest =>
    ⟨line, if p statement then endless else statement.hangWithin⟩ :: hangBlock rest

/-- Arms with blocks in which the statements of a kind never end. -/
def hangArms : List (Option Expr × List (Located Stmt)) → List (Option Expr × List (Located Stmt))
  | [] => []
  | (condition, body) :: rest => (condition, hangBlock body) :: hangArms rest

end

variable {p}

theorem hangWithin_of_isLeaf {statement : Stmt} (leaf : statement.isLeaf = true) :
    statement.hangWithin p = statement := by
  cases statement with
  | branch | whileLoop | forLoop | countLoop | attempt | thread => cases leaf
  | _ => rfl

-- If no statements hang, nothing changes.
mutual

theorem hangWithin_none (statement : Stmt) : statement.hangWithin (fun _ => false) = statement := by
  cases statement with
  | branch arms => rw [hangWithin, hangArms_none arms]
  | whileLoop _ body | forLoop _ body | countLoop _ _ _ body | thread body =>
    rw [hangWithin, hangBlock_none body]
  | attempt body handler =>
    cases handler with
    | none => rw [hangWithin, hangBlock_none body]
    | some handler => rw [hangWithin, hangBlock_none body, hangBlock_none handler]
  | _ => rfl

theorem hangBlock_none (block : List (Located Stmt)) : hangBlock (fun _ => false) block = block := by
  cases block with
  | nil => rfl
  | cons statement rest =>
    obtain ⟨line, statement⟩ := statement
    simp only [hangBlock, hangWithin_none statement, hangBlock_none rest, Bool.false_eq_true, if_false]

theorem hangArms_none (arms : List (Option Expr × List (Located Stmt))) :
    hangArms (fun _ => false) arms = arms := by
  cases arms with
  | nil => rfl
  | cons arm rest =>
    obtain ⟨condition, body⟩ := arm
    rw [hangArms, hangBlock_none body, hangArms_none rest]

end

end Stmt

namespace Run

variable (p : Stmt → Bool)

mutual

/-- Executes a block as `Run.executeAt` does, but statements of a kind never
end. -/
def executeHanging : Nat → ScopeId → Block → Run Flow
  | 0, _, _ => throw .exhausted
  | levels + 1, scope, block =>
    holding [scope]
      (Below.executeBlock ⟨executeHanging levels, constructHanging levels⟩ levels scope
        (Stmt.hangBlock p block))

/-- Constructs an object as `Run.constructAt` does, but statements of a kind
never end. -/
def constructHanging : Nat → Class → List Value → Run Object
  | 0, _, _ => throw .exhausted
  | levels + 1, c, args =>
    Below.constructObject ⟨executeHanging levels, constructHanging levels⟩ levels
      { c with body := Stmt.hangBlock p c.body } args

end

/-- A block is executed to an end, but would not be if the statements of a
kind never ended: one of them is executed. -/
def Executes (p : Stmt → Bool) (levels : Nat) (scope : ScopeId) (block : Block) (context : Context)
    (s : Store) : Prop :=
  (executeAt levels scope block context s).1 ≠ .error .exhausted ∧
    (executeHanging p levels scope block context s).1 = .error .exhausted

end Run

/-- The level of calls that may nest `levels` deep, if the statements of a kind
never end. -/
def Below.hanging (p : Stmt → Bool) (levels : Nat) : Below :=
  ⟨Run.executeHanging p levels, Run.constructHanging p levels⟩

theorem Below.hanging_none (levels : Nat) :
    Below.hanging (fun _ => false) levels = Below.upTo levels := by
  induction levels with
  | zero => rfl
  | succ levels ih =>
    obtain ⟨enters, constructs⟩ := Below.mk.inj ih
    refine congrArg₂ Below.mk ?_ ?_
    · funext scope block
      rw [Run.executeHanging, Run.executeAt, enters, constructs, Stmt.hangBlock_none]
    · funext c args
      rw [Run.constructHanging, Run.constructAt, enters, constructs, Stmt.hangBlock_none]
      rfl

-- =================================================== as if nothing ever hung

namespace Below

open Run

variable {p : Stmt → Bool} {below below' : Below} {n : Nat}

/-- The first run ends as the second one, unless it is cut short. -/
abbrev Mimics {α : Type} (n : Nat) (run run' : Run α) : Prop :=
  Safe (Law.trivial fun _ => true) (Pace.same _) n n run run'

theorem execute_endless (below : Below) (patience : Nat) (scope : ScopeId) (context : Context)
    (s : Store) : (below.execute patience scope Stmt.endless context s).1 = .error .exhausted := by
  have loops : ∀ (rounds : Nat) (s : Store),
      (repeatWhile (below.evaluateBool scope (.bool true))
        (inChild scope fun child => below.executeBlock patience child []) rounds context s).1 =
          .error .exhausted := by
    intro rounds
    induction rounds with
    | zero => exact fun _ => rfl
    | succ rounds ih =>
      intro s
      exact ih (s.addChild scope).2
  rw [Stmt.endless, execute]
  exact loops patience s

/-- No fault cuts a run short. -/
theorem not_cuts (fault : Fault) : ¬(Pace.same fun _ => true).cuts (.fault fault) := by
  intro cut
  cases cut

/-- What is cut short mimics everything. -/
theorem mimics_of_exhausted {α : Type} {run run' : Run α}
    (exhausted : ∀ context s, (run context s).1 = .error .exhausted) : Mimics n run run' := by
  intro context context' s _ _ _
  have cut := exhausted context s
  generalize run context s = ended at cut
  obtain ⟨result, t⟩ := ended
  cases cut
  exact .cut (t.written_of_forall fun _ => rfl) trivial rfl nofun

mutual

theorem mimics_hangWithin
    (lawful : Below.Lawful (Law.trivial fun _ => true) (Pace.same _) n n below below')
    (scope : ScopeId) (statement : Stmt) :
    Mimics n (below.execute n scope (statement.hangWithin p))
      (below'.execute n scope statement) := by
  by_cases leaf : statement.isLeaf = true
  · rw [Stmt.hangWithin_of_isLeaf leaf]
    exact safe_execute lawful scope statement (Stmt.everywhere_of_forall (fun _ => rfl) statement)
  cases statement with
  | branch arms =>
    rw [Stmt.hangWithin, execute, execute]
    exact mimics_hangArms lawful scope arms
  | whileLoop condition body =>
    rw [Stmt.hangWithin, execute, execute]
    exact safe_repeatWhile rfl (safe_evaluateBool lawful scope condition)
      (safe_inChild fun child _ => mimics_hangBlock lawful child body) (Nat.le_refl n) fun _ => rfl
  | forLoop count body =>
    rw [Stmt.hangWithin, execute, execute]
    refine safe_bind (safe_evaluateNumber lawful scope count) fun count => ?_
    exact safe_repeatFor (fun _ => safe_inChild fun child _ => mimics_hangBlock lawful child body) 0 _
  | countLoop name start stop body =>
    rw [Stmt.hangWithin, execute, execute]
    refine safe_bind (safe_evaluateNumber lawful scope start) fun start => ?_
    refine safe_bind (safe_evaluateNumber lawful scope stop) fun stop => ?_
    refine safe_repeatFor (fun round => safe_inChild fun child _ => ?_) 0 _
    refine safe_bind ?_ fun _ => mimics_hangBlock lawful child body
    exact safe_attempt (fun _ => .operation (.declare child name _)) (fun _ => .declare ..)
      fun _ => rfl
  | attempt body handler =>
    cases handler with
    | none =>
      rw [Stmt.hangWithin, execute, execute]
      exact obeys_handling not_cuts (mimics_hangBlock lawful scope body) safe_pure
    | some handler =>
      rw [Stmt.hangWithin, execute, execute]
      exact obeys_handling not_cuts (mimics_hangBlock lawful scope body)
        (mimics_hangBlock lawful scope handler)
  | thread body =>
    rw [Stmt.hangWithin, execute, execute]
    refine safe_bind (obeys_handling not_cuts (safe_inChild fun child _ => ?_) safe_pure)
      fun _ => safe_pure
    rintro context _ s ⟨-, rfl⟩
    exact mimics_hangBlock lawful child body _ _ s ⟨rfl, rfl⟩
  | assign | compound | step | delete | make | call | «return» | define | declareClass
  | invalid => exact absurd rfl leaf

/-- A block in which statements hang ends as the block does, unless it comes
to one of them. -/
theorem mimics_hangBlock
    (lawful : Below.Lawful (Law.trivial fun _ => true) (Pace.same _) n n below below')
    (scope : ScopeId) (block : List (Located Stmt)) :
    Mimics n (below.executeBlock n scope (Stmt.hangBlock p block))
      (below'.executeBlock n scope block) := by
  cases block with
  | nil => exact safe_pure
  | cons statement rest =>
    obtain ⟨line, statement⟩ := statement
    rw [Stmt.hangBlock, executeBlock, executeBlock]
    have executed : Mimics n
        (below.execute n scope (if p statement then Stmt.endless else statement.hangWithin p))
        (below'.execute n scope statement) := by
      split
      · exact mimics_of_exhausted (below.execute_endless n scope)
      · exact mimics_hangWithin lawful scope statement
    refine safe_bind (obeys_onLine executed) fun flow => ?_
    cases flow with
    | finished => exact mimics_hangBlock lawful scope rest
    | returned v => exact safe_pure

theorem mimics_hangArms
    (lawful : Below.Lawful (Law.trivial fun _ => true) (Pace.same _) n n below below')
    (scope : ScopeId) (arms : List (Option Expr × List (Located Stmt))) :
    Mimics n (below.executeArms n scope (Stmt.hangArms p arms))
      (below'.executeArms n scope arms) := by
  cases arms with
  | nil => exact safe_pure
  | cons arm rest =>
    obtain ⟨condition, body⟩ := arm
    have executed : Mimics n
        (inChild scope fun child => below.executeBlock n child (Stmt.hangBlock p body))
        (inChild scope fun child => below'.executeBlock n child body) :=
      safe_inChild fun child _ => mimics_hangBlock lawful child body
    cases condition with
    | none => exact executed
    | some condition =>
      rw [Stmt.hangArms, executeArms, executeArms]
      refine safe_bind (safe_evaluateBool lawful scope condition) fun holds => ?_
      split
      · exact executed
      · exact mimics_hangArms lawful scope rest

end

-- ------------------------------------------------------------ constructions

theorem builds_of_mimics {c : Class} {run run' : Run Object} (mimics : Mimics n run run')
    (constructs : ∀ context s o t, run' context s = (.ok o, t) → c.Constructs s o t) :
    Builds (Law.trivial fun _ => true) (Pace.same _) n n c run run' := by
  intro context context' s fits written inv
  refine (mimics context context' s fits written inv).imp fun o t ended other _ => ?_
  rw [ended]
  exact constructs context' s o t other

theorem mimics_constructObject
    (lawful : Below.Lawful (Law.trivial fun _ => true) (Pace.same _) n n below below')
    (c : Class) (args : List Value) :
    Mimics n (below.constructObject n { c with body := Stmt.hangBlock p c.body } args)
      (below'.constructObject n c args) := by
  have built : ∀ object, Mimics n
      (below.build n object { c with body := Stmt.hangBlock p c.body } args)
      (below'.build n object c args) := by
    intro object
    rw [build_eq, build_eq]
    exact safe_bind (mimics_hangBlock lawful object c.body) fun _ => safe_finish lawful trivial
  refine safe_bind (safe_requireLive c.home c.name) fun _ => ?_
  refine safe_inChild fun object _ => ?_
  dsimp only
  split
  · next parent _ =>
    exact safe_bind (safe_installSupers trivial (parent.written_of_forall fun _ => rfl))
      fun _ => built object
  · exact built object

-- ------------------------------------------------------------------- levels

theorem lawful_hanging (p : Stmt → Bool) (n : Nat) :
    Below.Lawful (Law.trivial fun _ => true) (Pace.same _) n n (Below.hanging p n)
      (Below.upTo n) := by
  induction n with
  | zero =>
    constructor
    · intro scope block _
      exact safe_deeper (fun _ => rfl) (fun _ => rfl) fun n' _ none => by cases none
    · intro c args _
      exact builds_of_mimics (safe_deeper (fun _ => rfl) (fun _ => rfl)
        fun n' _ none => by cases none) fun _ _ _ _ => constructs_of_deeper
  | succ n ih =>
    constructor
    · intro scope block _
      refine safe_deeper nofun nofun fun n' m' levels levels' => ?_
      cases levels
      cases levels'
      exact obeys_holding (mimics_hangBlock ih scope block)
    · intro c args _
      refine builds_of_mimics (safe_deeper nofun nofun fun n' m' levels levels' => ?_)
        fun _ _ _ _ => constructs_of_deeper
      cases levels
      cases levels'
      exact mimics_constructObject ih c args

end Below

namespace Run

variable {p : Stmt → Bool} {levels : Nat} {scope : ScopeId} {block : Block} {context : Context}
  {s : Store}

/-- **What is not executed might as well hang.** A block executes a statement
of a kind, or it ends the same way when such statements never end, or it does
not end at all. -/
theorem executes_or_same (ends : (executeAt levels scope block context s).1 ≠ .error .exhausted) :
    Executes p levels scope block context s ∨
      executeHanging p levels scope block context s = executeAt levels scope block context s := by
  cases levels with
  | zero => exact absurd rfl ends
  | succ n =>
    have mimics : Below.Mimics n (executeHanging p (n + 1) scope block)
        (executeAt (n + 1) scope block) :=
      obeys_holding (Below.mimics_hangBlock (Below.lawful_hanging p n) scope block)
    have kept := mimics context context s ⟨rfl, rfl⟩ (s.written_of_forall fun _ => rfl) trivial
    unfold Executes
    generalize executeHanging p (n + 1) scope block context s = ended,
      executeAt (n + 1) scope block context s = ended' at kept ends
    cases kept with
    | ok => exact .inr rfl
    | fault => exact .inr rfl
    | cut _ _ cut => exact .inl ⟨ends, congrArg Except.error cut⟩

end Run

end RoutineScript
