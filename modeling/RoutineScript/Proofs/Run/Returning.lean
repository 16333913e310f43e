/-
Where a block returns from.

A definition may be called for its value if a `return` is written somewhere
in its body. That is decided when it is defined, by its text alone; whether a
call then ends with a value is up to the run. `Below.Returns` tells how a run
comes to return: it executes a `return` that stands in the block itself, or in
a body that one of the block's own statements has entered, and a statement
enters a body in the ways of `Below.Enters` only. Branches, loops and attempts
are all there are: what is returned in a definition, a class body, a thread or
a callee ends there.

# The argument

A statement that returns is a `return`, or has entered a body that does
(`exists_enters_of_returned`). By induction on its size a block returns just
as `Returns` says (`Below.returns_iff`), and all text along that way is text
of the block (`Returns.mentionsReturn`).

The tables follow the text. In all stores that come about, the definitions
that may be called for their value are those of the others that mention
`return`, in the same order (`Store.Sorted`). Each change keeps this, because
whatever it does to the one table of a scope it does to the other.
-/
import RoutineScript.Proofs.Run.Homes

namespace RoutineScript

-- ================================================================== rounds

/-- Some rounds of a loop, one after the other, counted from a first one. -/
inductive Rounds (round : Nat → Store → Store → Prop) : Nat → Nat → Store → Store → Prop where
  | done {first : Nat} {s : Store} : Rounds round first 0 s s
  | next {first n : Nat} {s u t : Store} :
      round first s u → Rounds round (first + 1) n u t → Rounds round first (n + 1) s t

namespace Run

variable {α β : Type} {context : Context} {s t : Store} {v : Value}

theorem bind_eq_ok_iff {run : Run β} {next : β → Run α} {a : α} :
    (run >>= next) context s = (.ok a, t) ↔
      ∃ b u, run context s = (.ok b, u) ∧ next b context u = (.ok a, t) := by
  constructor
  · exact exists_of_bind
  · rintro ⟨b, u, first, second⟩
    rw [bind_apply, first]
    exact second

/-- A loop returns in one of its rounds, behind those that have finished. -/
theorem repeatFor_eq_returned_iff {body : Nat → Run Flow} {first rounds : Nat} :
    repeatFor body first rounds context s = (.ok (.returned v), t) ↔
      ∃ n u, n < rounds ∧
        Rounds (fun k s u => body k context s = (.ok .finished, u)) first n s u ∧
        body (first + n) context u = (.ok (.returned v), t) := by
  induction rounds generalizing first s with
  | zero =>
    constructor
    · nofun
    · rintro ⟨n, u, few, -⟩
      exact absurd few (Nat.not_lt_zero n)
  | succ rounds ih =>
    rw [repeatFor, bind_eq_ok_iff]
    constructor
    · rintro ⟨flow, u, round, rest⟩
      cases flow with
      | finished =>
        obtain ⟨n, w, few, before, last⟩ := ih.1 rest
        refine ⟨n + 1, w, Nat.succ_lt_succ few, .next round before, ?_⟩
        rwa [← Nat.add_assoc, Nat.add_right_comm]
      | returned v =>
        cases rest
        exact ⟨0, s, Nat.zero_lt_succ _, .done, round⟩
    · rintro ⟨n, w, few, before, last⟩
      cases before with
      | done => exact ⟨.returned v, t, last, rfl⟩
      | @next _ n _ u _ round before =>
        refine ⟨.finished, u, round, ih.2 ⟨n, w, Nat.lt_of_succ_lt_succ few, before, ?_⟩⟩
        rwa [← Nat.add_assoc, Nat.add_right_comm] at last

theorem repeatWhile_eq_returned_iff {condition : Run Bool} {body : Run Flow} {patience : Nat}
    (first : Nat) :
    repeatWhile condition body patience context s = (.ok (.returned v), t) ↔
      ∃ n u w, n < patience ∧
        Rounds (fun _ s u => ∃ w, condition context s = (.ok true, w) ∧
          body context w = (.ok .finished, u)) first n s u ∧
        condition context u = (.ok true, w) ∧ body context w = (.ok (.returned v), t) := by
  induction patience generalizing first s with
  | zero =>
    constructor
    · nofun
    · rintro ⟨n, u, w, few, -⟩
      exact absurd few (Nat.not_lt_zero n)
  | succ patience ih =>
    rw [repeatWhile, bind_eq_ok_iff]
    constructor
    · rintro ⟨holds, u, condition, rest⟩
      cases holds with
      | false => cases rest
      | true =>
        rw [if_pos rfl, bind_eq_ok_iff] at rest
        obtain ⟨flow, w, round, rest⟩ := rest
        cases flow with
        | finished =>
          obtain ⟨n, x, y, few, before, last⟩ := (ih (first + 1)).1 rest
          exact ⟨n + 1, x, y, Nat.succ_lt_succ few, .next ⟨u, condition, round⟩ before, last⟩
        | returned v =>
          cases rest
          exact ⟨0, s, u, Nat.zero_lt_succ _, .done, condition, round⟩
    · rintro ⟨n, x, y, few, before, condition, last⟩
      cases before with
      | done =>
        refine ⟨true, y, condition, ?_⟩
        rw [if_pos rfl, bind_eq_ok_iff]
        exact ⟨.returned v, t, last, rfl⟩
      | @next _ n _ u _ round before =>
        obtain ⟨w, holds, round⟩ := round
        refine ⟨true, w, holds, ?_⟩
        rw [if_pos rfl, bind_eq_ok_iff]
        exact ⟨.finished, u, round, (ih (first + 1)).2
          ⟨n, x, y, Nat.lt_of_succ_lt_succ few, before, condition, last⟩⟩

/-- A handler runs where the run before it was stopped. -/
theorem handling_eq_ok_iff {run handler : Run α} {a : α} :
    handling run handler context s = (.ok a, t) ↔
      run context s = (.ok a, t) ∨
        ∃ fault u, run context s = (.error (.fault fault), u) ∧ handler context u = (.ok a, t) := by
  unfold handling
  split
  · next fault u stopped =>
    constructor
    · exact fun handled => .inr ⟨fault, u, stopped, handled⟩
    · rintro (same | ⟨fault', u', same, handled⟩)
      · cases stopped.symm.trans same
      · cases stopped.symm.trans same
        exact handled
  · next other =>
    refine ⟨.inl, ?_⟩
    rintro (same | ⟨fault, u, stopped, -⟩)
    · exact same
    · exact absurd stopped (other fault u)

theorem onLine_eq_ok_iff {line : Nat} {run : Run α} {a : α} :
    onLine line run context s = (.ok a, t) ↔ run context s = (.ok a, t) := by
  unfold onLine
  split
  · next stopped =>
    constructor
    · nofun
    · intro same
      cases stopped.symm.trans same
  · exact Iff.rfl

theorem attempt_eq_ok_iff {f : Store → Except Fault α × Store} {a : α} :
    attempt f context s = (.ok a, t) ↔ f s = (.ok a, t) := by
  unfold attempt
  split
  · next done =>
    constructor <;> intro same
    · cases same
      exact done
    · cases done.symm.trans same
      rfl
  · next refused =>
    constructor
    · nofun
    · intro same
      cases refused.symm.trans same

end Run

-- =================================================================== sites

/-- Where something is executed: in a scope, within a context, in a store. -/
structure Site where
  scope : ScopeId
  context : Context
  store : Store

namespace Site

/-- The same site, when the store has changed. -/
def later (site : Site) (s : Store) : Site :=
  { site with store := s }

/-- A new scope below, which is worked with from then on. -/
def inChild (site : Site) : Site :=
  let (child, s) := site.store.addChild site.scope
  ⟨child, { site.context with held := [child] ++ site.context.held }, s⟩

end Site

namespace Below

open Run

variable {below : Below} {patience : Nat} {site site' : Site} {statement : Stmt}
  {block body : Block} {v : Value} {t : Store}

/-- Executes a block at a site. -/
def blockAt (below : Below) (patience : Nat) (site : Site) (block : Block) :
    Except Halt Flow × Store :=
  below.executeBlock patience site.scope block site.context site.store

/-- Executes a statement at a site. -/
def statementAt (below : Below) (patience : Nat) (site : Site) (statement : Stmt) :
    Except Halt Flow × Store :=
  below.execute patience site.scope statement site.context site.store

/-- Evaluates a condition at a site. -/
def holdsAt (below : Below) (site : Site) (condition : Expr) : Except Halt Bool × Store :=
  below.evaluateBool site.scope condition site.context site.store

-- ============================================================ entered bodies

/-- The conditions of some arms do not hold, one after the other. -/
inductive Skips (below : Below) (site : Site) :
    List (Option Expr × Block) → Store → Store → Prop where
  | none {s : Store} : Skips below site [] s s
  | arm {condition : Expr} {body : Block} {arms : List (Option Expr × Block)} {s u t : Store} :
      below.holdsAt (site.later s) condition = (.ok false, u) → Skips below site arms u t →
        Skips below site ((some condition, body) :: arms) s t

/-- The condition of an arm holds, if it has one. -/
def Takes (below : Below) (site : Site) : Option Expr → Store → Prop
  | none, t => t = site.store
  | some condition, t => below.holdsAt site condition = (.ok true, t)

/-- How a statement comes to execute a body, and where. Of the statements
that have bodies, only those have entered one that may go on to return from
the block around them. -/
inductive Enters (below : Below) (patience : Nat) (site : Site) : Stmt → Block → Site → Prop where
  | arm {skipped rest : List (Option Expr × Block)} {condition : Option Expr} {body : Block}
      {u w : Store} :
      below.Skips site skipped site.store u → below.Takes (site.later u) condition w →
        Enters below patience site (.branch (skipped ++ (condition, body) :: rest)) body
          (site.later w).inChild
  | whileRound {condition : Expr} {body : Block} {n : Nat} {u w : Store} :
      n < patience →
      Rounds (fun _ s t => ∃ w, below.holdsAt (site.later s) condition = (.ok true, w) ∧
        below.blockAt patience (site.later w).inChild body = (.ok .finished, t)) 0 n site.store u →
      below.holdsAt (site.later u) condition = (.ok true, w) →
        Enters below patience site (.whileLoop condition body) body (site.later w).inChild
  | forRound {count : Expr} {body : Block} {x : Float} {n : Nat} {u w : Store} :
      below.evaluateNumber site.scope count site.context site.store = (.ok x, u) →
      n < Number.stepCount 0 (x - 1) →
      Rounds (fun _ s t => below.blockAt patience (site.later s).inChild body = (.ok .finished, t))
        0 n u w →
        Enters below patience site (.forLoop count body) body (site.later w).inChild
  | countRound {name : String} {start stop : Expr} {body : Block} {x y : Float} {n : Nat}
      {u u' w w' : Store} :
      below.evaluateNumber site.scope start site.context site.store = (.ok x, u) →
      below.evaluateNumber site.scope stop site.context u = (.ok y, u') →
      n < Number.stepCount x y →
      Rounds (fun k s t => ∃ w, let child := (site.later s).inChild
        child.store.declare child.scope name (.number (x + .ofNat k)) = (.ok (), w) ∧
          below.blockAt patience (child.later w) body = (.ok .finished, t)) 0 n u' w →
      (site.later w).inChild.store.declare (site.later w).inChild.scope name
        (.number (x + .ofNat n)) = (.ok (), w') →
        Enters below patience site (.countLoop name start stop body) body
          ((site.later w).inChild.later w')
  | attempt {body : Block} {handler : Option Block} :
      Enters below patience site (.attempt body handler) body site
  | handler {body handler : Block} {fault : Fault} {u : Store} :
      below.blockAt patience site body = (.error (.fault fault), u) →
        Enters below patience site (.attempt body (some handler)) handler (site.later u)

theorem executeArms_eq_returned_iff {arms : List (Option Expr × Block)} {s : Store} :
    below.executeArms patience site.scope arms site.context s = (.ok (.returned v), t) ↔
      ∃ skipped condition body rest u w, arms = skipped ++ (condition, body) :: rest ∧
        below.Skips site skipped s u ∧ below.Takes (site.later u) condition w ∧
        below.blockAt patience (site.later w).inChild body = (.ok (.returned v), t) := by
  induction arms generalizing s with
  | nil =>
    constructor
    · nofun
    · rintro ⟨skipped, condition, body, rest, u, w, split, -⟩
      cases skipped <;> cases split
  | cons arm arms ih =>
    obtain ⟨_ | condition, body⟩ := arm
    · constructor
      · intro returned
        exact ⟨[], none, body, arms, s, s, rfl, .none, rfl, returned⟩
      · rintro ⟨skipped, condition, body, rest, u, w, split, skips, takes, returned⟩
        cases skips with
        | none =>
          cases split
          cases takes
          exact returned
        | arm => cases split
    · rw [executeArms, bind_eq_ok_iff]
      constructor
      · rintro ⟨holds, u, evaluated, rest⟩
        cases holds with
        | true => exact ⟨[], some condition, body, arms, s, u, rfl, .none, evaluated, rest⟩
        | false =>
          obtain ⟨skipped, condition', body', behind, u', w, rfl, skips, takes, returned⟩ :=
            ih.1 rest
          exact ⟨(some condition, body) :: skipped, condition', body', behind, u', w, rfl,
            .arm evaluated skips, takes, returned⟩
      · rintro ⟨skipped, condition', body', rest, u, w, split, skips, takes, returned⟩
        cases skips with
        | none =>
          cases split
          exact ⟨true, w, takes, returned⟩
        | @arm _ _ skipped _ u' _ evaluated skips =>
          cases split
          exact ⟨false, u', evaluated,
            ih.2 ⟨skipped, condition', body', rest, u, w, rfl, skips, takes, returned⟩⟩

theorem inChild_apply {α : Type} (run : ScopeId → Run α) (s : Store) :
    inChild site.scope run site.context s =
      let child := (site.later s).inChild
      run child.scope child.context child.store :=
  rfl

/-- A round of a `count` loop declares its variable before it enters the
body. -/
theorem countRound_eq_ok_iff {name : String} {x : Float} {flow : Flow} {s : Store} :
    (inChild site.scope fun child => do
      Run.attempt (·.declare child name (.number x))
      below.executeBlock patience child body) site.context s = (.ok flow, t) ↔
    ∃ w, let child := (site.later s).inChild
      child.store.declare child.scope name (.number x) = (.ok (), w) ∧
        below.blockAt patience (child.later w) body = (.ok flow, t) := by
  rw [inChild_apply, bind_eq_ok_iff]
  constructor
  · rintro ⟨⟨⟩, w, declared, executed⟩
    exact ⟨w, attempt_eq_ok_iff.1 declared, executed⟩
  · rintro ⟨w, declared, executed⟩
    exact ⟨(), w, attempt_eq_ok_iff.2 declared, executed⟩

-- ============================================================== statements

/-- What ends with `finished` does not return. -/
theorem finishing_ne_returned {α : Type} {run : Run α} {context : Context} {s : Store} :
    (do let _ ← run; return Flow.finished : Run Flow) context s ≠ (.ok (.returned v), t) := by
  intro returned
  obtain ⟨-, u, -, finished⟩ := bind_eq_ok_iff.1 returned
  cases finished

/-- A statement that returns is a `return`, or has entered a body that
returns. -/
theorem exists_enters_of_returned
    (returned : below.statementAt patience site statement = (.ok (.returned v), t)) :
    (∃ e, statement = .return e) ∨
      ∃ body site', below.Enters patience site statement body site' ∧
        below.blockAt patience site' body = (.ok (.returned v), t) := by
  unfold statementAt at returned
  cases statement with
  | assign place e =>
    rw [execute] at returned
    obtain ⟨w, u, -, rest⟩ := bind_eq_ok_iff.1 returned
    exact absurd rest finishing_ne_returned
  | compound | delete | make | call | thread | define | declareClass =>
    rw [execute] at returned
    exact absurd returned finishing_ne_returned
  | step place delta =>
    rw [execute] at returned
    obtain ⟨w, u, -, rest⟩ := bind_eq_ok_iff.1 returned
    obtain ⟨x, u, -, rest⟩ := bind_eq_ok_iff.1 rest
    exact absurd rest finishing_ne_returned
  | «return» e => exact .inl ⟨e, rfl⟩
  | branch arms =>
    rw [execute] at returned
    obtain ⟨skipped, condition, body, rest, u, w, rfl, skips, takes, returned⟩ :=
      executeArms_eq_returned_iff.1 returned
    exact .inr ⟨body, _, .arm skips takes, returned⟩
  | whileLoop condition body =>
    rw [execute] at returned
    obtain ⟨n, u, w, few, before, holds, returned⟩ := (repeatWhile_eq_returned_iff 0).1 returned
    exact .inr ⟨body, _, .whileRound few before holds, returned⟩
  | forLoop count body =>
    rw [execute] at returned
    obtain ⟨x, u, counted, returned⟩ := bind_eq_ok_iff.1 returned
    obtain ⟨n, w, few, before, returned⟩ := repeatFor_eq_returned_iff.1 returned
    exact .inr ⟨body, _, .forRound counted few before, returned⟩
  | countLoop name start stop body =>
    rw [execute] at returned
    obtain ⟨x, u, first, returned⟩ := bind_eq_ok_iff.1 returned
    obtain ⟨y, u', last, returned⟩ := bind_eq_ok_iff.1 returned
    obtain ⟨n, w, few, before, returned⟩ := repeatFor_eq_returned_iff.1 returned
    simp only [countRound_eq_ok_iff] at before
    rw [Nat.zero_add, countRound_eq_ok_iff] at returned
    obtain ⟨w', declared, returned⟩ := returned
    exact .inr ⟨body, _, .countRound first last few before declared, returned⟩
  | attempt body handler =>
    obtain _ | handler := handler <;> rw [execute] at returned
    · obtain returned | ⟨-, u, -, finished⟩ := handling_eq_ok_iff.1 returned
      · exact .inr ⟨body, _, .attempt, returned⟩
      · cases finished
    · obtain returned | ⟨fault, u, failed, returned⟩ := handling_eq_ok_iff.1 returned
      · exact .inr ⟨body, _, .attempt, returned⟩
      · exact .inr ⟨handler, _, .handler failed, returned⟩
  | invalid fault =>
    rw [execute] at returned
    cases returned

/-- A statement returns what a body that it has entered returns. -/
theorem returned_of_enters (enters : below.Enters patience site statement body site')
    (returned : below.blockAt patience site' body = (.ok (.returned v), t)) :
    below.statementAt patience site statement = (.ok (.returned v), t) := by
  unfold statementAt
  cases enters with
  | arm skips takes =>
    rw [execute]
    exact executeArms_eq_returned_iff.2 ⟨_, _, _, _, _, _, rfl, skips, takes, returned⟩
  | whileRound few before holds =>
    rw [execute]
    exact (repeatWhile_eq_returned_iff 0).2 ⟨_, _, _, few, before, holds, returned⟩
  | forRound counted few before =>
    rw [execute, bind_eq_ok_iff]
    exact ⟨_, _, counted, repeatFor_eq_returned_iff.2 ⟨_, _, few, before, returned⟩⟩
  | @countRound _ _ _ _ _ _ n _ _ w _ first last few before declared =>
    rw [execute, bind_eq_ok_iff]
    refine ⟨_, _, first, bind_eq_ok_iff.2 ⟨_, _, last, repeatFor_eq_returned_iff.2 ⟨n, w, few, ?_⟩⟩⟩
    simp only [countRound_eq_ok_iff, Nat.zero_add]
    exact ⟨before, _, declared, returned⟩
  | @attempt _ handler =>
    cases handler <;> rw [execute, handling_eq_ok_iff] <;> exact .inl returned
  | handler failed =>
    rw [execute, handling_eq_ok_iff]
    exact .inr ⟨_, _, failed, returned⟩

-- ================================================================= returning

/-- How a block returns: it executes a `return` among its statements, or one
of its statements has entered a body that returns. The statements before have
finished. -/
inductive Returns (below : Below) (patience : Nat) : Site → Block → Value → Store → Prop where
  | own {site : Site} {front rest : Block} {line : Nat} {e : Option Expr} {u t : Store}
      {v : Value} :
      below.blockAt patience site front = (.ok .finished, u) →
      below.statementAt patience (site.later u) (.return e) = (.ok (.returned v), t) →
        Returns below patience site (front ++ ⟨line, .return e⟩ :: rest) v t
  | within {site site' : Site} {front rest : Block} {line : Nat} {statement : Stmt} {body : Block}
      {u t : Store} {v : Value} :
      below.blockAt patience site front = (.ok .finished, u) →
      below.Enters patience (site.later u) statement body site' →
      Returns below patience site' body v t →
        Returns below patience site (front ++ ⟨line, statement⟩ :: rest) v t

/-- A block returns in one of its statements, behind those that have
finished. -/
theorem blockAt_eq_returned_iff :
    below.blockAt patience site block = (.ok (.returned v), t) ↔
      ∃ front line statement rest u, block = front ++ ⟨line, statement⟩ :: rest ∧
        below.blockAt patience site front = (.ok .finished, u) ∧
        below.statementAt patience (site.later u) statement = (.ok (.returned v), t) := by
  induction block generalizing site with
  | nil =>
    constructor
    · nofun
    · rintro ⟨front, line, statement, rest, u, split, -⟩
      cases front <;> cases split
  | cons first block ih =>
    obtain ⟨line, statement⟩ := first
    rw [blockAt, executeBlock, bind_eq_ok_iff]
    simp only [onLine_eq_ok_iff]
    constructor
    · rintro ⟨flow, u, executed, behind⟩
      cases flow with
      | finished =>
        obtain ⟨front, line', statement', rest, w, rfl, finished, returned⟩ :=
          (@ih (site.later u)).1 behind
        refine ⟨⟨line, statement⟩ :: front, line', statement', rest, w, rfl, ?_, returned⟩
        rw [blockAt, executeBlock, bind_eq_ok_iff]
        exact ⟨.finished, u, onLine_eq_ok_iff.2 executed, finished⟩
      | returned v =>
        cases behind
        exact ⟨[], line, statement, block, site.store, rfl, rfl, executed⟩
    · rintro ⟨_ | ⟨first, front⟩, line', statement', rest, w, split, finished, returned⟩
      · cases split
        cases finished
        exact ⟨.returned v, t, returned, rfl⟩
      · cases split
        rw [blockAt, executeBlock, bind_eq_ok_iff] at finished
        obtain ⟨flow, u, executed, finished⟩ := finished
        cases flow with
        | returned v => cases finished
        | finished =>
          exact ⟨.finished, u, onLine_eq_ok_iff.1 executed, (@ih (site.later u)).2
            ⟨front, line', statement', rest, w, rfl, finished, returned⟩⟩

theorem sizeOf_lt_of_mem {line : Nat} (within : ⟨line, statement⟩ ∈ block) :
    sizeOf statement < sizeOf block := by
  have inside := List.sizeOf_lt_of_mem within
  rw [Located.mk.sizeOf_spec] at inside
  omega

/-- What a statement enters is smaller than the statement. -/
theorem Enters.sizeOf_lt (enters : below.Enters patience site statement body site') :
    sizeOf body < sizeOf statement := by
  cases enters with
  | @arm skipped rest condition body u w skips takes =>
    have inside : sizeOf (condition, body) < sizeOf (skipped ++ (condition, body) :: rest) :=
      List.sizeOf_lt_of_mem (by simp)
    simp only [Prod.mk.sizeOf_spec, Stmt.branch.sizeOf_spec] at inside ⊢
    omega
  | _ =>
    simp only [Stmt.whileLoop.sizeOf_spec, Stmt.forLoop.sizeOf_spec, Stmt.countLoop.sizeOf_spec,
      Stmt.attempt.sizeOf_spec, Option.some.sizeOf_spec]
    omega

-- By induction on the size of the block: the body that its statement has
-- entered is smaller.
theorem returns_of_blockAt (below : Below) (site : Site) {block : Block}
    (returned : below.blockAt patience site block = (.ok (.returned v), t)) :
    below.Returns patience site block v t := by
  obtain ⟨front, line, statement, rest, u, rfl, finished, returned⟩ :=
    blockAt_eq_returned_iff.1 returned
  obtain ⟨e, rfl⟩ | ⟨body, site', enters, inside⟩ := exists_enters_of_returned returned
  · exact .own finished returned
  · have smaller : sizeOf body < sizeOf (front ++ ⟨line, statement⟩ :: rest) :=
      enters.sizeOf_lt.trans (sizeOf_lt_of_mem List.mem_append_cons_self)
    exact .within finished enters (below.returns_of_blockAt _ inside)
termination_by sizeOf block

/-- A block returns by way of `if`, `while`, `for`, `count` and `try` alone. -/
theorem returns_iff :
    below.Returns patience site block v t ↔
      below.blockAt patience site block = (.ok (.returned v), t) := by
  constructor
  · intro returns
    induction returns with
    | own finished returned =>
      exact blockAt_eq_returned_iff.2 ⟨_, _, _, _, _, rfl, finished, returned⟩
    | within finished enters _ inside =>
      exact blockAt_eq_returned_iff.2
        ⟨_, _, _, _, _, rfl, finished, returned_of_enters enters inside⟩
  · exact below.returns_of_blockAt site

-- ==================================================================== text

theorem armsMentionReturn_append {arms arms' : List (Option Expr × Block)} :
    Stmt.armsMentionReturn (arms ++ arms') =
      (Stmt.armsMentionReturn arms || Stmt.armsMentionReturn arms') := by
  induction arms with
  | nil => simp [Stmt.armsMentionReturn]
  | cons arm arms ih => simp [Stmt.armsMentionReturn, ih, Bool.or_assoc]

theorem Enters.mentionsReturn (enters : below.Enters patience site statement body site')
    (mentions : Block.mentionsReturn body = true) : statement.mentionsReturn = true := by
  unfold Block.mentionsReturn at mentions
  cases enters with
  | arm | whileRound | forRound | countRound | handler =>
    simp [Stmt.mentionsReturn, Stmt.armsMentionReturn, armsMentionReturn_append, mentions]
  | @attempt _ handler => cases handler <;> simp [Stmt.mentionsReturn, mentions]

/-- A block mentions `return` if one of its statements does. -/
theorem mentionsReturn_of_mem {line : Nat} (within : ⟨line, statement⟩ ∈ block)
    (mentions : statement.mentionsReturn = true) : Block.mentionsReturn block = true := by
  unfold Block.mentionsReturn
  induction within with
  | head => simp [Stmt.blockMentionsReturn, mentions]
  | tail _ _ ih => simp [Stmt.blockMentionsReturn, ih]

/-- What returns mentions `return`. -/
theorem Returns.mentionsReturn (returns : below.Returns patience site block v t) :
    Block.mentionsReturn block = true := by
  induction returns with
  | own => exact mentionsReturn_of_mem (List.mem_append_cons_self) rfl
  | within _ enters _ inside =>
    exact mentionsReturn_of_mem (List.mem_append_cons_self) (enters.mentionsReturn inside)

end Below

-- ================================================================== tables

namespace Callable

/-- Whether a script defines an overload. -/
def isDefinition (c : Callable) : Bool :=
  match c.body with
  | .script .. => true
  | _ => false

/-- Whether an overload is a definition that mentions `return`. -/
def mayReturn (c : Callable) : Bool :=
  match c.body with
  | .script _ body _ => Block.mentionsReturn body
  | _ => false

end Callable

/-- Those definitions may be called for their value that mention `return`, in
the order in which they can be called at all. -/
def Overloads.Selects (functions procedures : Overloads) : Prop :=
  functions.own.filter Callable.isDefinition = procedures.own.filter Callable.mayReturn ∧
    functions.inherited.filter Callable.isDefinition = procedures.inherited.filter Callable.mayReturn

namespace Overloads.Selects

variable {functions procedures others other : Overloads} {c : Callable}

theorem all (selects : functions.Selects procedures) :
    functions.all.filter Callable.isDefinition = procedures.all.filter Callable.mayReturn := by
  rw [Overloads.all, Overloads.all, List.filter_append, List.filter_append, selects.1, selects.2]

theorem snapshot (selects : functions.Selects procedures) :
    functions.snapshot.Selects procedures.snapshot :=
  ⟨rfl, selects.all⟩

theorem inherit (selects : functions.Selects procedures) (above : others.Selects other) :
    (functions.inherit others).Selects (procedures.inherit other) :=
  ⟨selects.1, above.all⟩

theorem merge (selects : functions.Selects procedures) (base : others.Selects other) :
    (functions.merge others).Selects (procedures.merge other) := by
  refine ⟨?_, selects.2⟩
  simp only [Overloads.merge, List.filter_append, selects.1, base.1]

theorem drop (selects : functions.Selects procedures) (name : String) :
    (functions.drop name).Selects (procedures.drop name) := by
  have swap : ∀ (p : Callable → Bool) (l : List Callable),
      (l.filter (·.name != name)).filter p = (l.filter p).filter (·.name != name) := by
    intro p l
    rw [List.filter_filter, List.filter_filter]
    simp only [Bool.and_comm]
  constructor
  · simp only [Overloads.drop, swap, selects.1]
  · simp only [Overloads.drop, swap, selects.2]

/-- An overload that is no definition may be called in either way. -/
theorem addFunction (selects : functions.Selects procedures) (other : c.isDefinition = false) :
    (functions.add c).Selects procedures := by
  refine ⟨?_, selects.2⟩
  simp [Overloads.add, List.filter_append, selects.1, other]

/-- An overload that does not mention `return` may be called as a
statement only. -/
theorem addProcedure (selects : functions.Selects procedures) (silent : c.mayReturn = false) :
    functions.Selects (procedures.add c) := by
  refine ⟨?_, selects.2⟩
  simp [Overloads.add, List.filter_append, selects.1, silent]

theorem addBoth (selects : functions.Selects procedures) (returns : c.mayReturn = true)
    (definition : c.isDefinition = true) : (functions.add c).Selects (procedures.add c) := by
  refine ⟨?_, selects.2⟩
  simp [Overloads.add, List.filter_append, selects.1, returns, definition]

end Overloads.Selects

/-- In every scope, those definitions may be called for their value that
mention `return`. -/
def Store.Sorted (s : Store) : Prop :=
  ∀ id, (s.scope id).functions.Selects (s.scope id).procedures

namespace Store.Sorted

variable {s : Store}

theorem empty : Store.empty.Sorted := fun id => by
  rw [scope_of_size_le (Nat.zero_le _)]
  exact ⟨rfl, rfl⟩

theorem define (sorted : s.Sorted) (id : ScopeId) (name : String) (params : List String)
    (body : Block) : (s.define id name params body).2.Sorted := by
  intro key
  rcases s.define_cases id name params body with ⟨_, h⟩ | h <;> rw [h]
  · exact sorted key
  dsimp only
  split
  · next mentions =>
    rw [addProcedure, addFunction, modifyScope_modifyScope]
    rcases s.scope_modifyScope_or id _ key with same | ⟨rfl, changed⟩
    · rw [same]
      exact sorted key
    · rw [changed]
      exact (sorted key).addBoth mentions rfl
  · next silent =>
    rw [addProcedure]
    rcases s.scope_modifyScope_or id _ key with same | ⟨rfl, changed⟩
    · rw [same]
      exact sorted key
    · rw [changed]
      exact (sorted key).addProcedure (Bool.not_eq_true _ ▸ silent)

/-- A change that offers no definition that mentions `return` keeps a store
sorted. -/
theorem apply (sorted : s.Sorted) (c : Change)
    (offers : ∀ id d, c = .offer id d → d.mayReturn = false) : (c.apply s).Sorted := by
  by_cases defines : ∃ id name params body, c = .define id name params body
  · obtain ⟨id, name, params, body, rfl⟩ := defines
    exact sorted.define id name params body
  intro key
  have made := c.makes s key
  generalize (c.apply s).scope key = scope at made
  cases made with
  | same | bind | introduce | frame | noted => exact sorted key
  | root => exact ⟨rfl, rfl⟩
  | @child parent => exact (sorted parent).snapshot
  | procedure => exact (sorted key).addProcedure rfl
  | function => exact (sorted key).addFunction rfl
  | define => exact absurd ⟨_, _, _, _, rfl⟩ defines
  | offer => exact (sorted key).addProcedure (offers key _ rfl)
  | drop => exact (sorted key).drop _
  | @merge base => exact (sorted key).merge (sorted base)
  | @inherit id parent => exact (sorted key).inherit (sorted parent)

theorem of_made {allows : Stmt → Bool} {isNew : ScopeId → Prop} {c : Change} (sorted : s.Sorted)
    (made : c.Made allows isNew) : (c.apply s).Sorted := by
  refine sorted.apply c fun id d offers => ?_
  cases made with
  | offerSuper | supply =>
    cases offers
    rfl
  | _ => cases offers

theorem join (sorted : s.Sorted) (target base : ScopeId) :
    ((s.merge target base).noteSuper target).Sorted :=
  (sorted.apply (.merge target base) nofun).apply (.noteSuper target) nofun

end Store.Sorted

/-- The law of sorted tables. -/
def Law.sorted : Law fun _ => true where
  inv := Store.Sorted
  isNew _ := True
  change made _ sorted := sorted.of_made made
  born _ := trivial
  join _ _ _ _ _ _ sorted := sorted.join _ _

theorem Store.Arises.sorted {s : Store} (arises : s.Arises) : s.Sorted :=
  arises.keeps Law.sorted Store.Sorted.empty (fun _ => trivial) fun op _ sorted =>
    sorted.apply (.operation op) nofun

/-- A definition in a table may be called for its value if its body mentions
`return`. -/
theorem Store.Sorted.mem_functions {s : Store} (sorted : s.Sorted) {id : ScopeId} {c : Callable}
    (mem : c ∈ (s.scope id).callables) (returns : c.mayReturn = true) :
    c ∈ (s.scope id).functions.all := by
  rcases List.mem_append.1 mem with procedure | function
  · have chosen : c ∈ (s.scope id).procedures.all.filter Callable.mayReturn :=
      List.mem_filter.2 ⟨procedure, returns⟩
    rw [← (sorted id).all] at chosen
    exact (List.mem_filter.1 chosen).1
  · exact function

-- ================================================================ the result

/-- A call of a definition that never returns ends with no value, and only
if none is wanted. -/
theorem Below.invokeWith_eq_ok {below : Below} {c : Callable} {params : List String} {body : Block}
    {home : ScopeId} (script : c.body = .script params body home)
    (silent : ∀ frame context s v t, below.enter frame body context s ≠ (.ok (.returned v), t))
    {onFrame : ScopeId → Run Unit} {args : List Value} {wanted : Bool} {context : Context}
    {s t : Store} {v : Value}
    (called : below.invokeWith onFrame c args wanted context s = (.ok v, t)) :
    wanted = false ∧ v = .null := by
  simp only [invokeWith, script] at called
  obtain ⟨-, u, -, called⟩ := Run.bind_eq_ok_iff.1 called
  obtain ⟨frame, u, -, called⟩ := Run.bind_eq_ok_iff.1 called
  obtain ⟨-, u, -, called⟩ := Run.bind_eq_ok_iff.1 called
  obtain ⟨-, u, -, called⟩ := Run.bind_eq_ok_iff.1 called
  obtain ⟨flow, w, entered, ended⟩ := Run.bind_eq_ok_iff.1 called
  rw [Run.deeper] at entered
  split at entered
  · cases entered
  cases flow with
  | returned v => exact absurd entered (silent _ _ _ v w)
  | finished =>
    cases wanted with
    | true => cases ended
    | false =>
      cases ended
      exact ⟨rfl, rfl⟩

theorem Run.executeAt_succ (n : Nat) (scope : ScopeId) (block : Block) (context : Context) (s : Store) :
    Run.executeAt (n + 1) scope block context s =
      (Below.upTo n).executeBlock n scope block
        { context with held := [scope] ++ context.held } s :=
  rfl

/-- The runs of a block that end with a value end with a `return` of it. -/
theorem Run.returns_of_executeAt {levels : Nat} {scope : ScopeId} {block : Block}
    {context : Context} {s t : Store} {v : Value}
    (returned : Run.executeAt levels scope block context s = (.ok (.returned v), t)) :
    Block.mentionsReturn block = true := by
  cases levels with
  | zero => cases returned
  | succ n =>
    rw [Run.executeAt_succ] at returned
    have returns := (Below.upTo n).returns_of_blockAt ⟨scope, _, s⟩ returned
    exact returns.mentionsReturn

/-- **Whoever returns has a `return` in the text.** A block that returns does
so by a `return` of its own or one in the branches, loops and attempts that
it has entered; so its text mentions `return`. In all stores that come about,
the definitions that may be called for their value are those that mention
`return`: any that has ever returned a value is among them, and a call of any
other ends without a value, if it may. -/
theorem returns_detected :
    (∀ (below : Below) patience scope block context s v t,
      below.executeBlock patience scope block context s = (.ok (.returned v), t) →
        below.Returns patience ⟨scope, context, s⟩ block v t ∧ Block.mentionsReturn block = true) ∧
    ∀ s : Store, s.Arises → ∀ id,
      (s.scope id).functions.Selects (s.scope id).procedures ∧
      ∀ c ∈ (s.scope id).callables, ∀ params body home, c.body = .script params body home →
        ((∃ levels scope context u v t,
            Run.executeAt levels scope body context u = (.ok (.returned v), t)) →
          c ∈ (s.scope id).functions.all) ∧
        (c ∉ (s.scope id).functions.all →
          ∀ levels onFrame args wanted context u v t,
            (Below.upTo levels).invokeWith onFrame c args wanted context u = (.ok v, t) →
              wanted = false ∧ v = .null) := by
  refine ⟨fun below patience scope block context s v t returned => ?_,
    fun s arises id => ⟨arises.sorted id, fun c mem params body home script => ⟨?_, ?_⟩⟩⟩
  · have returns := below.returns_of_blockAt ⟨scope, context, s⟩ returned
    exact ⟨returns, returns.mentionsReturn⟩
  · rintro ⟨levels, scope, context, u, v, t, returned⟩
    refine arises.sorted.mem_functions mem ?_
    simpa only [Callable.mayReturn, script] using Run.returns_of_executeAt returned
  · intro void levels onFrame args wanted context u v t called
    refine Below.invokeWith_eq_ok script (fun frame context s v t returned => void ?_) called
    refine arises.sorted.mem_functions mem ?_
    simpa only [Callable.mayReturn, script] using Run.returns_of_executeAt returned

/-- A `return` in the handler of an attempt in a loop is seen; a definition
that only calls the one it stands in has no value. -/
theorem handled_return_is_detected :
    let body : Block :=
      [⟨1, .whileLoop (.bool true)
        [⟨2, .attempt [⟨3, .call (.name "missing") []⟩] (some [⟨4, .return (some (.bool true))⟩])⟩]⟩]
    let f := Callable.ofScript "f" [] body ⟨0⟩
    let g := Callable.ofScript "g" [] [⟨6, .call (.name "f") []⟩] ⟨0⟩
    let program : Block := [⟨1, .define "f" [] body⟩, ⟨5, .define "g" [] [⟨6, .call (.name "f") []⟩]⟩]
    let context : Context := ⟨10, 0, [⟨0⟩]⟩
    let s := ((Request.execute ⟨0⟩ program).run 6 context Store.empty.addRoot.2).2
    s.Arises ∧
      (∃ v t, Run.executeAt 4 ⟨0⟩ body context s = (.ok (.returned v), t) ∧
        (Below.upTo 3).Returns 3 ⟨⟨0⟩, ⟨10, 0, [⟨0⟩, ⟨0⟩]⟩, s⟩ body v t ∧
        f ∈ (s.scope ⟨0⟩).functions.all) ∧
      g ∉ (s.scope ⟨0⟩).functions.all ∧
      ∃ v t, (Below.upTo 4).invokeWith (fun _ => pure ()) g [] false context s = (.ok v, t) ∧
        v = .null := by
  intro body f g program context s
  have arises : s.Arises :=
    .hosted (.ask 6 context (.operate (o := .root) .start trivial) trivial)
  have procedures : (s.scope ⟨0⟩).procedures.all = [f, g] := by rfl
  have functions : (s.scope ⟨0⟩).functions.all = [f] := by rfl
  obtain ⟨v, t, returned⟩ :
      ∃ v t, Run.executeAt 4 ⟨0⟩ body context s = (.ok (.returned v), t) :=
    ⟨.boolean true, _, rfl⟩
  have ended : ((Below.upTo 4).invokeWith (fun _ => pure ()) g [] false context s).1.isOk = true := by
    decide +kernel
  obtain ⟨w, u, called⟩ :
      ∃ w u, (Below.upTo 4).invokeWith (fun _ => pure ()) g [] false context s = (.ok w, u) := by
    clear_value s
    generalize (Below.upTo 4).invokeWith (fun _ => pure ()) g [] false context s = outcome at ended
    obtain ⟨_ | w, u⟩ := outcome
    · cases ended
    · exact ⟨w, u, rfl⟩
  clear_value s
  have mem : ∀ c ∈ [f, g], c ∈ (s.scope ⟨0⟩).callables := fun c mem =>
    List.mem_append_left _ (procedures ▸ mem)
  have void : g ∉ (s.scope ⟨0⟩).functions.all := by
    rw [functions, List.mem_singleton]
    exact fun same => absurd (congrArg Callable.name same) (by decide)
  obtain ⟨detected, tables⟩ := returns_detected
  obtain ⟨-, registered⟩ := tables s arises ⟨0⟩
  have valued : f ∈ (s.scope ⟨0⟩).functions.all :=
    (registered f (mem f (by simp)) [] body ⟨0⟩ rfl).1 ⟨4, ⟨0⟩, context, s, v, t, returned⟩
  have silent := (registered g (mem g (by simp)) [] [⟨6, .call (.name "f") []⟩] ⟨0⟩ rfl).2 void
      4 (fun _ => pure ()) [] false context s w u called
  refine ⟨arises, ⟨v, t, returned, ?_, valued⟩, void, w, u, called, silent.2⟩
  rw [Run.executeAt_succ] at returned
  exact (detected (Below.upTo 3) 3 ⟨0⟩ body _ s v t returned).1

end RoutineScript
