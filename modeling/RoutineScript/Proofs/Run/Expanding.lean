/-
What a combining assignment is short for.

`p op= e` does what its expansion `p = p op e` does, step by step: the place is
read, the operand is evaluated while the old value is kept alive, the two are
combined (`Below.Combines`), and the place is assigned. `p++` is `p += 1`, but
wants a number before it does anything else.

# What is kept alive

The assignment of a member evaluates its object once more. Then the operands of
`p op= e` are still kept alive, those of the expansion are not. Mostly this
makes no difference: an expression that calls and constructs nothing does not
heed it, numbers keep nothing alive, and joined lists keep alive themselves
what both lists held. What is left is a text that has been joined with a value
that holds an object (`Combination.Lingers`): the object is alive a little
longer than in the expansion, and what is called meanwhile may need it.
-/
import RoutineScript.Proofs.Printing.Instruction
import RoutineScript.Proofs.Reading.Arithmetic
import RoutineScript.Proofs.Run.Keeping

namespace RoutineScript

-- ================================================================= operands

namespace Value

variable {op : BinaryOp} {v w new : Value}

theorem objectsIn_append (xs ys : List Value) :
    objectsIn (xs ++ ys) = objectsIn xs ++ objectsIn ys := by
  induction xs with
  | nil => rfl
  | cons x xs ih => rw [List.cons_append, objectsIn, objectsIn, ih, List.append_assoc]

/-- What operands keep alive is kept by what is made of them, unless they are
joined to a text. -/
theorem kept_of_binary (arithmetic : op.isArithmetic = true) (made : binary op v w = .ok new) :
    (∀ id ∈ kept [v, w], id ∈ kept [new]) ∨ op = .add ∧ ∃ text, new = .string text := by
  cases op with
  | add =>
    unfold binary at made
    dsimp only at made
    split at made
    · exact .inl nofun
    · cases made
      exact .inr ⟨rfl, _, rfl⟩
    · cases made
      exact .inr ⟨rfl, _, rfl⟩
    · cases made
      refine .inl fun id mem => ?_
      simpa only [kept, objectsIn, objects, objectsIn_append, List.append_nil] using mem
    · cases made
  | sub | mul | div | mod =>
    unfold binary at made
    dsimp only at made
    split at made
    · exact .inl nofun
    · cases made
  | and | or | ge | le | gt | lt | eq | ne | concat => cases arithmetic

end Value

namespace Below

open Run

variable {below : Below} {patience : Nat} {scope : ScopeId} {place : Place} {op : BinaryOp}
  {e : Expr}

/-- A place is read as the expression is that it is written like. -/
theorem readPlace_eq_evaluate (below : Below) (scope : ScopeId) (place : Place) :
    below.readPlace scope place = below.evaluate scope place.expr := by
  cases place <;> simp only [readPlace, Place.expr, evaluate]

/-- The old value of a place, and the value of an operand next to it. -/
def operands (below : Below) (scope : ScopeId) (place : Place) (e : Expr) : Run (Value × Value) := do
  let current ← below.readPlace scope place
  let operand ← holdingValues [current] (below.evaluate scope e)
  return (current, operand)

/-- Assigns a place, and is done. -/
def put (below : Below) (scope : ScopeId) (place : Place) (v : Value) (meanwhile : List Value) :
    Run Flow := do
  holdingValues meanwhile (below.assignPlace scope v place)
  return .finished

theorem execute_compound_eq :
    below.execute patience scope (.compound place op e) = (do
      let (current, operand) ← below.operands scope place e
      let new ← ofResult (Value.binary op current operand)
      below.put scope place new [current, operand]) := by
  simp only [execute, combine, operands, put, bind_assoc, pure_bind]

theorem execute_expansion_eq (plain : op.settledBy? = none) :
    below.execute patience scope (.assign place (.binary op place.expr e)) = (do
      let (current, operand) ← below.operands scope place e
      let new ← ofResult (Value.binary op current operand)
      below.put scope place new []) := by
  simp only [execute, evaluate, plain, operands, put, readPlace_eq_evaluate, bind_assoc, pure_bind]
  rfl

/-- A place is assigned alike, whatever is kept alive meanwhile, if the value or
the context keeps it anyway, or if the place calls and constructs nothing. -/
theorem put_eq {levels : Nat} {context : Context} {s : Store} {v : Value} {meanwhile : List Value}
    (harmless : place.expr.isQuiet = true ∨
      ∀ id ∈ Value.kept meanwhile, id ∈ Value.kept [v] ∨ id ∈ context.held) :
    (Below.upTo levels).put scope place v meanwhile context s =
      (Below.upTo levels).put scope place v [] context s := by
  change (Below.upTo levels).put scope place v []
    { context with held := Value.kept meanwhile ++ context.held } s = _
  refine bind_of_heedless ?_ fun _ => looks_pure.heedless
  cases place with
  | name x => rfl
  | member object m =>
    refine bind_of_heedless ?_ fun _ _ _ _ => rfl
    rcases harmless with quiet | kept
    · rw [Place.expr, Expr.isQuiet] at quiet
      exact (looks_holding (looks_evaluateObject quiet)).heedless _ _ s
    · refine evaluateObject_alike object ⟨rfl, rfl, fun id => ?_⟩
      have kept := kept id
      simp only [List.mem_append]
      tauto

end Below

-- ============================================================= combinations

/-- What a combining assignment has at hand when only the assignment is left. -/
structure Combination where
  current : Value
  operand : Value
  new : Value
  /-- The store by then. -/
  ready : Store

/-- The operands have been evaluated and combined. -/
structure Below.Combines (below : Below) (scope : ScopeId) (place : Place) (op : BinaryOp) (e : Expr)
    (context : Context) (s : Store) (c : Combination) : Prop where
  evaluated : below.operands scope place e context s = (.ok (c.current, c.operand), c.ready)
  made : Value.binary op c.current c.operand = .ok c.new

/-- A text has been joined with an object that nobody else works with, and it
may matter how long it lives: something is called or constructed to find the
place once more. -/
structure Combination.Lingers (c : Combination) (place : Place) (op : BinaryOp)
    (context : Context) : Prop where
  calls : place.expr.isQuiet = false
  adds : op = .add
  joined : ∃ text, c.new = .string text
  object : ∃ id ∈ Value.kept [c.current, c.operand], id ∉ context.held

/-- How a combining assignment ends next to its expansion: alike, unless an
object lingers, and then by the same assignment from the same store, with the
operands kept alive and without them. -/
inductive Below.Expands (below : Below) (scope : ScopeId) (place : Place) (op : BinaryOp) (e : Expr)
    (context : Context) (s : Store) : Except Halt Flow × Store → Except Halt Flow × Store → Prop where
  | alike {ended : Except Halt Flow × Store} : Expands below scope place op e context s ended ended
  | lingering {c : Combination} : below.Combines scope place op e context s c →
      c.Lingers place op context →
      Expands below scope place op e context s
        (below.put scope place c.new [c.current, c.operand] context c.ready)
        (below.put scope place c.new [] context c.ready)

namespace Below

open Run

variable {levels patience : Nat} {scope : ScopeId} {place : Place} {op : BinaryOp} {e : Expr}
  {delta : Float} {context : Context} {s t : Store} {v : Value}

/-- Nothing lingers for a place that calls and constructs nothing. -/
theorem Expands.eq_of_isQuiet {below : Below} {ended ended' : Except Halt Flow × Store}
    (expands : below.Expands scope place op e context s ended ended')
    (quiet : place.expr.isQuiet = true) : ended = ended' := by
  cases expands with
  | alike => rfl
  | lingering _ lingers => exact absurd quiet (Bool.eq_false_iff.1 lingers.calls)

theorem execute_compound_expands (arithmetic : op.isArithmetic = true) :
    (Below.upTo levels).Expands scope place op e context s
      ((Below.upTo levels).execute patience scope (.compound place op e) context s)
      ((Below.upTo levels).execute patience scope (.assign place (.binary op place.expr e))
        context s) := by
  have plain : op.settledBy? = none := by
    cases op <;> first | rfl | cases arithmetic
  rw [execute_compound_eq, execute_expansion_eq plain, bind_apply, bind_apply]
  cases evaluated : (Below.upTo levels).operands scope place e context s with
  | mk result ready =>
  cases result with
  | error halt => exact .alike
  | ok both =>
  obtain ⟨current, operand⟩ := both
  dsimp only
  cases made : Value.binary op current operand with
  | error fault => exact .alike
  | ok new =>
  let c : Combination := ⟨current, operand, new, ready⟩
  by_cases lingers : c.Lingers place op context
  · exact .lingering (c := c) ⟨evaluated, made⟩ lingers
  · have harmless : place.expr.isQuiet = true ∨
        ∀ id ∈ Value.kept [current, operand], id ∈ Value.kept [new] ∨ id ∈ context.held := by
      by_cases quiet : place.expr.isQuiet = true
      · exact .inl quiet
      · refine .inr fun id mem => ?_
        rcases Value.kept_of_binary arithmetic made with kept | ⟨adds, joined⟩
        · exact .inl (kept id mem)
        · refine .inr (Decidable.byContradiction fun unheld => lingers ?_)
          exact ⟨Bool.eq_false_of_not_eq_true quiet, adds, joined, id, mem, unheld⟩
    change Expands _ scope place op e context s
      ((Below.upTo levels).put scope place new [current, operand] context ready) _
    rw [put_eq harmless]
    exact .alike

/-- A step ends as the combining assignment that adds its number, unless the
old value is of another kind. -/
theorem execute_step_of_number
    (number : ∀ v t, (Below.upTo levels).readPlace scope place context s = (.ok v, t) →
      v.kind = .number) :
    (Below.upTo levels).execute patience scope (.step place delta) context s =
      (Below.upTo levels).execute patience scope (.compound place .add (.number delta))
        context s := by
  rw [execute_compound_eq]
  simp only [execute, operands, bind_assoc, pure_bind]
  rw [bind_apply, bind_apply]
  cases read : (Below.upTo levels).readPlace scope place context s with
  | mk result t =>
  cases result with
  | error halt => rfl
  | ok v =>
    have number := number v t read
    cases v with
    | number x =>
      -- Two numbers keep nothing alive.
      change (Below.upTo levels).put scope place (.number (x + delta)) [] context t =
        (Below.upTo levels).put scope place (.number (x + delta)) [.number x, .number delta] context t
      exact (put_eq (.inr fun id mem => absurd mem List.not_mem_nil)).symm
    | boolean | string | list | null | object => cases number

/-- Then it fails before it assigns anything. -/
theorem execute_step_of_other
    (read : (Below.upTo levels).readPlace scope place context s = (.ok v, t))
    (other : v.kind ≠ .number) :
    (Below.upTo levels).execute patience scope (.step place delta) context s =
      (.error (.fault (Cause.wrongKind .number v.kind)), t) := by
  simp only [execute]
  rw [bind_apply, read]
  cases v with
  | number x => exact absurd rfl other
  | boolean | string | list | null | object => rfl

-- ================================================================ the result

/-- **A combining assignment does what its expansion does.** For every place
and every arithmetic operator, the combining assignment and the assignment that
it is short for end alike, with the same fault, if any, and in the same store.
The one exception is a text that is joined with a value holding an object: when
something is called or constructed to find the place once more, the combining
assignment still keeps the object alive, and the expansion does not. But then,
too, both have done the same up to the assignment, and assign the same value.

A step does what the combining assignment does that adds its number, if the
place cannot be read or holds a number; otherwise it fails with a mismatch of
kinds, and the store is as it was after reading. -/
theorem compound_expands (levels patience : Nat) (scope : ScopeId) (place : Place) {op : BinaryOp}
    (arithmetic : op.isArithmetic = true) (e : Expr) (delta : Float) (context : Context)
    (s : Store) :
    let run := fun statement => (Below.upTo levels).execute patience scope statement context s
    (Below.upTo levels).Expands scope place op e context s
        (run (.compound place op e)) (run (.assign place (.binary op place.expr e))) ∧
      match (Below.upTo levels).readPlace scope place context s with
      | (.ok v, t) =>
        run (.step place delta) =
          if v.kind = .number then run (.compound place .add (.number delta))
          else (.error (.fault (Cause.wrongKind .number v.kind)), t)
      | (.error _, _) => run (.step place delta) = run (.compound place .add (.number delta)) := by
  intro run
  refine ⟨execute_compound_expands arithmetic, ?_⟩
  split
  · next v t read =>
    split
    · next number =>
      refine execute_step_of_number fun w u again => ?_
      cases read.symm.trans again
      exact number
    · next other => exact execute_step_of_other read other
  · next halt t stopped =>
    refine execute_step_of_number fun w u again => ?_
    cases stopped.symm.trans again

/-- A text is added to the one that an object holds. -/
theorem compound_expands_of_text :
    let program : Block :=
      [⟨1, .declareClass "A" none [⟨1, .assign (.name "s") (.string "a")⟩]⟩,
        ⟨2, .assign (.name "p") (.new "A" [])⟩]
    let s := ((Request.execute ⟨0⟩ program).run 6 ⟨10, 0, [⟨0⟩]⟩ Store.empty.addRoot.2).2
    let place : Place := .member (.name "p") "s"
    let run := fun statement => (Below.upTo 6).execute 6 ⟨0⟩ statement ⟨10, 0, [⟨0⟩]⟩ s
    BinaryOp.add.isArithmetic = true ∧
      run (.compound place .add (.string "b")) =
        run (.assign place (.binary .add place.expr (.string "b"))) ∧
      (run (.compound place .add (.string "b"))).2.lookup ⟨1⟩ "s" = .ok (.string "ab") := by
  intro program s place run
  have arithmetic : BinaryOp.add.isArithmetic = true := rfl
  obtain ⟨same, -⟩ :=
    compound_expands 6 6 ⟨0⟩ place arithmetic (.string "b") 1 ⟨10, 0, [⟨0⟩]⟩ s
  have seen : (run (.compound place .add (.string "b"))).2.slot? ⟨1⟩ "s" = some ⟨2⟩ := by
    decide +kernel
  exact ⟨arithmetic, same.eq_of_isQuiet rfl, Store.lookup_string seen (by decide +kernel)⟩

/-- While a text is joined, an object lingers that is needed to find the place
once more: the class of another object is at home in it. The expansion has
dropped the object by then. -/
theorem compound_outlives_expansion :
    let pick : Block :=
      [⟨8, .branch [(some (.name "late"), [⟨8, .assign (.name "n") (.new "Sub" [])⟩])]⟩,
        ⟨8, .return (some (.name "a"))⟩]
    let leave : Block :=
      [⟨9, .assign (.name "late") (.bool true)⟩, ⟨9, .assign (.name "r") (.name "g")⟩,
        ⟨9, .assign (.name "g") .null⟩, ⟨9, .return (some (.name "r"))⟩]
    let program : Block :=
      [⟨1, .declareClass "Out" none [⟨1, .declareClass "In" none []⟩]⟩,
        ⟨2, .assign (.name "g") (.new "Out" [])⟩,
        ⟨3, .declareClass "Sub" (some (.member (.name "g") "In")) []⟩,
        ⟨4, .declareClass "A" none [⟨4, .assign (.name "s") (.string "")⟩]⟩,
        ⟨5, .assign (.name "a") (.new "A" [])⟩, ⟨6, .assign (.name "late") (.bool false)⟩,
        ⟨8, .define "pick" [] pick⟩, ⟨9, .define "leave" [] leave⟩]
    let s := ((Request.execute ⟨0⟩ program).run 12 ⟨10, 0, [⟨0⟩]⟩ Store.empty.addRoot.2).2
    let place : Place := .member (.call "pick" []) "s"
    let run := fun statement => (Below.upTo 12).execute 12 ⟨0⟩ statement ⟨10, 0, [⟨0⟩]⟩ s
    (run (.compound place .add (.call "leave" []))).1.toOption.isSome = true ∧
      (run (.assign place (.binary .add place.expr (.call "leave" [])))).1 =
        .error (.fault ⟨.notFound "In", some 8⟩) := by
  intro pick leave program s place run
  exact ⟨by decide +kernel, eq_error_of_fault? (by decide +kernel)⟩

end Below

end RoutineScript
