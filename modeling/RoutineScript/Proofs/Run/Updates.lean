/-
What it does to update a member: `p.m += e`, `p.m++` and the like.

# Two evaluations

Such a statement is short for one that reads the member, combines its value
with another one and sets the member. So the expression of the object is
evaluated twice: for the object that the old value is read from, and, when the
new value is known, for the object that gets it (`Below.Updates`). In between
the other operand is evaluated. An expression that calls something may have
another object ready the second time, and one that constructs an object always
has.

# When it is one object

An expression without calls and constructions is quiet: it leaves the store as
it is, and what it ends with depends on the variables only that are there
(`Run.Quiet`). So both evaluations of a quiet expression find the same object,
unless the evaluation of the other operand changes a variable (`Store.Shows`).
-/
import RoutineScript.Proofs.Run.Members

namespace RoutineScript

open Mentions (within)

-- ==================================================================== quiet

mutual

/-- Nothing is called or constructed in an expression. -/
def Expr.isQuiet : Expr → Bool
  | .number _ | .string _ | .bool _ | .null | .name _ => true
  | .list items => allQuiet items
  | .member e _ | .unary _ e => e.isQuiet
  | .index e e' | .binary _ e e' => e.isQuiet && e'.isQuiet
  | .call .. | .methodCall .. | .new .. => false

/-- Nothing is called or constructed in any of some expressions. -/
def Expr.allQuiet : List Expr → Bool
  | [] => true
  | e :: rest => e.isQuiet && allQuiet rest

end

namespace Store

/-- Every variable that can be seen in a store has the same value in another
one. -/
def Shows (s t : Store) : Prop :=
  ∀ key name, key.index < s.scopes.size → t.get? key name = s.get? key name

variable {s t : Store}

theorem Shows.refl (s : Store) : s.Shows s := fun _ _ _ => rfl

theorem Shows.lookup (shows : s.Shows t) {id : ScopeId} (inStore : id.index < s.scopes.size)
    (name : String) : t.lookup id name = s.lookup id name := by
  rw [Store.lookup, Store.lookup, shows id name inStore]

theorem Shows.member (shows : s.Shows t) {v : Value} (known : within {o | o.index < s.scopes.size} v)
    (name : String) : t.member v name = s.member v name := by
  unfold Store.member
  cases found : v.expectObject with
  | error fault => rfl
  | ok o => exact shows.lookup (within_expectObject known found) name

end Store

namespace Run

variable {α β : Type} [Mentions α] {s : Store}

/-- A run leaves the store as it is, and ends alike in all stores that show
what `s` does. If it ends with objects, these are in `s`. -/
def Quiet (s : Store) (run : Run α) : Prop :=
  ∃ result, (∀ context t, s.Shows t → run context t = (result, t)) ∧
    ∀ a, result = .ok a → within {o | o.index < s.scopes.size} a

theorem quiet_pure {a : α} (known : within {o | o.index < s.scopes.size} a) :
    Quiet s (pure a) := by
  refine ⟨.ok a, fun _ _ _ => rfl, fun b eq => ?_⟩
  cases eq
  exact known

theorem quiet_fail (fault : Fault) : Quiet s (fail fault : Run α) :=
  ⟨.error (.fault fault), fun _ _ _ => rfl, nofun⟩

theorem quiet_ofResult {result : Except Fault α}
    (known : ∀ a, result = .ok a → within {o | o.index < s.scopes.size} a) :
    Quiet s (ofResult result) := by
  cases result with
  | ok a => exact quiet_pure (known a rfl)
  | error fault => exact quiet_fail fault

theorem quiet_bind [Mentions β] {run : Run β} {next : β → Run α} (first : Quiet s run)
    (second : ∀ b, within {o | o.index < s.scopes.size} b → Quiet s (next b)) :
    Quiet s (run >>= next) := by
  obtain ⟨result, ends, known⟩ := first
  cases result with
  | error halt =>
    refine ⟨.error halt, fun context t shows => ?_, nofun⟩
    rw [bind_apply, ends context t shows]
  | ok b =>
    obtain ⟨result, ends', known'⟩ := second b (known b rfl)
    refine ⟨result, fun context t shows => ?_, known'⟩
    rw [bind_apply, ends context t shows]
    exact ends' context t shows

/-- To look something up is quiet if it is there to be seen. -/
theorem quiet_lookUp {f : Store → Except Fault α} (agrees : ∀ t, s.Shows t → f t = f s)
    (known : ∀ a, f s = .ok a → within {o | o.index < s.scopes.size} a) :
    Quiet s (lookUp f) := by
  obtain ⟨result, ends, known⟩ := quiet_ofResult known
  refine ⟨result, fun context t shows => ?_, known⟩
  have looked : lookUp f context t = ofResult (f t) context t := by
    rw [lookUp, bind_apply]
    rfl
  rw [looked, agrees t shows]
  exact ends context t shows

theorem quiet_holding {ids : List ScopeId} {run : Run α} (quiet : Quiet s run) :
    Quiet s (holding ids run) := by
  obtain ⟨result, ends, known⟩ := quiet
  exact ⟨result, fun context t shows => ends _ t shows, known⟩

end Run

namespace Below

open Run

variable {below : Below} {scope : ScopeId} {s : Store}

mutual

/-- A quiet expression is evaluated quietly. -/
theorem quiet_evaluate (known : s.KnowsOwn) (inStore : scope.index < s.scopes.size) (e : Expr)
    (quiet : e.isQuiet = true) : Quiet s (below.evaluate scope e) := by
  unfold evaluate
  cases e with
  | number x => exact quiet_pure (within_number x)
  | string text => exact quiet_pure (within_string text)
  | bool b => exact quiet_pure (within_boolean b)
  | null => exact quiet_pure within_null
  | list items =>
    refine quiet_bind (quiet_evaluateAll known inStore items ?_) fun vs inside => ?_
    · rwa [Expr.isQuiet] at quiet
    · exact quiet_pure (within_list.2 inside)
  | name x =>
    exact quiet_lookUp (fun t shows => shows.lookup inStore x) fun v eq => known.lookup eq
  | member object m =>
    refine quiet_bind (quiet_evaluate known inStore object ?_) fun v inside => ?_
    · rwa [Expr.isQuiet] at quiet
    · exact quiet_lookUp (fun t shows => shows.member inside m) fun w eq => known.member eq
  | index target position =>
    rw [Expr.isQuiet, Bool.and_eq_true] at quiet
    refine quiet_bind (quiet_evaluate known inStore target quiet.1) fun v inside => ?_
    refine quiet_bind (quiet_holding (quiet_evaluate known inStore position quiet.2)) fun p _ => ?_
    exact quiet_ofResult fun w eq => within_index inside eq
  | unary op operand =>
    refine quiet_bind (quiet_evaluate known inStore operand ?_) fun v _ => ?_
    · rwa [Expr.isQuiet] at quiet
    · exact quiet_ofResult fun w eq => within_unary eq
  | binary op left right =>
    rw [Expr.isQuiet, Bool.and_eq_true] at quiet
    refine quiet_bind (quiet_evaluate known inStore left quiet.1) fun l inside => ?_
    split
    · refine quiet_bind (quiet_ofResult fun _ _ => trivial) fun b _ => ?_
      split
      · exact quiet_pure (within_boolean b)
      · refine quiet_bind (quiet_evaluate known inStore right quiet.2) fun r _ => ?_
        refine quiet_bind (quiet_ofResult fun _ _ => trivial) fun b _ => ?_
        exact quiet_pure (within_boolean b)
    · refine quiet_bind (quiet_holding (quiet_evaluate known inStore right quiet.2))
        fun r inside' => ?_
      exact quiet_ofResult fun w eq => within_binary inside inside' eq
  | call | methodCall | new => cases quiet

theorem quiet_evaluateAll (known : s.KnowsOwn) (inStore : scope.index < s.scopes.size)
    (es : List Expr) (quiet : Expr.allQuiet es = true) :
    Quiet s (below.evaluateAll scope es) := by
  unfold evaluateAll
  cases es with
  | nil => exact quiet_pure nofun
  | cons e rest =>
    rw [Expr.allQuiet, Bool.and_eq_true] at quiet
    refine quiet_bind (quiet_evaluate known inStore e quiet.1) fun v inside => ?_
    refine quiet_bind (quiet_holding (quiet_evaluateAll known inStore rest quiet.2))
      fun vs inside' => quiet_pure fun w mem => ?_
    rcases List.mem_cons.1 mem with rfl | mem
    · exact inside
    · exact inside' w mem

end

/-- So is the object that it evaluates to. -/
theorem quiet_evaluateObject (known : s.KnowsOwn) (inStore : scope.index < s.scopes.size)
    {e : Expr} (quiet : e.isQuiet = true) : Quiet s (below.evaluateObject scope e) :=
  quiet_bind (quiet_evaluate known inStore e quiet) fun _ inside =>
    quiet_ofResult fun _ eq => within_expectObject inside eq

end Below

-- ================================================================== updates

/-- What happens to a member that is updated. -/
structure Update where
  /-- The object that the old value is read from, and the store meanwhile. -/
  source : Object
  opened : Store
  old : Value
  new : Value
  /-- The store when the new value is known, and what is kept alive then. -/
  ready : Store
  kept : List Value
  /-- The object that gets the new value, and the store when it is found. -/
  target : Object
  found : Store

/-- To update a member is to evaluate its object for the old value, and to
evaluate it again for where to put the new one. -/
structure Below.Updates (below : Below) (scope : ScopeId) (object : Expr) (m : String)
    (context : Context) (s : Store) (update : Update) (t : Store) : Prop where
  reads : below.evaluateObject scope object context s = (.ok update.source, update.opened)
  old : update.opened.lookup update.source.scope m = .ok update.old
  finds : Run.holdingValues update.kept (below.evaluateObject scope object) context update.ready =
    (.ok update.target, update.found)
  writes : update.found.assign update.target.scope m update.new = (.ok (), t)

namespace Run

variable {α : Type} {context : Context} {s t : Store} {a : α}

theorem ofResult_eq_ok_iff {result : Except Fault α} :
    ofResult result context s = (.ok a, t) ↔ result = .ok a ∧ s = t := by
  cases result with
  | ok b =>
    constructor
    · intro eq
      cases eq
      exact ⟨rfl, rfl⟩
    · rintro ⟨same, rfl⟩
      cases same
      rfl
  | error fault =>
    constructor
    · nofun
    · rintro ⟨same, -⟩
      cases same

theorem lookUp_eq_ok_iff {f : Store → Except Fault α} :
    lookUp f context s = (.ok a, t) ↔ f s = .ok a ∧ s = t := by
  have looked : lookUp f context s = ofResult (f s) context s := by
    rw [lookUp, bind_apply]
    rfl
  rw [looked, ofResult_eq_ok_iff]

/-- What is kept alive meanwhile adds up. -/
theorem holdingValues_cons (v : Value) (vs : List Value) (run : Run α) :
    holdingValues (v :: vs) run context s =
      holdingValues [v] run { context with held := Value.kept vs ++ context.held } s := by
  simp only [holdingValues, holding, Value.kept, Value.objectsIn, List.append_nil,
    List.append_assoc]

end Run

theorem Store.member_eq_ok_iff {s : Store} {v w : Value} {m : String} :
    s.member v m = .ok w ↔ ∃ o, v.expectObject = .ok o ∧ s.lookup o.scope m = .ok w := by
  unfold member
  cases v.expectObject with
  | error fault => simp
  | ok o => simp

namespace Below

open Run

variable {below : Below} {scope : ScopeId} {context : Context} {s t : Store} {object : Expr}
  {m : String} {patience : Nat} {flow : Flow}

theorem evaluateObject_eq_ok_iff {o : Object} :
    below.evaluateObject scope object context s = (.ok o, t) ↔
      ∃ v, below.evaluate scope object context s = (.ok v, t) ∧ v.expectObject = .ok o := by
  simp only [evaluateObject, bind_eq_ok_iff, ofResult_eq_ok_iff]
  constructor
  · rintro ⟨v, u, evaluated, isObject, rfl⟩
    exact ⟨v, evaluated, isObject⟩
  · rintro ⟨v, evaluated, isObject⟩
    exact ⟨v, t, evaluated, isObject, rfl⟩

/-- To read a member is to find its object, and the value there. -/
theorem readPlace_member_eq_ok_iff {v : Value} :
    below.readPlace scope (.member object m) context s = (.ok v, t) ↔
      ∃ o, below.evaluateObject scope object context s = (.ok o, t) ∧
        t.lookup o.scope m = .ok v := by
  simp only [readPlace, bind_eq_ok_iff, lookUp_eq_ok_iff, Store.member_eq_ok_iff,
    evaluateObject_eq_ok_iff]
  constructor
  · rintro ⟨w, u, evaluated, ⟨o, isObject, seen⟩, rfl⟩
    exact ⟨o, ⟨w, evaluated, isObject⟩, seen⟩
  · rintro ⟨o, ⟨w, evaluated, isObject⟩, seen⟩
    exact ⟨w, t, evaluated, ⟨o, isObject, seen⟩, rfl⟩

/-- A combining assignment succeeds just when the old value can be read, the
operand can be combined with it, and the result can be put where the object is
found then. -/
theorem execute_compound_member_eq_ok_iff {op : BinaryOp} {e : Expr} :
    below.execute patience scope (.compound (.member object m) op e) context s = (.ok flow, t) ↔
      flow = .finished ∧ ∃ update operand, below.Updates scope object m context s update t ∧
        holdingValues [update.old] (below.evaluate scope e) context update.opened =
          (.ok operand, update.ready) ∧
        Value.binary op update.old operand = .ok update.new ∧
        update.kept = [update.new, update.old, operand] := by
  simp only [execute, combine, bind_eq_ok_iff, ofResult_eq_ok_iff, readPlace_member_eq_ok_iff]
  constructor
  · rintro ⟨⟨⟩, _, ⟨old, opened, ⟨source, reads, isOld⟩, operand, ready, evaluated, new, _,
      ⟨made, rfl⟩, assigned⟩, ended⟩
    cases ended
    obtain ⟨target, found, finds, writes⟩ := assignPlace_member_eq_ok_iff.1 assigned
    rw [← holdingValues_cons] at finds
    exact ⟨rfl, ⟨source, opened, old, new, ready, _, target, found⟩, operand,
      ⟨reads, isOld, finds, writes⟩, evaluated, made, rfl⟩
  · rintro ⟨rfl, update, operand, ⟨reads, isOld, finds, writes⟩, evaluated, made, kept⟩
    rw [kept, holdingValues_cons] at finds
    exact ⟨(), t, ⟨update.old, update.opened, ⟨update.source, reads, isOld⟩, operand, update.ready,
      evaluated, update.new, update.ready, ⟨made, rfl⟩,
      assignPlace_member_eq_ok_iff.2 ⟨update.target, update.found, finds, writes⟩⟩, rfl⟩

theorem expectNumber_eq_ok_iff {v : Value} {x : Float} :
    v.expectNumber = .ok x ↔ v = .number x := by
  cases v <;> simp [Value.expectNumber]

/-- A step succeeds just when the old value is a number and the next one can
be put where the object is found then. -/
theorem execute_step_member_eq_ok_iff {delta : Float} :
    below.execute patience scope (.step (.member object m) delta) context s = (.ok flow, t) ↔
      flow = .finished ∧ ∃ update x, below.Updates scope object m context s update t ∧
        update.ready = update.opened ∧ update.old = .number x ∧
        update.new = .number (x + delta) ∧ update.kept = [update.new] := by
  simp only [execute, bind_eq_ok_iff, ofResult_eq_ok_iff, readPlace_member_eq_ok_iff,
    expectNumber_eq_ok_iff]
  constructor
  · rintro ⟨old, opened, ⟨source, reads, isOld⟩, x, _, ⟨isNumber, rfl⟩, ⟨⟩, _, assigned, ended⟩
    cases ended
    obtain ⟨target, found, finds, writes⟩ := assignPlace_member_eq_ok_iff.1 assigned
    exact ⟨rfl, ⟨source, opened, old, _, opened, _, target, found⟩, x,
      ⟨reads, isOld, finds, writes⟩, rfl, isNumber, rfl, rfl⟩
  · rintro ⟨rfl, update, x, ⟨reads, isOld, finds, writes⟩, ready, old, new, kept⟩
    rw [kept, ready, new] at finds
    rw [new] at writes
    exact ⟨update.old, update.opened, ⟨update.source, reads, isOld⟩, x, update.opened, ⟨old, rfl⟩,
      (), t, assignPlace_member_eq_ok_iff.2 ⟨update.target, update.found, finds, writes⟩, rfl⟩

end Below

-- ================================================================= statements

/-- The object and the member that a statement updates. -/
def Stmt.updated? : Stmt → Option (Expr × String)
  | .compound (.member object m) _ _ | .step (.member object m) _ => some (object, m)
  | _ => none

/-- What the old value is combined with, if that is still to be evaluated. -/
def Stmt.operand? : Stmt → Option Expr
  | .compound _ _ e => some e
  | _ => none

/-- How the new value comes about. -/
inductive Below.Renews (below : Below) (scope : ScopeId) (context : Context) (update : Update) :
    Stmt → Prop where
  | compound {place : Place} {op : BinaryOp} {e : Expr} {operand : Value} :
      Run.holdingValues [update.old] (below.evaluate scope e) context update.opened =
        (.ok operand, update.ready) →
      Value.binary op update.old operand = .ok update.new →
      update.kept = [update.new, update.old, operand] →
      Renews below scope context update (.compound place op e)
  | step {place : Place} {delta x : Float} : update.ready = update.opened →
      update.old = .number x → update.new = .number (x + delta) → update.kept = [update.new] →
      Renews below scope context update (.step place delta)

namespace Below

variable {below : Below} {scope : ScopeId} {context : Context} {s t : Store} {object : Expr}
  {m : String} {patience : Nat} {flow : Flow} {statement : Stmt} {update : Update}

/-- A statement that updates a member succeeds just when the member is
updated. -/
theorem execute_update_eq_ok_iff (isUpdate : statement.updated? = some (object, m)) :
    below.execute patience scope statement context s = (.ok flow, t) ↔
      flow = .finished ∧ ∃ update, below.Updates scope object m context s update t ∧
        below.Renews scope context update statement := by
  unfold Stmt.updated? at isUpdate
  split at isUpdate
  · cases isUpdate
    rw [execute_compound_member_eq_ok_iff]
    refine and_congr_right fun _ => exists_congr fun update => ?_
    constructor
    · rintro ⟨operand, updates, evaluated, made, kept⟩
      exact ⟨updates, .compound evaluated made kept⟩
    · rintro ⟨updates, renews⟩
      cases renews with
      | compound evaluated made kept => exact ⟨_, updates, evaluated, made, kept⟩
  · cases isUpdate
    rw [execute_step_member_eq_ok_iff]
    refine and_congr_right fun _ => exists_congr fun update => ?_
    constructor
    · rintro ⟨x, updates, ready, old, new, kept⟩
      exact ⟨updates, .step ready old new kept⟩
    · rintro ⟨updates, renews⟩
      cases renews with
      | step ready old new kept => exact ⟨_, updates, ready, old, new, kept⟩
  · cases isUpdate

/-- When the new value is known, the store is regular still. -/
theorem Renews.regular {levels : Nat}
    (renews : (Below.upTo levels).Renews scope context update statement)
    (regular : update.opened.Regular) : update.ready.Regular := by
  cases renews with
  | compound evaluated => exact regular.evaluate evaluated
  | step ready => exact ready ▸ regular

/-- A quiet operand changes nothing. -/
theorem Renews.ready_eq (renews : below.Renews scope context update statement)
    (known : update.opened.KnowsOwn) (inStore : scope.index < update.opened.scopes.size)
    (quiet : ∀ e, statement.operand? = some e → e.isQuiet = true) :
    update.ready = update.opened := by
  cases renews with
  | @compound place op e operand evaluated =>
    have quiet : Run.Quiet update.opened (below.evaluate scope e) :=
      quiet_evaluate known inStore e (quiet e rfl)
    obtain ⟨result, ends, -⟩ := quiet
    have same := ends { context with held := Value.kept [update.old] ++ context.held } _ (.refl _)
    exact congrArg Prod.snd (evaluated.symm.trans same)
  | step ready => exact ready

/-- A quiet expression finds one object, unless the operand has changed a
variable. -/
theorem Updates.target_eq (updates : below.Updates scope object m context s update t)
    (known : s.KnowsOwn) (inStore : scope.index < s.scopes.size) (quiet : object.isQuiet = true) :
    update.opened = s ∧
      (s.Shows update.ready → update.target = update.source ∧ update.found = update.ready) := by
  have quiet : Run.Quiet s (below.evaluateObject scope object) :=
    quiet_evaluateObject known inStore quiet
  obtain ⟨result, ends, -⟩ := quiet
  obtain ⟨isResult, opened⟩ := Prod.mk.inj (updates.reads.symm.trans (ends context s (.refl s)))
  refine ⟨opened, fun shows => ?_⟩
  have finds := ends { context with held := Value.kept update.kept ++ context.held } _ shows
  obtain ⟨isTarget, found⟩ := Prod.mk.inj (updates.finds.symm.trans finds)
  exact ⟨Except.ok.inj (isTarget.trans isResult.symm), found⟩

end Below

-- ================================================================= the result

/-- **A member is updated where its object is found the second time.** A
statement that does so, and succeeds, has evaluated the expression of the
object before the old value was read, and again when the new value was known.
The new value is put under the name of the member into the object that was
found then, which reads it from there; and unless this object has just
borrowed the name, no other variable, of this or any other object, is changed
by that. If the expression is quiet, and evaluating the operand has changed no
variable (as when that is quiet, too, or when there is none), it is the object
that the old value was read from. -/
theorem Store.Regular.update_member {s t : Store} (regular : s.Regular) {levels patience : Nat}
    {scope : ScopeId} {context : Context} {statement : Stmt} {object : Expr} {m : String}
    {flow : Flow} (isUpdate : statement.updated? = some (object, m))
    (executed : (Below.upTo levels).execute patience scope statement context s = (.ok flow, t)) :
    ∃ update, (Below.upTo levels).Updates scope object m context s update t ∧
      (Below.upTo levels).Renews scope context update statement ∧
      t.lookup update.target.scope m = .ok update.new ∧
      (¬ update.found.Borrows update.target.scope m →
        update.found.Sets update.target.scope m update.new t) ∧
      (object.isQuiet = true → scope.index < s.scopes.size →
        (s.Shows update.ready ∨ ∀ e, statement.operand? = some e → e.isQuiet = true) →
        update.opened = s ∧ update.found = update.ready ∧ update.target = update.source) := by
  obtain ⟨-, update, updates, renews⟩ := (Below.execute_update_eq_ok_iff isUpdate).1 executed
  have ready := renews.regular (regular.evaluateObject updates.reads).1
  obtain ⟨found, inStore⟩ := ready.evaluateObject updates.finds
  have tidy := found.arises.tidy
  have done := congrArg Prod.fst updates.writes
  have read := lookup_assign tidy inStore done
  have sets := sets_assign tidy inStore done
  rw [updates.writes] at read sets
  refine ⟨update, updates, renews, read, sets, fun quiet inStore operand => ?_⟩
  obtain ⟨opened, same⟩ := updates.target_eq regular.knows inStore quiet
  have shows : s.Shows update.ready := by
    refine operand.elim id fun quiet => ?_
    rw [renews.ready_eq (opened ▸ regular.knows) (opened ▸ inStore) quiet, opened]
    exact .refl s
  exact ⟨opened, (same shows).2, (same shows).1⟩

/-- What an object says to be the text of its member. -/
theorem Store.lookup_string {s : Store} {id : ScopeId} {name : String} {slot : SlotId}
    {text : String} (seen : s.slot? id name = some slot)
    (value : (s.value slot).equals (.string text) = true) :
    s.lookup id name = .ok (.string text) := by
  rw [lookup_of_slot? seen]
  cases h : s.value slot with
  | string other =>
    rw [h, Value.equals, beq_iff_eq] at value
    rw [value]
  | number | boolean | list | null | object =>
    rw [h] at value
    simp [Value.equals] at value

/-- A text is added to the one that an object holds. -/
theorem Store.Regular.update_member_of_text :
    let program : Block :=
      [⟨1, .declareClass "A" none [⟨1, .assign (.name "s") (.string "a")⟩]⟩,
        ⟨2, .assign (.name "p") (.new "A" [])⟩]
    let s := ((Request.execute ⟨0⟩ program).run 6 ⟨10, 0, [⟨0⟩]⟩ Store.empty.addRoot.2).2
    let statement : Stmt := .compound (.member (.name "p") "s") .add (.string "b")
    let run := (Below.upTo 6).execute 6 ⟨0⟩ statement ⟨10, 0, [⟨0⟩]⟩ s
    s.Regular ∧ run.2.lookup ⟨1⟩ "s" = .ok (.string "ab") ∧
      ∃ update, (Below.upTo 6).Updates ⟨0⟩ (.name "p") "s" ⟨10, 0, [⟨0⟩]⟩ s update run.2 ∧
        run.2.lookup update.target.scope "s" = .ok update.new ∧ update.target = update.source := by
  intro program s statement run
  have regular : s.Regular := Store.regular_of_program 6 program ⟨10, 0, [⟨0⟩]⟩
  have ended : run.1.toOption.isSome = true := by decide +kernel
  obtain ⟨flow, executed⟩ : ∃ flow, run = (.ok flow, run.2) := Run.exists_ok ended
  have isUpdate : statement.updated? = some (.name "p", "s") := rfl
  obtain ⟨update, updates, -, read, -, same⟩ := regular.update_member isUpdate executed
  obtain ⟨-, -, one⟩ := same rfl (by decide +kernel) (.inr fun e operand => by
    cases operand
    rfl)
  have seen : run.2.slot? ⟨1⟩ "s" = some ⟨2⟩ := by decide +kernel
  exact ⟨regular, lookup_string seen (by decide +kernel), update, updates, read, one⟩

/-- The expression of the object evaluates to `p` first and to `q` afterwards:
the value of `p` is combined, and `q` gets the result. -/
theorem update_member_switches :
    let pick : Block :=
      [⟨6, .branch [(some (.name "first"),
          [⟨7, .assign (.name "first") (.bool false)⟩, ⟨8, .return (some (.name "p"))⟩])]⟩,
        ⟨9, .return (some (.name "q"))⟩]
    let program : Block :=
      [⟨1, .declareClass "A" none [⟨1, .assign (.name "s") (.string "a")⟩]⟩,
        ⟨2, .assign (.name "p") (.new "A" [])⟩, ⟨3, .assign (.name "q") (.new "A" [])⟩,
        ⟨4, .assign (.member (.name "q") "s") (.string "q")⟩,
        ⟨5, .assign (.name "first") (.bool true)⟩, ⟨6, .define "pick" [] pick⟩]
    let s := ((Request.execute ⟨0⟩ program).run 8 ⟨10, 0, [⟨0⟩]⟩ Store.empty.addRoot.2).2
    let run := (Below.upTo 8).execute 8 ⟨0⟩
      (.compound (.member (.call "pick" []) "s") .add (.string "b")) ⟨10, 0, [⟨0⟩]⟩ s
    s.lookup ⟨1⟩ "s" = .ok (.string "a") ∧ s.lookup ⟨3⟩ "s" = .ok (.string "q") ∧
      run.1.toOption.isSome = true ∧
      run.2.lookup ⟨1⟩ "s" = .ok (.string "a") ∧ run.2.lookup ⟨3⟩ "s" = .ok (.string "ab") := by
  intro pick program s run
  have ofP : s.slot? ⟨1⟩ "s" = some ⟨0⟩ ∧ run.2.slot? ⟨1⟩ "s" = some ⟨0⟩ := by decide +kernel
  have ofQ : s.slot? ⟨3⟩ "s" = some ⟨4⟩ ∧ run.2.slot? ⟨3⟩ "s" = some ⟨6⟩ := by decide +kernel
  refine ⟨?_, ?_, by decide +kernel, ?_, ?_⟩
  · exact Store.lookup_string ofP.1 (by decide +kernel)
  · exact Store.lookup_string ofQ.1 (by decide +kernel)
  · exact Store.lookup_string ofP.2 (by decide +kernel)
  · exact Store.lookup_string ofQ.2 (by decide +kernel)

end RoutineScript
