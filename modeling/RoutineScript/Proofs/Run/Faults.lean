/-
What expressions and calls fail with.

Faults are raised everywhere and are told their lines in one place: where a
block executes its statements one after the other. Up to there a fault is
underway (`Fault.Underway`). It knows no line, unless it has come up from a
level below, where a block has told it one. What may come up from there is a
parameter: with nothing below, no fault knows its line.

The invariant is that all code in the store stands on certain lines
(`Store.Lined`), since what a run executes next may be found there. The
functions of the host are part of it, for they must leave lines to the script.

Statements are treated in `Proofs/Run/Located.lean`.
-/
import RoutineScript.Proofs.Run.Written
import RoutineScript.Proofs.Source.Causes
import RoutineScript.Proofs.Source.Lines
import RoutineScript.Interpreter

namespace RoutineScript

variable {lines : Nat → Prop} {passed : Fault → Prop}

-- =================================================================== faults

namespace Fault

/-- A fault that has been told one of certain lines. -/
def StandsOn (lines : Nat → Prop) (fault : Fault) : Prop :=
  ∃ line, fault.line = some line ∧ lines line

/-- A fault within a statement: it knows no line yet, or comes from below. -/
def Underway (passed : Fault → Prop) (fault : Fault) : Prop :=
  fault.line = none ∨ passed fault

/-- At its statement, a fault that knows no line is told the statement's. -/
theorem Underway.atLine {fault : Fault} {line : Nat} (underway : fault.Underway (StandsOn lines))
    (stands : lines line) : (fault.atLine line).StandsOn lines := by
  rcases underway with unknown | ⟨known, own, stands⟩
  · exact ⟨line, by simp [line_atLine, unknown], stands⟩
  · exact ⟨known, by simp [line_atLine, own], stands⟩

end Fault

-- ===================================================================== code

/-- Statements that stand on certain lines. Those that could not be read raise
their faults there. -/
def Stmt.AllOn (lines : Nat → Prop) (statements : List (Located Stmt)) : Prop :=
  ∀ s ∈ statements, lines s.line ∧ ∀ fault, s.val = .invalid fault → fault.StandsOn lines

/-- A block whose statements, at every depth, stand on certain lines. -/
abbrev Block.Lined (lines : Nat → Prop) (block : Block) : Prop :=
  Stmt.AllOn lines block.statements

/-- A class whose body and ancestors stand on certain lines. -/
def Class.Lined (lines : Nat → Prop) (c : Class) : Prop :=
  ∀ d ∈ c :: c.ancestors, d.body.Lined lines

theorem Class.lined_iff {c : Class} :
    c.Lined lines ↔ c.body.Lined lines ∧ ∀ q, c.parent = some q → q.Lined lines :=
  Class.forall_ancestors_iff

/-- A function of the host whose faults know no line. -/
def HostFunction.Silent (function : HostFunction) : Prop :=
  ∀ args state, Unlocated (function.run args state).1

/-- All code that a call of an overload executes stands on certain lines. -/
def Callable.Lined (lines : Nat → Prop) (c : Callable) : Prop :=
  match c.body with
  | .host function => function.Silent
  | .script _ body _ => body.Lined lines
  | .super parent _ => parent.Lined lines

/-- All code in a store stands on certain lines. -/
structure Store.Lined (lines : Nat → Prop) (s : Store) : Prop where
  callable : ∀ id, ∀ c ∈ (s.scope id).callables, c.Lined lines
  «class» : ∀ {id name c}, (s.scope id).classes.get? name = some c → c.Lined lines

/-- All code that a change brings into a store stands on certain lines. -/
structure Change.Lined (lines : Nat → Prop) (c : Change) : Prop where
  adds : ∀ {key d}, c.Adds key d → d.Lined lines
  introduces : ∀ {d}, c.Introduces d → d.Lined lines

theorem Store.Lined.apply {s : Store} (lined : s.Lined lines) {c : Change}
    (brings : c.Lined lines) : (c.apply s).Lined lines where
  callable := Change.forall_callable_apply lined.callable c brings.adds
  «class» found := by
    rcases Change.class_of_apply found with ⟨id, before⟩ | introduced
    · exact lined.class before
    · exact brings.introduces introduced

-- --------------------------------------------------------------- operations

theorem Name.failsOnly_check (name : String) : FailsOnly (·.line = none) (check name) := by
  unfold check
  split
  · exact .ok
  · exact .error rfl

namespace Store

theorem elementary_lookup (s : Store) (id : ScopeId) (name : String) :
    Elementary (s.lookup id name) := by
  unfold lookup
  split
  · exact .ok
  · exact .error ⟨rfl, rfl⟩

theorem elementary_member (s : Store) (v : Value) (name : String) :
    Elementary (s.member v name) := by
  have isObject := v.elementary_expectObject
  unfold member
  generalize v.expectObject = result at isObject
  cases isObject with
  | ok => exact s.elementary_lookup _ name
  | error own => exact .error own

theorem elementary_remove (s : Store) (id : ScopeId) (name : String) :
    Elementary (s.remove id name).1 := by
  unfold remove
  dsimp only
  split
  · exact .ok
  · exact .ok
  · exact .error ⟨rfl, rfl⟩

-- Whatever else is refused is refused by the check of names.

theorem failsOnly_declare (s : Store) (id : ScopeId) {name : String}
    (own : FailsOnly passed (Name.check name)) (v : Value) :
    FailsOnly passed (s.declare id name v).1 := by
  unfold declare
  generalize Name.check name = result at own
  cases own with
  | ok => exact .ok
  | error passes => exact .error passes

theorem failsOnly_assign (s : Store) (id : ScopeId) {name : String}
    (own : FailsOnly passed (Name.check name)) (v : Value) :
    FailsOnly passed (s.assign id name v).1 := by
  unfold assign
  split
  · exact .ok
  · exact .ok
  · exact s.failsOnly_declare id own v

theorem failsOnly_checkNames {names : List String}
    (own : ∀ name ∈ names, FailsOnly passed (Name.check name)) :
    FailsOnly passed (checkNames names) := by
  induction names with
  | nil => exact .ok
  | cons name names ih =>
    obtain ⟨first, others⟩ := List.forall_mem_cons.1 own
    unfold checkNames
    generalize Name.check name = result at first
    cases first with
    | ok => exact ih others
    | error passes => exact .error passes

theorem failsOnly_define (s : Store) (id : ScopeId) {name : String} {params : List String}
    (own : ∀ x ∈ name :: params, FailsOnly passed (Name.check x)) (body : Block) :
    FailsOnly passed (s.define id name params body).1 := by
  have checked := failsOnly_checkNames own
  unfold define
  generalize checkNames (name :: params) = result at checked
  cases checked with
  | ok => exact .ok
  | error passes => exact .error passes

end Store

-- ===================================================================== runs

namespace Run

/-- How a run may end. All code in the store stands on certain lines. -/
inductive Ended (lines : Nat → Prop) (raises : Fault → Prop) {α : Type} (post : α → Prop) :
    Except Halt α × Store → Prop where
  | ok {a : α} {t : Store} : t.Lined lines → post a → Ended lines raises post (.ok a, t)
  | fault {fault : Fault} {t : Store} : t.Lined lines → raises fault →
      Ended lines raises post (.error (.fault fault), t)
  | exhausted {t : Store} : t.Lined lines → Ended lines raises post (.error .exhausted, t)

/-- Wherever all code stands on certain lines, a run ends so. -/
def Ends (lines : Nat → Prop) (raises : Fault → Prop) {α : Type} (post : α → Prop)
    (run : Run α) : Prop :=
  ∀ context s, s.Lined lines → Ended lines raises post (run context s)

/-- Any result is fine. -/
abbrev Raises (lines : Nat → Prop) (raises : Fault → Prop) {α : Type} (run : Run α) : Prop :=
  Ends lines raises (fun _ => True) run

variable {raises raises' : Fault → Prop} {α β : Type} {post : α → Prop} {run : Run α}

theorem Ends.mono (ends : Ends lines raises post run) (sub : ∀ fault, raises fault → raises' fault) :
    Ends lines raises' post run := by
  intro context s lined
  have ended := ends context s lined
  generalize run context s = ended at ended
  cases ended with
  | ok lined h => exact .ok lined h
  | fault lined raised => exact .fault lined (sub _ raised)
  | exhausted lined => exact .exhausted lined

/-- A fault that comes up from below is underway. -/
theorem Ends.underway (ends : Ends lines passed post run) :
    Ends lines (Fault.Underway passed) post run :=
  ends.mono fun _ => .inr

theorem ends_pure {a : α} (h : post a) : Ends lines raises post (pure a) :=
  fun _ _ lined => .ok lined h

theorem raises_pure {a : α} : Raises lines raises (pure a) :=
  ends_pure trivial

theorem ends_exhausted : Ends lines raises post (throw .exhausted) :=
  fun _ _ lined => .exhausted lined

theorem ends_bind {P : β → Prop} {run : Run β} {next : β → Run α} (first : Ends lines raises P run)
    (second : ∀ b, P b → Ends lines raises post (next b)) :
    Ends lines raises post (run >>= next) := by
  intro context s lined
  rw [bind_apply]
  have ended := first context s lined
  generalize run context s = ended at ended
  cases ended with
  | ok lined h => exact second _ h context _ lined
  | fault lined raised => exact .fault lined raised
  | exhausted lined => exact .exhausted lined

theorem raises_bind {run : Run β} {next : β → Run α} (first : Raises lines raises run)
    (second : ∀ b, Ends lines raises post (next b)) : Ends lines raises post (run >>= next) :=
  ends_bind first fun b _ => second b

theorem ends_look {f : Store → α} (h : ∀ s, s.Lined lines → post (f s)) :
    Ends lines raises post (look f) :=
  fun _ s lined => .ok lined (h s lined)

theorem raises_look {f : Store → α} : Raises lines raises (look f) :=
  ends_look fun _ _ => trivial

theorem ends_fail {fault : Fault} (unknown : fault.line = none) :
    Ends lines (Fault.Underway passed) post (fail fault : Run α) :=
  fun _ _ lined => .fault lined (.inl unknown)

theorem ends_ofResult {result : Except Fault α} (reads : Reads post result) :
    Ends lines (Fault.Underway passed) post (ofResult result) := by
  cases reads with
  | ok h => exact ends_pure h
  | refused unknown => exact ends_fail unknown

theorem raises_lookUp {f : Store → Except Fault α} (elementary : ∀ s, Elementary (f s)) :
    Raises lines (Fault.Underway passed) (lookUp f) :=
  ends_bind (ends_look fun s _ => (elementary s).unlocated) fun _ => ends_ofResult

-- ------------------------------------------------------------------ changes

/-- A change that is never refused. -/
theorem raises_change {f : Store → Store} (c : Change) (brings : c.Lined lines)
    (applies : ∀ s, f s = c.apply s) : Raises lines raises (change f) :=
  fun _ s lined => .ok (applies s ▸ lined.apply brings) trivial

/-- A change that may be refused. -/
theorem raises_attempt {f : Store → Except Fault α × Store} (c : Store → Change)
    (brings : ∀ s, (c s).Lined lines) (applies : ∀ s, (f s).2 = (c s).apply s)
    (fails : ∀ s, FailsOnly (·.line = none) (f s).1) :
    Raises lines (Fault.Underway passed) (attempt f) := by
  intro context s lined
  have lined' := lined.apply (brings s)
  have refused := fails s
  rw [← applies] at lined'
  unfold attempt
  generalize f s = outcome at lined' refused
  obtain ⟨result, t⟩ := outcome
  cases refused with
  | ok => exact .ok lined' trivial
  | error unknown => exact .fault lined' (.inl unknown)

theorem raises_newChild (parent : ScopeId) : Raises lines raises (newChild parent) :=
  fun _ _ lined => .ok (lined.apply (c := .operation (.child parent)) ⟨nofun, False.elim⟩) trivial

-- ------------------------------------------------------- around other runs

theorem ends_holding {ids : List ScopeId} (ends : Ends lines raises post run) :
    Ends lines raises post (holding ids run) :=
  fun _ s lined => ends _ s lined

theorem ends_apart (ends : Ends lines raises post run) : Ends lines raises post (apart run) :=
  fun _ s lined => ends _ s lined

theorem ends_deeper (ends : Ends lines (Fault.Underway passed) post run) :
    Ends lines (Fault.Underway passed) post (deeper run) := by
  intro context s lined
  unfold deeper
  split
  · exact .fault lined (.inl rfl)
  · exact ends _ s lined

theorem raises_requireLive (id : ScopeId) (name : String) :
    Raises lines (Fault.Underway passed) (requireLive id name) := by
  intro context s lined
  unfold requireLive
  split
  · exact .ok lined trivial
  · exact .fault lined (.inl rfl)

/-- What a run raises knows its line afterwards. -/
theorem ends_onLine {there : Nat → Prop} {line : Nat} (stands : there line)
    (ends : Ends lines (Fault.Underway (Fault.StandsOn there)) post run) :
    Ends lines (Fault.StandsOn there) post (onLine line run) := by
  intro context s lined
  unfold onLine
  have ended := ends context s lined
  generalize run context s = ended at ended
  cases ended with
  | ok lined h => exact .ok lined h
  | fault lined underway => exact .fault lined (underway.atLine stands)
  | exhausted lined => exact .exhausted lined

/-- What a run raises is handled, so it does not matter. -/
theorem ends_handling {handler : Run α} (ends : Ends lines raises' post run)
    (handled : Ends lines raises post handler) :
    Ends lines raises post (handling run handler) := by
  intro context s lined
  unfold handling
  have ended := ends context s lined
  generalize run context s = ended at ended
  cases ended with
  | ok lined h => exact .ok lined h
  | fault lined => exact handled context _ lined
  | exhausted lined => exact .exhausted lined

end Run

/-- What runs one level below, and the faults that come up from there. -/
structure Below.Passes (lines : Nat → Prop) (passed : Fault → Prop) (below : Below) : Prop where
  enter : ∀ scope (block : Block), block.Lined lines →
    Run.Raises lines (Fault.Underway passed) (below.enter scope block)
  construct : ∀ c args, c.Lined lines →
    Run.Raises lines (Fault.Underway passed) (below.construct c args)

namespace Below

open Run

variable {below : Below}

-- ==================================================================== calls

theorem raises_declare (id : ScopeId) (name : String) (v : Value) :
    Raises lines (Fault.Underway passed) (attempt (·.declare id name v)) :=
  raises_attempt (fun _ => .operation (.declare id name v)) (fun _ => ⟨nofun, False.elim⟩)
    (fun _ => rfl) fun s => s.failsOnly_declare id (Name.failsOnly_check name) v

theorem raises_bindParams {frame : ScopeId} {params : List String} {args : List Value} :
    Raises lines (Fault.Underway passed) (bindParams frame params args) := by
  induction params generalizing args with
  | nil => exact raises_pure
  | cons param params ih =>
    cases args with
    | nil => exact raises_pure
    | cons arg args => exact raises_bind (raises_declare frame param arg) fun _ => ih

theorem raises_outcome {name : String} {wanted : Bool} {flow : Flow} :
    Raises lines (Fault.Underway passed) (outcome name wanted flow) := by
  cases flow with
  | returned v => exact raises_pure
  | finished =>
    cases wanted
    · exact raises_pure
    · exact ends_fail rfl

/-- What a function of the host fails with knows no line. -/
theorem raises_callHost {function : HostFunction} (silent : function.Silent) (args : List Value) :
    Raises lines (Fault.Underway passed) (attempt (·.callHost function args)) :=
  raises_attempt (fun s => .host (function.run args s.host).2) (fun _ => ⟨nofun, nofun⟩)
    (fun _ => rfl) fun s => (silent args s.host).failsOnly

variable (passes : below.Passes lines passed)

include passes

theorem raises_invokeWith {onFrame : ScopeId → Run Unit} {c : Callable} {args : List Value}
    {wanted : Bool} (frames : ∀ frame, Raises lines (Fault.Underway passed) (onFrame frame))
    (lined : c.Lined lines) :
    Raises lines (Fault.Underway passed) (below.invokeWith onFrame c args wanted) := by
  unfold invokeWith
  unfold Callable.Lined at lined
  split
  · next function body =>
    rw [body] at lined
    exact raises_callHost lined args
  · next params block home body =>
    rw [body] at lined
    refine raises_bind (raises_requireLive home _) fun _ => ?_
    refine raises_bind (raises_newChild home) fun frame => ?_
    refine raises_bind raises_bindParams fun _ => ?_
    refine raises_bind (frames frame) fun _ => ?_
    exact raises_bind (ends_deeper (passes.enter frame block lined)) fun _ => raises_outcome
  · next parent target body =>
    rw [body] at lined
    refine raises_bind (raises_requireLive target _) fun _ => ?_
    refine raises_bind (ends_holding (ends_deeper (passes.construct parent args lined)))
      fun base => ?_
    refine raises_bind (raises_change (.merge target base.scope) ⟨nofun, nofun⟩ fun _ => rfl)
      fun _ => ?_
    exact raises_bind (raises_change (.noteSuper target) ⟨nofun, nofun⟩ fun _ => rfl)
      fun _ => raises_pure

theorem raises_invoke {c : Callable} {args : List Value} {wanted : Bool} (lined : c.Lined lines) :
    Raises lines (Fault.Underway passed) (below.invoke c args wanted) :=
  raises_invokeWith passes (fun _ => raises_pure) lined

theorem raises_dispatch {name : String} {candidates : List Callable} {args : List Value}
    {wanted : Bool} (lined : ∀ c ∈ candidates, c.Lined lines) :
    Raises lines (Fault.Underway passed) (below.dispatch name candidates args wanted) := by
  unfold dispatch
  split
  · exact ends_fail rfl
  · split
    · next c selected => exact raises_invoke passes (lined c (List.mem_of_find?_eq_some selected))
    · exact ends_fail rfl

theorem raises_callProcedure {scope : ScopeId} {name : String} {args : List Value} :
    Raises lines (Fault.Underway passed) (below.callProcedure scope name args) := by
  refine ends_bind (ends_look fun s lined c mem => ?_) fun _ => raises_dispatch passes
  exact lined.callable scope c (Scope.mem_callables_of_named mem)

theorem raises_callFunction {scope : ScopeId} {name : String} {args : List Value} :
    Raises lines (Fault.Underway passed) (below.callFunction scope name args) := by
  refine ends_bind (P := fun candidates => ∀ c ∈ candidates, c.Lined lines)
    (ends_look fun s lined c mem => ?_) fun functions lined => ?_
  · exact lined.callable scope c (Scope.mem_callables_of_function mem)
  · refine raises_bind raises_look fun procedures => ?_
    split
    · exact ends_fail rfl
    · exact raises_dispatch passes lined

omit passes in
theorem ends_findClass {scope : ScopeId} {name : String} :
    Ends lines (Fault.Underway passed) (·.Lined lines) (findClass scope name) := by
  refine ends_bind (P := fun found => ∀ c, found = some c → c.Lined lines)
    (ends_look fun s lined c found => lined.class found) fun found lined => ?_
  cases found with
  | none => exact ends_fail rfl
  | some c => exact ends_pure (lined c rfl)

theorem raises_instantiate {scope : ScopeId} {className : String} {args : List Value} :
    Raises lines (Fault.Underway passed) (below.instantiate scope className args) :=
  ends_bind ends_findClass fun c lined => ends_deeper (passes.construct c args lined)

-- ============================================================== expressions

omit passes in
mutual

theorem raises_evaluate (passes : below.Passes lines passed) (scope : ScopeId) (e : Expr) :
    Raises lines (Fault.Underway passed) (below.evaluate scope e) := by
  unfold evaluate
  cases e with
  | number | string | bool | null => exact raises_pure
  | list items => exact raises_bind (raises_evaluateAll passes scope items) fun _ => raises_pure
  | name x => exact raises_lookUp fun s => s.elementary_lookup scope x
  | call f args =>
    refine raises_bind (raises_evaluateAll passes scope args) fun vs => ?_
    exact ends_holding (raises_callFunction passes)
  | member object m =>
    refine raises_bind (raises_evaluate passes scope object) fun v => ?_
    exact raises_lookUp fun s => s.elementary_member v m
  | methodCall object m args =>
    refine raises_bind (raises_evaluate passes scope object) fun v => ?_
    refine raises_bind (ends_ofResult v.elementary_expectObject.unlocated) fun o => ?_
    refine ends_holding (raises_bind (raises_evaluateAll passes scope args) fun vs => ?_)
    exact ends_holding (raises_callFunction passes)
  | index target position =>
    refine raises_bind (raises_evaluate passes scope target) fun t => ?_
    refine raises_bind (ends_holding (raises_evaluate passes scope position)) fun p => ?_
    exact ends_ofResult (Value.elementary_index t p).unlocated
  | new c args =>
    refine raises_bind (raises_evaluateAll passes scope args) fun vs => ?_
    exact raises_bind (ends_holding (raises_instantiate passes)) fun _ => raises_pure
  | unary op operand =>
    refine raises_bind (raises_evaluate passes scope operand) fun v => ?_
    exact ends_ofResult (Value.elementary_unary op v).unlocated
  | binary op left right =>
    refine raises_bind (raises_evaluate passes scope left) fun l => ?_
    split
    · refine raises_bind (ends_ofResult l.elementary_expectBool.unlocated) fun b => ?_
      split
      · exact raises_pure
      · refine raises_bind (raises_evaluate passes scope right) fun r => ?_
        exact raises_bind (ends_ofResult r.elementary_expectBool.unlocated) fun _ => raises_pure
    · refine raises_bind (ends_holding (raises_evaluate passes scope right)) fun r => ?_
      exact ends_ofResult (Value.elementary_binary op l r).unlocated

theorem raises_evaluateAll (passes : below.Passes lines passed) (scope : ScopeId)
    (es : List Expr) : Raises lines (Fault.Underway passed) (below.evaluateAll scope es) := by
  unfold evaluateAll
  cases es with
  | nil => exact raises_pure
  | cons e rest =>
    refine raises_bind (raises_evaluate passes scope e) fun v => ?_
    exact raises_bind (ends_holding (raises_evaluateAll passes scope rest)) fun _ => raises_pure

end

-- =================================================================== places

theorem raises_readPlace (scope : ScopeId) (place : Place) :
    Raises lines (Fault.Underway passed) (below.readPlace scope place) := by
  cases place with
  | name x => exact raises_lookUp fun s => s.elementary_lookup scope x
  | member object m =>
    refine raises_bind (raises_evaluate passes scope object) fun v => ?_
    exact raises_lookUp fun s => s.elementary_member v m

theorem raises_evaluateObject (scope : ScopeId) (e : Expr) :
    Raises lines (Fault.Underway passed) (below.evaluateObject scope e) :=
  raises_bind (raises_evaluate passes scope e) fun v => ends_ofResult v.elementary_expectObject.unlocated

theorem raises_evaluateNumber (scope : ScopeId) (e : Expr) :
    Raises lines (Fault.Underway passed) (below.evaluateNumber scope e) :=
  raises_bind (raises_evaluate passes scope e) fun v => ends_ofResult v.elementary_expectNumber.unlocated

theorem raises_evaluateBool (scope : ScopeId) (e : Expr) :
    Raises lines (Fault.Underway passed) (below.evaluateBool scope e) :=
  raises_bind (raises_evaluate passes scope e) fun v => ends_ofResult v.elementary_expectBool.unlocated

theorem raises_assignPlace (scope : ScopeId) (v : Value) (place : Place) :
    Raises lines (Fault.Underway passed) (below.assignPlace scope v place) := by
  have assigns : ∀ id name, Raises lines (Fault.Underway passed) (attempt (·.assign id name v)) :=
    fun id name => raises_attempt (fun _ => .operation (.assign id name v))
      (fun _ => ⟨nofun, False.elim⟩) (fun _ => rfl) fun s => s.failsOnly_assign id (Name.failsOnly_check name) v
  cases place with
  | name x => exact assigns scope x
  | member object m =>
    exact raises_bind (ends_holding (raises_evaluateObject passes scope object))
      fun o => assigns o.scope m

theorem raises_deletePlace (scope : ScopeId) (place : Place) :
    Raises lines (Fault.Underway passed) (below.deletePlace scope place) := by
  have removes : ∀ id name, Raises lines (Fault.Underway passed) (attempt (·.remove id name)) :=
    fun id name => raises_attempt (fun _ => .operation (.remove id name))
      (fun _ => ⟨nofun, False.elim⟩) (fun _ => rfl) fun s => (s.elementary_remove id name).mono fun _ => And.left
  cases place with
  | name x => exact raises_bind (removes scope x) fun _ => raises_pure
  | member object m =>
    refine raises_bind (raises_evaluateObject passes scope object) fun o => ?_
    exact raises_bind (removes o.scope m) fun _ => raises_pure

theorem raises_combine (scope : ScopeId) (place : Place) (op : BinaryOp) (e : Expr) :
    Raises lines (Fault.Underway passed) (below.combine scope place op e) := by
  refine raises_bind (raises_readPlace passes scope place) fun current => ?_
  refine raises_bind (ends_holding (raises_evaluate passes scope e)) fun operand => ?_
  refine raises_bind (ends_ofResult (Value.elementary_binary op current operand).unlocated)
    fun updated => ?_
  exact ends_holding (raises_assignPlace passes scope updated place)

theorem raises_callStatement (scope : ScopeId) (callee : Callee) (args : List Expr) :
    Raises lines (Fault.Underway passed) (below.callStatement scope callee args) := by
  refine raises_bind (raises_evaluateAll passes scope args) fun vs => ends_holding ?_
  cases callee with
  | name f => exact raises_bind (raises_callProcedure passes) fun _ => raises_pure
  | method object m =>
    refine raises_bind (raises_evaluateObject passes scope object) fun o => ?_
    exact raises_bind (ends_holding (raises_callProcedure passes)) fun _ => raises_pure

theorem ends_resolveClass (scope : ScopeId) (e : Expr) :
    Ends lines (Fault.Underway passed) (·.Lined lines) (below.resolveClass scope e) := by
  cases e with
  | name c => exact ends_findClass
  | member object c =>
    exact raises_bind (raises_evaluateObject passes scope object) fun _ => ends_findClass
  | _ => exact ends_fail rfl

end Below

end RoutineScript
