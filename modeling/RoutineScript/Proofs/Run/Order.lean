/-
What runs may fail with, if that is said of their code.

An `Order` says which faults may pass, and which statements never end. It
passes all faults that do not refuse a name, on whatever lines. Code is orderly
if what it fails with itself may pass: with the names that it binds, if the
check refuses them, and with the faults of what could not be read. In a store,
functions of the host have to be orderly as well.

Names that are refused are not bound. So an orderly store is one in which all
names are legal, too; and if every fault may pass, all code is orderly, and
that is what is left.

# The argument

Every way to make a run leads from orderly stores to orderly stores, and to
faults that may pass. This module follows calls and expressions, and what is
below a call is a parameter (`Below.Decent`). Statements are treated in
`Proofs/Run/Orderly.lean`.
-/
import RoutineScript.Proofs.Run.Hanging
import RoutineScript.Proofs.Run.Naming
import RoutineScript.Proofs.Source.Identifiers

namespace RoutineScript

-- =================================================================== orders

/-- Which faults may pass, and which statements never end. -/
structure Order where
  passes : Fault → Prop
  hangs : Stmt → Bool
  other : ∀ {fault : Fault}, fault.isNaming = false → passes fault
  atLine : ∀ {fault : Fault} (line : Nat), passes fault → passes (fault.atLine line)

/-- Nothing is forbidden, and nothing hangs. -/
def Order.any : Order where
  passes _ := True
  hangs _ := false
  other _ := trivial
  atLine _ _ := trivial

variable {order : Order}

theorem Nameless.passes {α : Type} {result : Except Fault α} (nameless : Nameless result) :
    FailsOnly order.passes result :=
  nameless.mono fun _ => order.other

theorem Elementary.passes {α : Type} {result : Except Fault α} (elementary : Elementary result) :
    FailsOnly order.passes result :=
  elementary.nameless.passes

-- ===================================================================== code

/-- A name that may be bound or, if not, may be refused. -/
def Order.Tolerates (order : Order) (name : String) : Prop :=
  FailsOnly order.passes (Name.check name)

theorem Order.tolerates_of_check {name : String} (legal : Name.check name = .ok ()) :
    order.Tolerates name := by
  rw [Order.Tolerates, legal]
  exact .ok

/-- What a statement that ends fails with itself may pass. -/
structure Stmt.Orderly (order : Order) (statement : Stmt) : Prop where
  binds : ∀ name ∈ statement.binds, order.Tolerates name
  invalid : order.hangs statement = false → ∀ fault, statement = .invalid fault →
    order.passes fault

/-- Statements that are orderly. -/
def Stmt.AllOrderly (order : Order) (statements : List (Located Stmt)) : Prop :=
  ∀ s ∈ statements, s.val.Orderly order

/-- A block whose statements, at every depth, are orderly. -/
abbrev Block.Orderly (order : Order) (block : Block) : Prop :=
  Stmt.AllOrderly order block.statements

theorem Stmt.allOrderly_append {front back : List (Located Stmt)} :
    AllOrderly order (front ++ back) ↔ AllOrderly order front ∧ AllOrderly order back :=
  List.forall_mem_append

/-- A block is orderly if its first statement is, and what is within that one,
and the rest. -/
theorem Block.orderly_cons {line : Nat} {statement : Stmt} {rest : Block} :
    Block.Orderly order (⟨line, statement⟩ :: rest) ↔
      statement.Orderly order ∧ Stmt.AllOrderly order statement.within ∧ rest.Orderly order := by
  rw [Block.Orderly, Block.statements, Stmt.blockStatements, Stmt.AllOrderly,
    List.forall_mem_cons, ← Stmt.AllOrderly, Stmt.allOrderly_append]

/-- A class whose body and ancestors are orderly. -/
def Class.Orderly (order : Order) (c : Class) : Prop :=
  ∀ d ∈ c :: c.ancestors, d.body.Orderly order

theorem Class.orderly_iff {c : Class} :
    c.Orderly order ↔ c.body.Orderly order ∧ ∀ q, c.parent = some q → q.Orderly order :=
  Class.forall_ancestors_iff

/-- What a function of the host fails with may pass. -/
def HostFunction.Orderly (order : Order) (function : HostFunction) : Prop :=
  ∀ args state, FailsOnly order.passes (function.run args state).1

/-- All code that a call of an overload executes is orderly. -/
def Callable.Orderly (order : Order) (c : Callable) : Prop :=
  match c.body with
  | .host function => function.Orderly order
  | .script params body _ => (∀ x ∈ params, order.Tolerates x) ∧ body.Orderly order
  | .super parent _ => parent.Orderly order

/-- All names in a store are legal, and all its code is orderly. -/
structure Store.Orderly (order : Order) (s : Store) : Prop where
  legal : s.Legal
  callable : ∀ id, ∀ c ∈ (s.scope id).callables, c.Orderly order
  «class» : ∀ {id name c}, (s.scope id).classes.get? name = some c → c.Orderly order

/-- What a change brings into a store is orderly. -/
structure Change.Orderly (order : Order) (c : Change) : Prop where
  legal : c.Legal
  adds : ∀ {key d}, c.Adds key d → d.Orderly order
  introduces : ∀ {d}, c.Introduces d → d.Orderly order

theorem Store.Orderly.apply {s : Store} (orderly : s.Orderly order) {c : Change}
    (brings : c.Orderly order) : (c.apply s).Orderly order where
  legal := orderly.legal.apply brings.legal
  callable := Change.forall_callable_apply orderly.callable c brings.adds
  «class» found := by
    rcases Change.class_of_apply found with ⟨id, before⟩ | introduced
    · exact orderly.class before
    · exact brings.introduces introduced

-- ------------------------------------------------------------- all may pass

theorem Order.any_tolerates (name : String) : any.Tolerates name :=
  failsOnly_of_forall (fun _ => trivial) _

/-- If all faults may pass, all code is orderly. -/
theorem Block.orderly_any (block : Block) : block.Orderly .any :=
  fun _ _ => ⟨fun name _ => Order.any_tolerates name, fun _ _ _ => trivial⟩

theorem Class.orderly_any (c : Class) : c.Orderly .any :=
  fun d _ => d.body.orderly_any

theorem Callable.orderly_any (c : Callable) : c.Orderly .any := by
  unfold Callable.Orderly
  split
  · exact fun args state => failsOnly_of_forall (fun _ => trivial) _
  · next body _ _ => exact ⟨fun x _ => Order.any_tolerates x, Block.orderly_any _⟩
  · next parent _ _ => exact parent.orderly_any

theorem Store.orderly_any_iff {s : Store} : s.Orderly .any ↔ s.Legal :=
  ⟨Store.Orderly.legal, fun legal =>
    ⟨legal, fun _ c _ => c.orderly_any, fun {_ _ c} _ => c.orderly_any⟩⟩

-- ===================================================================== runs

namespace Run

/-- How a run may end: in an orderly store, and if with a fault, with one that
may pass. -/
inductive Behaved (order : Order) {α : Type} (post : α → Prop) : Except Halt α × Store → Prop where
  | ok {a : α} {t : Store} : t.Orderly order → post a → Behaved order post (.ok a, t)
  | fault {fault : Fault} {t : Store} : t.Orderly order → order.passes fault →
      Behaved order post (.error (.fault fault), t)
  | exhausted {t : Store} : t.Orderly order → Behaved order post (.error .exhausted, t)

/-- Wherever the store is orderly, a run ends so. -/
def Behaves (order : Order) {α : Type} (post : α → Prop) (run : Run α) : Prop :=
  ∀ context s, s.Orderly order → Behaved order post (run context s)

/-- Any result is fine. -/
abbrev Decent (order : Order) {α : Type} (run : Run α) : Prop :=
  Behaves order (fun _ => True) run

variable {α β : Type} {post : α → Prop} {run : Run α}

theorem behaves_pure {a : α} (h : post a) : Behaves order post (pure a) :=
  fun _ _ orderly => .ok orderly h

theorem decent_pure {a : α} : Decent order (pure a) :=
  behaves_pure trivial

theorem behaves_exhausted : Behaves order post (throw .exhausted) :=
  fun _ _ orderly => .exhausted orderly

theorem behaves_fail {fault : Fault} (passes : order.passes fault) :
    Behaves order post (fail fault : Run α) :=
  fun _ _ orderly => .fault orderly passes

theorem behaves_bind {P : β → Prop} {run : Run β} {next : β → Run α} (first : Behaves order P run)
    (second : ∀ b, P b → Behaves order post (next b)) : Behaves order post (run >>= next) := by
  intro context s orderly
  rw [bind_apply]
  have behaved := first context s orderly
  generalize run context s = ended at behaved
  cases behaved with
  | ok orderly h => exact second _ h context _ orderly
  | fault orderly passes => exact .fault orderly passes
  | exhausted orderly => exact .exhausted orderly

theorem decent_bind {run : Run β} {next : β → Run α} (first : Decent order run)
    (second : ∀ b, Behaves order post (next b)) : Behaves order post (run >>= next) :=
  behaves_bind first fun b _ => second b

theorem behaves_look {f : Store → α} (h : ∀ s, s.Orderly order → post (f s)) :
    Behaves order post (look f) :=
  fun _ s orderly => .ok orderly (h s orderly)

theorem decent_look {f : Store → α} : Decent order (look f) :=
  behaves_look fun _ _ => trivial

theorem decent_ofResult {result : Except Fault α} (fails : FailsOnly order.passes result) :
    Decent order (ofResult result) := by
  cases fails with
  | ok => exact decent_pure
  | error passes => exact behaves_fail passes

theorem decent_lookUp {f : Store → Except Fault α} (elementary : ∀ s, Elementary (f s)) :
    Decent order (lookUp f) :=
  behaves_bind (behaves_look fun s _ => elementary s)
    fun _ own => decent_ofResult own.passes

-- ------------------------------------------------------------------ changes

/-- A change that is never refused. -/
theorem decent_change {f : Store → Store} (c : Change) (brings : c.Orderly order)
    (applies : ∀ s, f s = c.apply s) : Decent order (change f) :=
  fun _ s orderly => .ok (applies s ▸ orderly.apply brings) trivial

/-- A change that may be refused. -/
theorem decent_attempt {f : Store → Except Fault α × Store} (c : Store → Change)
    (brings : ∀ s, (c s).Orderly order) (applies : ∀ s, (f s).2 = (c s).apply s)
    (fails : ∀ s, FailsOnly order.passes (f s).1) : Decent order (attempt f) := by
  intro context s orderly
  have orderly' := orderly.apply (brings s)
  have refused := fails s
  rw [← applies] at orderly'
  unfold attempt
  generalize f s = outcome at orderly' refused
  obtain ⟨result, t⟩ := outcome
  cases refused with
  | ok => exact .ok orderly' trivial
  | error passes => exact .fault orderly' passes

theorem decent_newChild (parent : ScopeId) : Decent order (newChild parent) :=
  fun _ _ orderly =>
    .ok (orderly.apply (c := .operation (.child parent)) ⟨trivial, nofun, False.elim⟩) trivial

-- ------------------------------------------------------- around other runs

theorem behaves_holding {ids : List ScopeId} (behaves : Behaves order post run) :
    Behaves order post (holding ids run) :=
  fun _ s orderly => behaves _ s orderly

theorem behaves_apart (behaves : Behaves order post run) : Behaves order post (apart run) :=
  fun _ s orderly => behaves _ s orderly

theorem behaves_deeper (behaves : Behaves order post run) : Behaves order post (deeper run) := by
  intro context s orderly
  unfold deeper
  split
  · exact .fault orderly (order.other rfl)
  · exact behaves _ s orderly

theorem decent_requireLive (id : ScopeId) (name : String) : Decent order (requireLive id name) := by
  intro context s orderly
  unfold requireLive
  split
  · exact .ok orderly trivial
  · exact .fault orderly (order.other rfl)

theorem behaves_onLine {line : Nat} (behaves : Behaves order post run) :
    Behaves order post (onLine line run) := by
  intro context s orderly
  unfold onLine
  have behaved := behaves context s orderly
  generalize run context s = ended at behaved
  cases behaved with
  | ok orderly h => exact .ok orderly h
  | fault orderly passes => exact .fault orderly (order.atLine line passes)
  | exhausted orderly => exact .exhausted orderly

theorem behaves_handling {handler : Run α} (behaves : Behaves order post run)
    (handled : Behaves order post handler) : Behaves order post (handling run handler) := by
  intro context s orderly
  unfold handling
  have behaved := behaves context s orderly
  generalize run context s = ended at behaved
  cases behaved with
  | ok orderly h => exact .ok orderly h
  | fault orderly => exact handled context _ orderly
  | exhausted orderly => exact .exhausted orderly

end Run

/-- What runs one level below is decent where its code is orderly. -/
structure Below.Decent (order : Order) (below : Below) : Prop where
  enter : ∀ scope (block : Block), block.Orderly order → Run.Decent order (below.enter scope block)
  construct : ∀ c args, c.Orderly order → Run.Decent order (below.construct c args)

namespace Below

open Run

variable {below : Below}

-- ==================================================================== calls

theorem decent_declare (id : ScopeId) {name : String} (own : order.Tolerates name) (v : Value) :
    Run.Decent order (attempt (·.declare id name v)) :=
  decent_attempt (fun _ => .operation (.declare id name v)) (fun _ => ⟨trivial, nofun, False.elim⟩)
    (fun _ => rfl) fun s => s.failsOnly_declare id own v

theorem decent_bindParams {frame : ScopeId} {params : List String} {args : List Value}
    (own : ∀ x ∈ params, order.Tolerates x) : Run.Decent order (bindParams frame params args) := by
  induction params generalizing args with
  | nil => exact decent_pure
  | cons param params ih =>
    obtain ⟨first, others⟩ := List.forall_mem_cons.1 own
    cases args with
    | nil => exact decent_pure
    | cons arg args => exact decent_bind (decent_declare frame first arg) fun _ => ih others

theorem decent_outcome {name : String} {wanted : Bool} {flow : Flow} :
    Run.Decent order (outcome name wanted flow) := by
  cases flow with
  | returned v => exact decent_pure
  | finished =>
    cases wanted
    · exact decent_pure
    · exact behaves_fail (order.other rfl)

theorem decent_callHost {function : HostFunction} (orderly : function.Orderly order)
    (args : List Value) : Run.Decent order (attempt (·.callHost function args)) :=
  decent_attempt (fun s => .host (function.run args s.host).2) (fun _ => ⟨trivial, nofun, nofun⟩)
    (fun _ => rfl) fun s => orderly args s.host

variable (decent : below.Decent order)

include decent

theorem decent_invokeWith {onFrame : ScopeId → Run Unit} {c : Callable} {args : List Value}
    {wanted : Bool} (frames : ∀ frame, Run.Decent order (onFrame frame))
    (orderly : c.Orderly order) : Run.Decent order (below.invokeWith onFrame c args wanted) := by
  unfold invokeWith
  unfold Callable.Orderly at orderly
  split
  · next function body =>
    rw [body] at orderly
    exact decent_callHost orderly args
  · next params block home body =>
    rw [body] at orderly
    refine decent_bind (decent_requireLive home _) fun _ => ?_
    refine decent_bind (decent_newChild home) fun frame => ?_
    refine decent_bind (decent_bindParams orderly.1) fun _ => ?_
    refine decent_bind (frames frame) fun _ => ?_
    exact decent_bind (behaves_deeper (decent.enter frame block orderly.2)) fun _ => decent_outcome
  · next parent target body =>
    rw [body] at orderly
    refine decent_bind (decent_requireLive target _) fun _ => ?_
    refine decent_bind (behaves_holding (behaves_deeper (decent.construct parent args orderly)))
      fun base => ?_
    refine decent_bind
      (decent_change (.merge target base.scope) ⟨trivial, nofun, nofun⟩ fun _ => rfl) fun _ => ?_
    exact decent_bind (decent_change (.noteSuper target) ⟨trivial, nofun, nofun⟩ fun _ => rfl)
      fun _ => decent_pure

theorem decent_invoke {c : Callable} {args : List Value} {wanted : Bool}
    (orderly : c.Orderly order) : Run.Decent order (below.invoke c args wanted) :=
  decent_invokeWith decent (fun _ => decent_pure) orderly

theorem decent_dispatch {name : String} {candidates : List Callable} {args : List Value}
    {wanted : Bool} (orderly : ∀ c ∈ candidates, c.Orderly order) :
    Run.Decent order (below.dispatch name candidates args wanted) := by
  unfold dispatch
  split
  · exact behaves_fail (order.other rfl)
  · split
    · next c selected => exact decent_invoke decent (orderly c (List.mem_of_find?_eq_some selected))
    · exact behaves_fail (order.other rfl)

omit decent in
theorem behaves_lookProcedures (scope : ScopeId) (name : String) :
    Behaves order (fun candidates => ∀ c ∈ candidates, c.Orderly order)
      (look fun s => (s.scope scope).procedures.named name) :=
  behaves_look fun _ orderly c mem =>
    orderly.callable scope c (Scope.mem_callables_of_procedure mem)

omit decent in
theorem behaves_lookFunctions (scope : ScopeId) (name : String) :
    Behaves order (fun candidates => ∀ c ∈ candidates, c.Orderly order)
      (look fun s => (s.scope scope).functions.named name) :=
  behaves_look fun _ orderly c mem =>
    orderly.callable scope c (Scope.mem_callables_of_function mem)

theorem decent_callProcedure {scope : ScopeId} {name : String} {args : List Value} :
    Run.Decent order (below.callProcedure scope name args) := by
  refine behaves_bind (behaves_look fun s orderly c mem => ?_) fun _ => decent_dispatch decent
  exact orderly.callable scope c (Scope.mem_callables_of_named mem)

theorem decent_callFunction {scope : ScopeId} {name : String} {args : List Value} :
    Run.Decent order (below.callFunction scope name args) := by
  refine behaves_bind (behaves_lookFunctions scope name) fun functions orderly => ?_
  refine decent_bind decent_look fun procedures => ?_
  split
  · exact behaves_fail (order.other rfl)
  · exact decent_dispatch decent orderly

theorem decent_callMember {scope : ScopeId} {name : String} {args : List Value} :
    Run.Decent order (below.callMember scope name args) := by
  refine behaves_bind (behaves_lookFunctions scope name) fun functions orderly => ?_
  split
  · exact behaves_bind (behaves_lookProcedures scope name) fun _ => decent_dispatch decent
  · exact decent_dispatch decent orderly

omit decent in
theorem behaves_findClass {scope : ScopeId} {name : String} :
    Behaves order (·.Orderly order) (findClass scope name) := by
  refine behaves_bind (P := fun found => ∀ c, found = some c → c.Orderly order)
    (behaves_look fun s orderly c found => orderly.class found) fun found orderly => ?_
  cases found with
  | none => exact behaves_fail (order.other rfl)
  | some c => exact behaves_pure (orderly c rfl)

theorem decent_instantiate {scope : ScopeId} {className : String} {args : List Value} :
    Run.Decent order (below.instantiate scope className args) :=
  behaves_bind behaves_findClass fun c orderly => behaves_deeper (decent.construct c args orderly)

-- ============================================================== expressions

omit decent in
mutual

theorem decent_evaluate (decent : below.Decent order) (scope : ScopeId) (e : Expr) :
    Run.Decent order (below.evaluate scope e) := by
  unfold evaluate
  cases e with
  | number | string | bool | null => exact decent_pure
  | list items => exact decent_bind (decent_evaluateAll decent scope items) fun _ => decent_pure
  | name x => exact decent_lookUp fun s => s.elementary_lookup scope x
  | call f args =>
    refine decent_bind (decent_evaluateAll decent scope args) fun vs => ?_
    exact behaves_holding (decent_callFunction decent)
  | member object m =>
    refine decent_bind (decent_evaluate decent scope object) fun v => ?_
    exact decent_lookUp fun s => s.elementary_member v m
  | methodCall object m args =>
    refine decent_bind (decent_evaluate decent scope object) fun v => ?_
    refine decent_bind (decent_ofResult v.elementary_expectObject.passes) fun o => ?_
    refine behaves_holding (decent_bind (decent_evaluateAll decent scope args) fun vs => ?_)
    exact behaves_holding (decent_callFunction decent)
  | index target position =>
    refine decent_bind (decent_evaluate decent scope target) fun t => ?_
    refine decent_bind (behaves_holding (decent_evaluate decent scope position)) fun p => ?_
    exact decent_ofResult (Value.elementary_index t p).passes
  | new c args =>
    refine decent_bind (decent_evaluateAll decent scope args) fun vs => ?_
    exact decent_bind (behaves_holding (decent_instantiate decent)) fun _ => decent_pure
  | unary op operand =>
    refine decent_bind (decent_evaluate decent scope operand) fun v => ?_
    exact decent_ofResult (Value.elementary_unary op v).passes
  | binary op left right =>
    refine decent_bind (decent_evaluate decent scope left) fun l => ?_
    split
    · refine decent_bind (decent_ofResult l.elementary_expectBool.passes) fun b => ?_
      split
      · exact decent_pure
      · refine decent_bind (decent_evaluate decent scope right) fun r => ?_
        exact decent_bind (decent_ofResult r.elementary_expectBool.passes) fun _ => decent_pure
    · refine decent_bind (behaves_holding (decent_evaluate decent scope right)) fun r => ?_
      exact decent_ofResult (Value.elementary_binary op l r).passes

theorem decent_evaluateAll (decent : below.Decent order) (scope : ScopeId) (es : List Expr) :
    Run.Decent order (below.evaluateAll scope es) := by
  unfold evaluateAll
  cases es with
  | nil => exact decent_pure
  | cons e rest =>
    refine decent_bind (decent_evaluate decent scope e) fun v => ?_
    exact decent_bind (behaves_holding (decent_evaluateAll decent scope rest)) fun _ => decent_pure

end

end Below

end RoutineScript
