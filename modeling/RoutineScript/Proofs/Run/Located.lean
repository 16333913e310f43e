/-
Every fault that stops a run knows its line.

A block tells each fault of its statements the line of the statement, unless
the fault has come from a block further in. So whatever stops a block stands
on the line of one of the statements that were executed, and these are
statements of the source, however deep they stand in it, for nothing else
comes into the store. As always, blocks are treated by induction on their
syntax, loops by induction on their rounds, and calls by induction on the
levels that they may still nest.
-/
import RoutineScript.Proofs.Run.Faults
import RoutineScript.Proofs.Run.Lawful

namespace RoutineScript

variable {lines : Nat → Prop} {passed : Fault → Prop}

-- =============================================================== statements

namespace Stmt

/-- A statement that executes no block. -/
def isLeaf : Stmt → Bool
  | branch _ | whileLoop .. | forLoop .. | countLoop .. | attempt .. | thread _ => false
  | _ => true

theorem AllOn.mono {some others : List (Located Stmt)} (sub : ∀ s ∈ some, s ∈ others)
    (on : AllOn lines others) : AllOn lines some :=
  fun s mem => on s (sub s mem)

theorem allOn_append {front back : List (Located Stmt)} :
    AllOn lines (front ++ back) ↔ AllOn lines front ∧ AllOn lines back :=
  List.forall_mem_append

/-- A block stands on certain lines if its first statement does, and what is
within that one, and the rest. -/
theorem lined_cons {line : Nat} {statement : Stmt} {rest : Block} :
    Block.Lined lines (⟨line, statement⟩ :: rest) ↔
      (lines line ∧ ∀ fault, statement = .invalid fault → fault.StandsOn lines) ∧
        AllOn lines statement.within ∧ rest.Lined lines := by
  rw [Block.Lined, Block.statements, blockStatements, AllOn, List.forall_mem_cons, ← AllOn,
    allOn_append]

end Stmt

namespace Below

open Run

variable {below : Below}

theorem raises_declareClass (passes : below.Passes lines passed) (scope : ScopeId) (name : String)
    (parent : Option Expr) {body : Block} (lined : body.Lined lines) :
    Raises lines (Fault.Underway passed) (below.declareClass scope name parent body) := by
  have declares : ∀ parent : Option Class, (∀ q, parent = some q → q.Lined lines) →
      Raises lines (Fault.Underway passed) (change (·.declareClass
        { name, parent, body, home := scope, arities := Block.arities body constructorName })) := by
    intro parent own
    refine raises_change (.declareClass _) ⟨nofun, ?_⟩ fun _ => rfl
    rintro _ rfl
    exact Class.lined_iff.2 ⟨lined, own⟩
  refine raises_bind (ends_ofResult (Name.failsOnly_check name).unlocated) fun _ => ?_
  cases parent with
  | none => exact declares none nofun
  | some e =>
    refine ends_bind (ends_resolveClass passes scope e) fun q own => declares (some q) ?_
    rintro _ ⟨⟩
    exact own

theorem raises_doing {run : Run Unit} {raises : Fault → Prop} (h : Raises lines raises run) :
    Raises lines raises (do run; return Flow.finished) :=
  raises_bind h fun _ => raises_pure

/-- A statement that executes no block raises faults of its own, and what
comes from below. -/
theorem raises_leaf (passes : below.Passes lines passed) (patience : Nat) (scope : ScopeId)
    {statement : Stmt} (leaf : statement.isLeaf = true)
    (inside : Stmt.AllOn lines statement.within)
    (invalid : ∀ fault, statement = .invalid fault → passed fault) :
    Raises lines (Fault.Underway passed) (below.execute patience scope statement) := by
  unfold execute
  cases statement with
  | assign place e =>
    refine raises_bind (raises_evaluate passes scope e) fun v => ?_
    exact raises_doing (raises_assignPlace passes scope v place)
  | compound place op e => exact raises_doing (raises_combine passes scope place op e)
  | step place delta =>
    refine raises_bind (raises_readPlace passes scope place) fun v => ?_
    refine raises_bind (ends_ofResult v.elementary_expectNumber.unlocated) fun current => ?_
    exact raises_doing (raises_assignPlace passes scope _ place)
  | delete place => exact raises_doing (raises_deletePlace passes scope place)
  | make name => exact raises_doing (raises_declare scope name .null)
  | call callee args => exact raises_doing (raises_callStatement passes scope callee args)
  | «return» value =>
    cases value with
    | none => exact raises_pure
    | some e => exact raises_bind (raises_evaluate passes scope e) fun _ => raises_pure
  | define name params body =>
    refine raises_doing (raises_attempt (fun _ => .define scope name params body)
      (fun _ => ⟨?_, nofun⟩) (fun _ => rfl)
      fun s => s.failsOnly_define scope (fun x _ => Name.failsOnly_check x) body)
    rintro _ _ ⟨⟩
    exact inside
  | declareClass name parent body =>
    exact raises_doing (raises_declareClass passes scope name parent inside)
  | invalid fault => exact fun _ _ lined => .fault lined (.inr (invalid fault rfl))
  | branch | whileLoop | forLoop | countLoop | attempt | thread => cases leaf

-- =================================================================== blocks

theorem raises_inChild {α : Type} {raises : Fault → Prop} {scope : ScopeId} {run : ScopeId → Run α}
    (h : ∀ child, Raises lines raises (run child)) : Raises lines raises (inChild scope run) :=
  raises_bind (raises_newChild scope) fun child => ends_holding (h child)

theorem raises_repeatWhile {raises : Fault → Prop} {condition : Run Bool} {body : Run Flow}
    (tested : Raises lines raises condition) (executed : Raises lines raises body)
    (patience : Nat) : Raises lines raises (repeatWhile condition body patience) := by
  induction patience with
  | zero => exact ends_exhausted
  | succ patience ih =>
    refine raises_bind tested fun holds => ?_
    split
    · refine raises_bind executed fun flow => ?_
      cases flow with
      | finished => exact ih
      | returned v => exact raises_pure
    · exact raises_pure

theorem raises_repeatFor {raises : Fault → Prop} {body : Nat → Run Flow}
    (executed : ∀ round, Raises lines raises (body round)) (first rounds : Nat) :
    Raises lines raises (repeatFor body first rounds) := by
  induction rounds generalizing first with
  | zero => exact raises_pure
  | succ rounds ih =>
    refine raises_bind (executed first) fun flow => ?_
    cases flow with
    | finished => exact ih (first + 1)
    | returned v => exact raises_pure

mutual

/-- Within a statement, faults of the blocks in it already know their lines. -/
theorem raises_execute (passes : below.Passes lines (Fault.StandsOn lines)) (patience : Nat)
    (scope : ScopeId) (statement : Stmt) (inside : Stmt.AllOn lines statement.within)
    (invalid : ∀ fault, statement = .invalid fault → fault.StandsOn lines) :
    Raises lines (Fault.Underway (Fault.StandsOn lines))
      (below.execute patience scope statement) := by
  by_cases leaf : statement.isLeaf = true
  · exact raises_leaf passes patience scope leaf inside invalid
  unfold execute
  cases statement with
  | branch arms => exact raises_executeArms passes patience scope arms inside
  | whileLoop condition body =>
    exact raises_repeatWhile (raises_evaluateBool passes scope condition)
      (raises_inChild fun child =>
        (raises_executeBlock passes patience child body inside).underway) patience
  | forLoop count body =>
    refine raises_bind (raises_evaluateNumber passes scope count) fun count => ?_
    exact raises_repeatFor (fun _ => raises_inChild fun child =>
      (raises_executeBlock passes patience child body inside).underway) 0 _
  | countLoop name start stop body =>
    refine raises_bind (raises_evaluateNumber passes scope start) fun start => ?_
    refine raises_bind (raises_evaluateNumber passes scope stop) fun stop => ?_
    refine raises_repeatFor (fun round => raises_inChild fun child => ?_) 0 _
    exact raises_bind (raises_declare child name _) fun _ =>
      (raises_executeBlock passes patience child body inside).underway
  | attempt body handler =>
    cases handler with
    | none => exact ends_handling (raises_executeBlock passes patience scope body inside) raises_pure
    | some handler =>
      rw [Stmt.within, Stmt.allOn_append] at inside
      exact ends_handling (raises_executeBlock passes patience scope body inside.1)
        (raises_executeBlock passes patience scope handler inside.2).underway
  | thread body =>
    have executed : Raises lines (Fault.StandsOn lines)
        (inChild scope fun child => Run.apart (below.executeBlock patience child body)) :=
      raises_inChild fun child => ends_apart (raises_executeBlock passes patience child body inside)
    exact raises_bind (ends_handling executed raises_pure) fun _ => raises_pure
  | assign | compound | step | delete | make | call | «return» | define | declareClass
  | invalid => exact absurd rfl leaf

/-- What stops a block knows its line. -/
theorem raises_executeBlock (passes : below.Passes lines (Fault.StandsOn lines)) (patience : Nat)
    (scope : ScopeId) (block : List (Located Stmt)) (lined : Block.Lined lines block) :
    Raises lines (Fault.StandsOn lines) (below.executeBlock patience scope block) := by
  unfold executeBlock
  cases block with
  | nil => exact raises_pure
  | cons statement rest =>
    obtain ⟨line, statement⟩ := statement
    obtain ⟨⟨stands, invalid⟩, inside, others⟩ := Stmt.lined_cons.1 lined
    refine raises_bind (ends_onLine stands
      (raises_execute passes patience scope statement inside invalid)) fun flow => ?_
    cases flow with
    | finished => exact raises_executeBlock passes patience scope rest others
    | returned v => exact raises_pure

theorem raises_executeArms (passes : below.Passes lines (Fault.StandsOn lines)) (patience : Nat)
    (scope : ScopeId) (arms : List (Option Expr × List (Located Stmt)))
    (inside : Stmt.AllOn lines (Stmt.armsStatements arms)) :
    Raises lines (Fault.Underway (Fault.StandsOn lines))
      (below.executeArms patience scope arms) := by
  unfold executeArms
  cases arms with
  | nil => exact raises_pure
  | cons arm rest =>
    obtain ⟨condition, body⟩ := arm
    rw [Stmt.armsStatements, Stmt.allOn_append] at inside
    have executed : Raises lines (Fault.Underway (Fault.StandsOn lines))
        (inChild scope fun child => below.executeBlock patience child body) :=
      raises_inChild fun child =>
        (raises_executeBlock passes patience child body inside.1).underway
    cases condition with
    | none => exact executed
    | some condition =>
      refine raises_bind (raises_evaluateBool passes scope condition) fun holds => ?_
      split
      · exact executed
      · exact raises_executeArms passes patience scope rest inside.2

end

-- ============================================================= construction

theorem ends_ownProcedures {raises : Fault → Prop} (object : ScopeId) (name : String) :
    Ends lines raises (fun candidates => ∀ c ∈ candidates, c.Lined lines)
      (ownProcedures object name) := by
  exact ends_look fun s lined c mem =>
    lined.callable object c (Scope.mem_callables_of_ownProcedure mem)

theorem ends_constructors {raises : Fault → Prop} (object : ScopeId) :
    Ends lines raises (fun candidates => ∀ c ∈ candidates, c.Lined lines)
      (constructors object) := by
  have supplied : (Callable.ofScript constructorName [] [] object).Lined lines := nofun
  refine ends_bind (ends_ownProcedures object constructorName) fun declared lined => ?_
  split
  · refine raises_bind (raises_change (.offer object _) ⟨?_, nofun⟩ fun _ => rfl) fun _ => ?_
    · rintro _ _ ⟨⟩
      exact supplied
    · exact ends_pure (List.forall_mem_singleton.2 supplied)
  · exact ends_pure lined

theorem raises_installSupers {raises : Fault → Prop} {object : ScopeId} {parent : Class}
    (own : parent.Lined lines) : Raises lines raises (installSupers object parent) := by
  have offered : ∀ (arities : List Nat) (s : Store), s.Lined lines →
      (arities.foldl (fun s arity => s.addProcedure object (.ofSuper arity parent object)) s).Lined
        lines := by
    intro arities
    induction arities with
    | nil => exact fun s lined => lined
    | cons arity arities ih =>
      refine fun s lined => ih _ (lined.apply (c := .offer object _) ⟨?_, nofun⟩)
      rintro _ _ ⟨⟩
      exact own
  exact fun _ s lined => .ok (offered _ s lined) trivial

variable (passes : below.Passes lines passed)

include passes

theorem raises_completeParent (object : ScopeId) (className : String) :
    Raises lines (Fault.Underway passed) (below.completeParent object className) := by
  refine raises_bind raises_look fun invoked => ?_
  split
  · exact raises_pure
  · refine ends_bind (ends_ownProcedures object superName) fun supers lined => ?_
    split
    · next c found =>
      exact raises_bind (raises_invoke passes (lined c (List.mem_of_find?_eq_some found)))
        fun _ => raises_pure
    · exact ends_fail rfl

theorem raises_finish (object : ScopeId) (c : Class) (args : List Value) :
    Raises lines (Fault.Underway passed) (below.finish object c args) := by
  have dropped : ∀ name,
      Raises lines (Fault.Underway passed) (change (·.dropCallables object name)) :=
    fun name => raises_change (.dropCallables object name) ⟨nofun, nofun⟩ fun _ => rfl
  have cleared : Raises lines (Fault.Underway passed) (do
      change (·.dropCallables object superName)
      change (·.dropCallables object constructorName)
      return (⟨object, c.name⟩ : Object)) :=
    raises_bind (dropped superName) fun _ =>
      raises_bind (dropped constructorName) fun _ => raises_pure
  have framed : ∀ frame, Raises lines (Fault.Underway passed) (change (·.noteFrame object frame)) :=
    fun frame => raises_change (.noteFrame object frame) ⟨nofun, nofun⟩ fun _ => rfl
  refine ends_bind (ends_constructors object) fun callables lined => ?_
  split
  · exact ends_fail rfl
  · next constructor selected =>
    refine raises_bind (raises_invokeWith passes framed
      (lined constructor (List.mem_of_find?_eq_some selected))) fun _ => ?_
    dsimp only
    split
    · exact raises_bind (raises_completeParent passes object c.name) fun _ => cleared
    · exact cleared

end Below

-- =================================================================== levels

namespace Run

theorem raises_executeAt {n : Nat} (passes : (Below.upTo n).Passes lines (Fault.StandsOn lines))
    (scope : ScopeId) {block : Block} (lined : block.Lined lines) :
    Raises lines (Fault.StandsOn lines) (executeAt (n + 1) scope block) := by
  rw [executeAt]
  exact ends_holding (Below.raises_executeBlock passes n scope block lined)

theorem raises_constructAt {n : Nat} (passes : (Below.upTo n).Passes lines (Fault.StandsOn lines))
    {c : Class} (own : c.Lined lines) (args : List Value) :
    Raises lines (Fault.Underway (Fault.StandsOn lines)) (constructAt (n + 1) c args) := by
  obtain ⟨body, parents⟩ := Class.lined_iff.1 own
  have built : ∀ object, Raises lines (Fault.Underway (Fault.StandsOn lines))
      ((Below.upTo n).build n object c args) := by
    intro object
    rw [Below.build_eq]
    refine raises_bind ?_ fun _ => Below.raises_finish passes object c args
    exact (Below.raises_executeBlock passes n object c.body body).underway
  rw [constructAt]
  refine raises_bind (raises_requireLive c.home c.name) fun _ => ?_
  refine Below.raises_inChild fun object => ?_
  dsimp only
  split
  · next parent isParent =>
    exact raises_bind (Below.raises_installSupers (parents parent isParent)) fun _ => built object
  · exact built object

end Run

/-- Nothing comes up from where there are no levels. -/
theorem Below.passes_upTo_zero (lines : Nat → Prop) (passed : Fault → Prop) :
    (Below.upTo 0).Passes lines passed :=
  ⟨fun _ _ _ => Run.ends_exhausted, fun _ _ _ => Run.ends_exhausted⟩

/-- What comes up from any number of levels knows its line. -/
theorem Below.passes_upTo (lines : Nat → Prop) (n : Nat) :
    (Below.upTo n).Passes lines (Fault.StandsOn lines) := by
  induction n with
  | zero => exact passes_upTo_zero lines _
  | succ n ih =>
    constructor
    · exact fun scope block lined => (Run.raises_executeAt ih scope lined).underway
    · exact fun c args own => Run.raises_constructAt ih own args

namespace Run

/-- What stops a program stands on one of its lines. -/
theorem standsOn_of_stopped {n : Nat} {scope : ScopeId} {program : Block} {context : Context}
    {s t : Store} {fault : Fault} (lined : s.Lined lines) (own : program.Lined lines)
    (stopped : executeAt (n + 1) scope program context s = (.error (.fault fault), t)) :
    fault.StandsOn lines := by
  have ended := raises_executeAt (Below.passes_upTo lines n) scope own context s lined
  rw [stopped] at ended
  cases ended with
  | fault _ stands => exact stands

end Run

-- ============================================================= native stores

namespace Store

/-- An empty store has no functions of the host. -/
theorem forall_host_empty {P : HostFunction → Prop} (id : ScopeId) (c : Callable)
    (mem : c ∈ (empty.scope id).callables) (function : HostFunction)
    (_ : c.body = .host function) : P function := by
  rw [callables_empty] at mem
  cases mem

/-- The functions that a host does not add have been there before. -/
theorem forall_host_perform {P : HostFunction → Prop} {s : Store}
    (all : ∀ id, ∀ c ∈ (s.scope id).callables, ∀ function, c.body = .host function → P function)
    (op : Operation) (added : ∀ id name signature returning function,
      op = .register id name signature returning function → P function) :
    ∀ id, ∀ c ∈ ((op.perform s).2.scope id).callables, ∀ function,
      c.body = .host function → P function := by
  refine Change.forall_callable_apply all (.operation op) ?_
  rintro _ _ ⟨⟩ _ ⟨⟩
  exact added _ _ _ _ _ rfl

/-- A store whose functions of the host raise faults that know no line. -/
def Silent (s : Store) : Prop :=
  ∀ id, ∀ c ∈ (s.scope id).callables, ∀ function, c.body = .host function → function.Silent

theorem silent_empty : empty.Silent :=
  forall_host_empty

/-- A host that adds such functions keeps a store silent. -/
theorem Silent.perform {s : Store} (silent : s.Silent) (op : Operation)
    (added : ∀ id name signature returning function,
      op = .register id name signature returning function → function.Silent) :
    (op.perform s).2.Silent :=
  forall_host_perform silent op added

/-- A store of functions of the host holds no code on any line. -/
theorem IsNative.lined {s : Store} (native : s.IsNative) (silent : s.Silent) : s.Lined lines where
  callable id c mem := by
    obtain ⟨function, body⟩ := native.exists_host mem
    rw [Callable.Lined, body]
    exact silent id c mem function body
  «class» {id name c} found := by cases (native.class id name).symm.trans found

end Store

end RoutineScript
