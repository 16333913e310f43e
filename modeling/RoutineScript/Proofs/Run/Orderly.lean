/-
Runs of orderly code are decent, on any number of levels.

This is the second half of what `Proofs/Run/Order.lean` begins, for statements
and constructions. A name is bound only after the check has passed it: where a
statement binds it by declaring or assigning, the store checks it; where it
declares a class, the name is checked first (`Below.behaves_check`); and the
names under which a construction offers its means are legal. So the store
stays orderly.

Statements of the kind that never ends are never looked at: a block in which
they hang comes to none of them.
-/
import RoutineScript.Proofs.Run.Order

namespace RoutineScript

variable {order : Order}

namespace Below

open Run

variable {below : Below}

-- =================================================================== places

section

variable (decent : below.Decent order)

include decent

theorem decent_readPlace (scope : ScopeId) (place : Place) :
    Run.Decent order (below.readPlace scope place) := by
  cases place with
  | name x => exact decent_lookUp fun s => s.elementary_lookup scope x
  | member object m =>
    refine decent_bind (decent_evaluate decent scope object) fun v => ?_
    exact decent_lookUp fun s => s.elementary_member v m

theorem decent_evaluateObject (scope : ScopeId) (e : Expr) :
    Run.Decent order (below.evaluateObject scope e) :=
  decent_bind (decent_evaluate decent scope e) fun v => decent_ofResult v.elementary_expectObject.passes

theorem decent_evaluateNumber (scope : ScopeId) (e : Expr) :
    Run.Decent order (below.evaluateNumber scope e) :=
  decent_bind (decent_evaluate decent scope e) fun v => decent_ofResult v.elementary_expectNumber.passes

theorem decent_evaluateBool (scope : ScopeId) (e : Expr) :
    Run.Decent order (below.evaluateBool scope e) :=
  decent_bind (decent_evaluate decent scope e) fun v => decent_ofResult v.elementary_expectBool.passes

theorem decent_assignPlace (scope : ScopeId) (v : Value) {place : Place}
    (own : order.Tolerates place.variable) :
    Run.Decent order (below.assignPlace scope v place) := by
  have assigns : ∀ id, Run.Decent order (attempt (·.assign id place.variable v)) := fun id =>
    decent_attempt (fun _ => .operation (.assign id place.variable v))
      (fun _ => ⟨trivial, nofun, False.elim⟩) (fun _ => rfl) fun s => s.failsOnly_assign id own v
  cases place with
  | name x => exact assigns scope
  | member object m =>
    exact decent_bind (behaves_holding (decent_evaluateObject decent scope object))
      fun o => assigns o.scope

theorem decent_deletePlace (scope : ScopeId) (place : Place) :
    Run.Decent order (below.deletePlace scope place) := by
  have removes : ∀ id name, Run.Decent order (attempt (·.remove id name)) := fun id name =>
    decent_attempt (fun _ => .operation (.remove id name)) (fun _ => ⟨trivial, nofun, False.elim⟩)
      (fun _ => rfl) fun s => (s.elementary_remove id name).passes
  cases place with
  | name x => exact decent_bind (removes scope x) fun _ => decent_pure
  | member object m =>
    refine decent_bind (decent_evaluateObject decent scope object) fun o => ?_
    exact decent_bind (removes o.scope m) fun _ => decent_pure

-- ======================================================== simple statements

theorem decent_combine (scope : ScopeId) {place : Place} (own : order.Tolerates place.variable)
    (op : BinaryOp) (e : Expr) : Run.Decent order (below.combine scope place op e) := by
  refine decent_bind (decent_readPlace decent scope place) fun current => ?_
  refine decent_bind (behaves_holding (decent_evaluate decent scope e)) fun operand => ?_
  refine decent_bind (decent_ofResult (Value.elementary_binary op current operand).passes)
    fun updated => ?_
  exact behaves_holding (decent_assignPlace decent scope updated own)

theorem decent_callStatement (scope : ScopeId) (callee : Callee) (args : List Expr) :
    Run.Decent order (below.callStatement scope callee args) := by
  refine decent_bind (decent_evaluateAll decent scope args) fun vs => behaves_holding ?_
  cases callee with
  | name f => exact decent_bind (decent_callProcedure decent) fun _ => decent_pure
  | method object m =>
    refine decent_bind (decent_evaluateObject decent scope object) fun o => ?_
    exact decent_bind (behaves_holding (decent_callProcedure decent)) fun _ => decent_pure

theorem behaves_resolveClass (scope : ScopeId) (e : Expr) :
    Behaves order (·.Orderly order) (below.resolveClass scope e) := by
  cases e with
  | name c => exact behaves_findClass
  | member object c =>
    exact decent_bind (decent_evaluateObject decent scope object) fun _ => behaves_findClass
  | _ => exact behaves_fail (order.other rfl)

omit decent in
/-- Behind the check of a name, the name is legal. -/
theorem behaves_check {name : String} (own : order.Tolerates name) :
    Behaves order (fun _ => Name.check name = .ok ()) (ofResult (Name.check name)) := by
  unfold Order.Tolerates at own
  generalize Name.check name = result at own
  cases own with
  | ok => exact behaves_pure rfl
  | error passes => exact behaves_fail passes

theorem decent_declareClass (scope : ScopeId) {name : String} (own : order.Tolerates name)
    (parent : Option Expr) {body : Block} (orderly : body.Orderly order) :
    Run.Decent order (below.declareClass scope name parent body) := by
  refine behaves_bind (behaves_check own) fun _ legal => ?_
  have declares : ∀ parent : Option Class, (∀ q, parent = some q → q.Orderly order) →
      Run.Decent order (change (·.declareClass
        { name, parent, body, home := scope, arities := Block.arities body constructorName })) := by
    intro parent parents
    let c : Class :=
      { name, parent, body, home := scope, arities := Block.arities body constructorName }
    have introduced : c.Orderly order := Class.orderly_iff.2 ⟨orderly, parents⟩
    refine decent_change (.declareClass c) ⟨legal, nofun, ?_⟩ fun _ => rfl
    rintro _ rfl
    exact introduced
  cases parent with
  | none => exact declares none nofun
  | some e =>
    refine behaves_bind (behaves_resolveClass decent scope e) fun q own => declares (some q) ?_
    rintro _ ⟨⟩
    exact own

omit decent in
theorem decent_doing {run : Run Unit} (done : Run.Decent order run) :
    Run.Decent order (do run; return Flow.finished) :=
  decent_bind done fun _ => decent_pure

/-- A statement that executes no block. -/
theorem decent_leaf (patience : Nat) (scope : ScopeId) {statement : Stmt}
    (leaf : statement.isLeaf = true) (own : statement.Orderly order)
    (ends : order.hangs statement = false) (inside : Stmt.AllOrderly order statement.within) :
    Run.Decent order (below.execute patience scope statement) := by
  have binds := own.binds
  unfold execute
  cases statement with
  | assign place e =>
    refine decent_bind (decent_evaluate decent scope e) fun v => ?_
    exact decent_doing (decent_assignPlace decent scope v (binds _ List.mem_cons_self))
  | compound place op e =>
    exact decent_doing (decent_combine decent scope (binds _ List.mem_cons_self) op e)
  | step place delta =>
    refine decent_bind (decent_readPlace decent scope place) fun v => ?_
    refine decent_bind (decent_ofResult v.elementary_expectNumber.passes) fun current => ?_
    exact decent_doing (decent_assignPlace decent scope _ (binds _ List.mem_cons_self))
  | delete place => exact decent_doing (decent_deletePlace decent scope place)
  | make name => exact decent_doing (decent_declare scope (binds _ List.mem_cons_self) .null)
  | call callee args => exact decent_doing (decent_callStatement decent scope callee args)
  | «return» value =>
    cases value with
    | none => exact decent_pure
    | some e => exact decent_bind (decent_evaluate decent scope e) fun _ => decent_pure
  | define name params body =>
    refine decent_doing (decent_attempt (fun _ => .define scope name params body)
      (fun _ => ⟨trivial, ?_, nofun⟩) (fun _ => rfl) fun s => s.failsOnly_define scope binds body)
    rintro _ _ ⟨⟩
    exact ⟨fun x mem => binds x (List.mem_cons_of_mem _ mem), inside⟩
  | declareClass name parent body =>
    exact decent_doing
      (decent_declareClass decent scope (binds _ List.mem_cons_self) parent inside)
  | invalid fault => exact behaves_fail (own.invalid ends fault rfl)
  | branch | whileLoop | forLoop | countLoop | attempt | thread => cases leaf

end

-- =================================================================== blocks

theorem decent_inChild {α : Type} {scope : ScopeId} {run : ScopeId → Run α}
    (decent : ∀ child, Run.Decent order (run child)) : Run.Decent order (inChild scope run) :=
  decent_bind (decent_newChild scope) fun child => behaves_holding (decent child)

theorem decent_repeatWhile {condition : Run Bool} {body : Run Flow}
    (tested : Run.Decent order condition) (executed : Run.Decent order body) (patience : Nat) :
    Run.Decent order (repeatWhile condition body patience) := by
  induction patience with
  | zero => exact behaves_exhausted
  | succ patience ih =>
    refine decent_bind tested fun holds => ?_
    split
    · refine decent_bind executed fun flow => ?_
      cases flow with
      | finished => exact ih
      | returned v => exact decent_pure
    · exact decent_pure

theorem decent_repeatFor {body : Nat → Run Flow}
    (executed : ∀ round, Run.Decent order (body round)) (first rounds : Nat) :
    Run.Decent order (repeatFor body first rounds) := by
  induction rounds generalizing first with
  | zero => exact decent_pure
  | succ rounds ih =>
    refine decent_bind (executed first) fun flow => ?_
    cases flow with
    | finished => exact ih (first + 1)
    | returned v => exact decent_pure

theorem decent_endless (decent : below.Decent order) (patience : Nat) (scope : ScopeId) :
    Run.Decent order (below.execute patience scope Stmt.endless) := by
  rw [Stmt.endless, execute]
  exact decent_repeatWhile (decent_evaluateBool decent scope _)
    (decent_inChild fun _ => decent_pure) patience

mutual

/-- A statement that ends is executed with whatever hangs within it. -/
theorem decent_execute (decent : below.Decent order) (patience : Nat) (scope : ScopeId)
    (statement : Stmt) (own : statement.Orderly order) (ends : order.hangs statement = false)
    (inside : Stmt.AllOrderly order statement.within) :
    Run.Decent order (below.execute patience scope (statement.hangWithin order.hangs)) := by
  by_cases leaf : statement.isLeaf = true
  · rw [Stmt.hangWithin_of_isLeaf leaf]
    exact decent_leaf decent patience scope leaf own ends inside
  cases statement with
  | branch arms =>
    rw [Stmt.hangWithin, execute]
    exact decent_executeArms decent patience scope arms inside
  | whileLoop condition body =>
    rw [Stmt.hangWithin, execute]
    exact decent_repeatWhile (decent_evaluateBool decent scope condition)
      (decent_inChild fun child => decent_executeBlock decent patience child body inside) patience
  | forLoop count body =>
    rw [Stmt.hangWithin, execute]
    refine decent_bind (decent_evaluateNumber decent scope count) fun count => ?_
    exact decent_repeatFor
      (fun _ => decent_inChild fun child => decent_executeBlock decent patience child body inside)
      0 _
  | countLoop name start stop body =>
    rw [Stmt.hangWithin, execute]
    refine decent_bind (decent_evaluateNumber decent scope start) fun start => ?_
    refine decent_bind (decent_evaluateNumber decent scope stop) fun stop => ?_
    refine decent_repeatFor (fun round => decent_inChild fun child => ?_) 0 _
    exact decent_bind (decent_declare child (own.binds _ List.mem_cons_self) _)
      fun _ => decent_executeBlock decent patience child body inside
  | attempt body handler =>
    cases handler with
    | none =>
      rw [Stmt.hangWithin, execute]
      exact behaves_handling (decent_executeBlock decent patience scope body inside) decent_pure
    | some handler =>
      rw [Stmt.within, Stmt.allOrderly_append] at inside
      rw [Stmt.hangWithin, execute]
      exact behaves_handling (decent_executeBlock decent patience scope body inside.1)
        (decent_executeBlock decent patience scope handler inside.2)
  | thread body =>
    rw [Stmt.hangWithin, execute]
    have executed : Run.Decent order (inChild scope fun child =>
        Run.apart (below.executeBlock patience child (Stmt.hangBlock order.hangs body))) :=
      decent_inChild fun child =>
        behaves_apart (decent_executeBlock decent patience child body inside)
    exact decent_bind (behaves_handling executed decent_pure) fun _ => decent_pure
  | assign | compound | step | delete | make | call | «return» | define | declareClass
  | invalid => exact absurd rfl leaf

/-- A block whose statements are orderly. -/
theorem decent_executeBlock (decent : below.Decent order) (patience : Nat) (scope : ScopeId)
    (block : List (Located Stmt)) (orderly : Block.Orderly order block) :
    Run.Decent order (below.executeBlock patience scope (Stmt.hangBlock order.hangs block)) := by
  cases block with
  | nil => exact decent_pure
  | cons statement rest =>
    obtain ⟨line, statement⟩ := statement
    obtain ⟨own, inside, others⟩ := Block.orderly_cons.1 orderly
    rw [Stmt.hangBlock, executeBlock]
    have executed : Run.Decent order (below.execute patience scope
        (if order.hangs statement then Stmt.endless else statement.hangWithin order.hangs)) := by
      split
      · exact decent_endless decent patience scope
      · next ends =>
        exact decent_execute decent patience scope statement own (Bool.eq_false_iff.2 ends) inside
    refine decent_bind (behaves_onLine executed) fun flow => ?_
    cases flow with
    | finished => exact decent_executeBlock decent patience scope rest others
    | returned v => exact decent_pure

theorem decent_executeArms (decent : below.Decent order) (patience : Nat) (scope : ScopeId)
    (arms : List (Option Expr × List (Located Stmt)))
    (inside : Stmt.AllOrderly order (Stmt.armsStatements arms)) :
    Run.Decent order (below.executeArms patience scope (Stmt.hangArms order.hangs arms)) := by
  cases arms with
  | nil => exact decent_pure
  | cons arm rest =>
    obtain ⟨condition, body⟩ := arm
    rw [Stmt.armsStatements, Stmt.allOrderly_append] at inside
    have executed : Run.Decent order (inChild scope fun child =>
        below.executeBlock patience child (Stmt.hangBlock order.hangs body)) :=
      decent_inChild fun child => decent_executeBlock decent patience child body inside.1
    cases condition with
    | none => exact executed
    | some condition =>
      rw [Stmt.hangArms, executeArms]
      refine decent_bind (decent_evaluateBool decent scope condition) fun holds => ?_
      split
      · exact executed
      · exact decent_executeArms decent patience scope rest inside.2

end

-- ============================================================= construction

theorem behaves_ownProcedures (object : ScopeId) (name : String) :
    Behaves order (fun candidates => ∀ c ∈ candidates, c.Orderly order)
      (ownProcedures object name) := by
  exact behaves_look fun s orderly c mem =>
    orderly.callable object c (Scope.mem_callables_of_ownProcedure mem)

theorem behaves_constructors (object : ScopeId) :
    Behaves order (fun candidates => ∀ c ∈ candidates, c.Orderly order)
      (constructors object) := by
  have supplied : (Callable.ofScript constructorName [] [] object).Orderly order := ⟨nofun, nofun⟩
  refine behaves_bind (behaves_ownProcedures object constructorName) fun declared orderly => ?_
  split
  · refine decent_bind (decent_change (.offer object _) ⟨?_, ?_, nofun⟩ fun _ => rfl) fun _ => ?_
    · exact (rfl : Name.check constructorName = .ok ())
    · rintro _ _ ⟨⟩
      exact supplied
    · exact behaves_pure (List.forall_mem_singleton.2 supplied)
  · exact behaves_pure orderly

theorem decent_installSupers {object : ScopeId} {parent : Class} (own : parent.Orderly order) :
    Run.Decent order (installSupers object parent) := by
  have offered : ∀ (arities : List Nat) (s : Store), s.Orderly order →
      (arities.foldl (fun s arity => s.addProcedure object (.ofSuper arity parent object)) s).Orderly
        order := by
    intro arities
    induction arities with
    | nil => exact fun s orderly => orderly
    | cons arity arities ih =>
      refine fun s orderly => ih _ (orderly.apply (c := .offer object _) ⟨?_, ?_, nofun⟩)
      · exact (rfl : Name.check superName = .ok ())
      · rintro _ _ ⟨⟩
        exact own
  exact fun _ s orderly => .ok (offered _ s orderly) trivial

variable (decent : below.Decent order)

include decent

theorem decent_completeParent (object : ScopeId) (className : String) :
    Run.Decent order (below.completeParent object className) := by
  refine decent_bind decent_look fun invoked => ?_
  split
  · exact decent_pure
  · refine behaves_bind (behaves_ownProcedures object superName) fun supers orderly => ?_
    split
    · next c found =>
      exact decent_bind (decent_invoke decent (orderly c (List.mem_of_find?_eq_some found)))
        fun _ => decent_pure
    · exact behaves_fail (order.other rfl)

theorem decent_finish (object : ScopeId) (c : Class) (args : List Value) :
    Run.Decent order (below.finish object c args) := by
  have dropped : ∀ name, Run.Decent order (change (·.dropCallables object name)) := fun name =>
    decent_change (.dropCallables object name) ⟨trivial, nofun, nofun⟩ fun _ => rfl
  have cleared : Run.Decent order (do
      change (·.dropCallables object superName)
      change (·.dropCallables object constructorName)
      return (⟨object, c.name⟩ : Object)) :=
    decent_bind (dropped superName) fun _ =>
      decent_bind (dropped constructorName) fun _ => decent_pure
  have framed : ∀ frame, Run.Decent order (change (·.noteFrame object frame)) := fun frame =>
    decent_change (.noteFrame object frame) ⟨trivial, nofun, nofun⟩ fun _ => rfl
  refine behaves_bind (behaves_constructors object) fun callables orderly => ?_
  split
  · exact behaves_fail (order.other rfl)
  · next constructor selected =>
    refine decent_bind (decent_invokeWith decent framed
      (orderly constructor (List.mem_of_find?_eq_some selected))) fun _ => ?_
    dsimp only
    split
    · exact decent_bind (decent_completeParent decent object c.name) fun _ => cleared
    · exact cleared

theorem decent_constructObject (patience : Nat) {c : Class} (own : c.Orderly order)
    (args : List Value) :
    Run.Decent order
      (below.constructObject patience { c with body := Stmt.hangBlock order.hangs c.body } args) := by
  obtain ⟨body, parents⟩ := Class.orderly_iff.1 own
  have built : ∀ object, Run.Decent order
      (below.build patience object { c with body := Stmt.hangBlock order.hangs c.body } args) := by
    intro object
    rw [build_eq]
    exact decent_bind (decent_executeBlock decent patience object c.body body)
      fun _ => decent_finish decent object _ args
  refine decent_bind (decent_requireLive c.home c.name) fun _ => ?_
  refine decent_inChild fun object => ?_
  dsimp only
  split
  · next parent isParent =>
    exact decent_bind (decent_installSupers (parents parent isParent)) fun _ => built object
  · exact built object

omit decent in
/-- Whatever the levels, calls are decent where some statements hang. -/
theorem decent_hanging (order : Order) (n : Nat) : (hanging order.hangs n).Decent order := by
  induction n with
  | zero => exact ⟨fun _ _ _ => behaves_exhausted, fun _ _ _ => behaves_exhausted⟩
  | succ n ih =>
    constructor
    · exact fun scope block orderly =>
        behaves_holding (decent_executeBlock ih n scope block orderly)
    · exact fun c args own => decent_constructObject ih n own args

omit decent in
/-- And if none hangs, so are calls as they are. -/
theorem decent_upTo (none : order.hangs = fun _ => false) (n : Nat) : (upTo n).Decent order := by
  have decent := decent_hanging order n
  rwa [none, hanging_none] at decent

end Below

end RoutineScript
