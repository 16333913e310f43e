/-
The evaluator keeps every law.

The proof follows the evaluator once: expressions and blocks by induction on
their syntax, loops by induction on their rounds, and calls by induction on
the levels that they may still nest. What a run executes is allowed, because
the program is, and because it finds nothing else in the store.
-/
import RoutineScript.Proofs.Run.Law
import RoutineScript.Interpreter

namespace RoutineScript

variable {allows : Stmt → Bool} {law : Law allows} {pace : Pace allows} {n m : Nat}

-- =================================================================== joining

/-- A callable that runs may call: it holds what is allowed, and if it
constructs a parent part, it has been visible from a scope under the law. -/
structure Law.Sees (law : Law allows) (c : Callable) : Prop where
  written : c.Written allows
  visible : ∀ {parent target}, c.body = .super parent target →
    ∃ s key, law.inv s ∧ c ∈ (s.scope key).callables

theorem Law.sees_of_mem {c : Callable} {s : Store} (key : ScopeId) (written : s.Written allows)
    (inv : law.inv s) (mem : c ∈ (s.scope key).callables) : law.Sees c :=
  ⟨(written key).callable c mem, fun _ => ⟨s, key, inv, mem⟩⟩

namespace Run

variable (law pace n m) in
/-- Wherever two runs start alike, the law is kept, they end alike, and an
object they end with is one of the class. -/
def Builds (c : Class) (run run' : Run Object) : Prop :=
  ∀ context context' s, pace.fits n m context context' → s.Written allows → law.inv s →
    Law.Kept law pace (fun o => c.Constructs s o (run context s).2) (run context s) (run' context' s)

theorem Builds.safe {c : Class} {run run' : Run Object} (builds : Builds law pace n m c run run') :
    Safe law pace n m run run' :=
  fun context context' s fits written inv =>
    (builds context context' s fits written inv).imp fun _ _ _ _ _ => trivial

theorem builds_of_safe {c : Class} {run run' : Run Object} (safe : Safe law pace n m run run')
    (constructs : ∀ context s o t, run context s = (.ok o, t) → c.Constructs s o t) :
    Builds law pace n m c run run' := by
  intro context context' s fits written inv
  refine (safe context context' s fits written inv).imp fun o t ended _ _ => ?_
  rw [ended]
  exact constructs context s o t ended

theorem builds_holding {c : Class} {ids : List ScopeId} {run run' : Run Object}
    (builds : Builds law pace n m c run run') :
    Builds law pace n m c (holding ids run) (holding ids run') := by
  intro context context' s fits written inv
  exact builds _ _ s (pace.hold _ fits) written inv

/-- A parent part that is constructed joins its object. -/
theorem safe_join {c : Callable} {parent : Class} {target : ScopeId} {run run' : Run Object}
    (sees : law.Sees c) (body : c.body = .super parent target)
    (builds : Builds law pace n m parent run run') :
    Safe law pace n m
      (do
        let base ← run
        change (·.merge target base.scope)
        change (·.noteSuper target)
        return Value.null)
      (do
        let base ← run'
        change (·.merge target base.scope)
        change (·.noteSuper target)
        return Value.null) := by
  intro context context' s fits written inv
  rw [bind_apply, bind_apply]
  have kept := builds context context' s fits written inv
  generalize run context s = ended, run' context' s = ended' at kept
  cases kept with
  | @ok base u written' inv' constructs =>
    obtain ⟨s₀, key, inv₀, mem⟩ := sees.visible body
    exact .ok ((written'.merge target base.scope).noteSuper target)
      (law.join inv₀ mem body written inv constructs inv') trivial
  | fault written inv => exact .fault written inv
  | cut written inv cut both => exact .cut written inv cut fun inStep => by rw [both inStep]

end Run

/-- What runs one level below keeps the law. -/
structure Below.Lawful (law : Law allows) (pace : Pace allows) (n m : Nat)
    (below below' : Below) : Prop where
  enter : ∀ scope (block : Block), block.everywhere allows = true →
    Run.Safe law pace n m (Run.deeper (below.enter scope block))
      (Run.deeper (below'.enter scope block))
  construct : ∀ c args, c.Written allows →
    Run.Builds law pace n m c (Run.deeper (below.construct c args))
      (Run.deeper (below'.construct c args))

namespace Below

open Run

variable {below below' : Below}

-- =================================================================== calls

theorem safe_bindParams {frame : ScopeId} {params : List String} {args : List Value} :
    Safe law pace n m (bindParams frame params args) (bindParams frame params args) := by
  induction params generalizing args with
  | nil => exact safe_pure
  | cons param params ih =>
    cases args with
    | nil => exact safe_pure
    | cons arg args =>
      refine safe_bind ?_ fun _ => ih
      exact safe_attempt (fun _ => .operation (.declare frame param arg))
        (fun _ => .declare frame param arg) fun _ => rfl

theorem safe_outcome {name : String} {wanted : Bool} {flow : Flow} :
    Safe law pace n m (outcome name wanted flow) (outcome name wanted flow) := by
  cases flow with
  | returned v => exact safe_pure
  | finished =>
    cases wanted
    · exact safe_pure
    · exact obeys_fail _

theorem safe_lookNamed (scope : ScopeId) (name : String) :
    Obeys law pace n m (fun candidates => ∀ c ∈ candidates, law.Sees c)
        (look fun s => (s.scope scope).procedures.named name)
        (look fun s => (s.scope scope).procedures.named name) ∧
      Obeys law pace n m (fun candidates => ∀ c ∈ candidates, law.Sees c)
        (look fun s => (s.scope scope).functions.named name)
        (look fun s => (s.scope scope).functions.named name) := by
  refine ⟨obeys_look fun s written inv c mem => ?_, obeys_look fun s written inv c mem => ?_⟩
  · exact law.sees_of_mem scope written inv (Scope.mem_callables_of_procedure mem)
  · exact law.sees_of_mem scope written inv (Scope.mem_callables_of_function mem)

variable (lawful : Below.Lawful law pace n m below below')

include lawful

theorem safe_invokeWith {onFrame : ScopeId → Run Unit} {c : Callable} {args : List Value}
    {wanted : Bool} (frames : ∀ frame, Safe law pace n m (onFrame frame) (onFrame frame))
    (sees : law.Sees c) :
    Safe law pace n m (below.invokeWith onFrame c args wanted)
      (below'.invokeWith onFrame c args wanted) := by
  unfold invokeWith
  split
  · next function _ =>
    exact safe_attempt (fun s => .host (function.run args s.host).2) (fun _ => .host _)
      fun _ => rfl
  · next params block home body =>
    have allowed : block.everywhere allows = true := by
      have own := sees.written
      rwa [Callable.Written, body] at own
    refine safe_bind (safe_requireLive home _) fun _ => ?_
    refine obeys_bind (obeys_newChild home) fun frame _ => ?_
    refine safe_bind safe_bindParams fun _ => ?_
    refine safe_bind (frames frame) fun _ => ?_
    exact safe_bind (lawful.enter frame block allowed) fun flow => safe_outcome
  · next parent target body =>
    have allowed : parent.Written allows := by
      have own := sees.written
      rwa [Callable.Written, body] at own
    refine safe_bind (safe_requireLive target _) fun _ => ?_
    exact safe_join sees body (builds_holding (lawful.construct parent args allowed))

theorem safe_invoke {c : Callable} {args : List Value} {wanted : Bool} (sees : law.Sees c) :
    Safe law pace n m (below.invoke c args wanted) (below'.invoke c args wanted) :=
  safe_invokeWith lawful (fun _ => safe_pure) sees

theorem safe_dispatch {name : String} {candidates : List Callable} {args : List Value}
    {wanted : Bool} (sees : ∀ c ∈ candidates, law.Sees c) :
    Safe law pace n m (below.dispatch name candidates args wanted)
      (below'.dispatch name candidates args wanted) := by
  unfold dispatch
  split
  · exact obeys_fail _
  · split
    · next c selected => exact safe_invoke lawful (sees c (List.mem_of_find?_eq_some selected))
    · exact obeys_fail _

theorem safe_callProcedure {scope : ScopeId} {name : String} {args : List Value} :
    Safe law pace n m (below.callProcedure scope name args)
      (below'.callProcedure scope name args) := by
  unfold callProcedure
  refine obeys_bind (P := fun candidates => ∀ c ∈ candidates, law.Sees c)
    (obeys_look fun s written inv c mem => ?_) fun candidates sees => safe_dispatch lawful sees
  exact law.sees_of_mem scope written inv (Scope.mem_callables_of_named mem)

theorem safe_callFunction {scope : ScopeId} {name : String} {args : List Value} :
    Safe law pace n m (below.callFunction scope name args)
      (below'.callFunction scope name args) := by
  unfold callFunction
  refine obeys_bind (safe_lookNamed scope name).2 fun functions sees => ?_
  refine safe_bind safe_look fun procedures => ?_
  split
  · exact obeys_fail _
  · exact safe_dispatch lawful sees

theorem safe_callMember {scope : ScopeId} {name : String} {args : List Value} :
    Safe law pace n m (below.callMember scope name args)
      (below'.callMember scope name args) := by
  unfold callMember
  refine obeys_bind (safe_lookNamed scope name).2 fun functions sees => ?_
  split
  · exact obeys_bind (safe_lookNamed scope name).1 fun procedures sees => safe_dispatch lawful sees
  · exact safe_dispatch lawful sees

omit lawful in
theorem obeys_findClass {scope : ScopeId} {name : String} :
    Obeys law pace n m (·.Written allows) (findClass scope name) (findClass scope name) := by
  refine obeys_bind (P := fun found => ∀ c, found = some c → c.Written allows)
    (obeys_look fun s written _ c found => (written scope).class found) fun found own => ?_
  cases found with
  | none => exact obeys_fail _
  | some c => exact obeys_pure (own c rfl)

theorem safe_instantiate {scope : ScopeId} {className : String} {args : List Value} :
    Safe law pace n m (below.instantiate scope className args)
      (below'.instantiate scope className args) :=
  obeys_bind obeys_findClass fun c own => (lawful.construct c args own).safe

-- ============================================================== expressions

omit lawful in
mutual

theorem safe_evaluate (lawful : Below.Lawful law pace n m below below') (scope : ScopeId) (e : Expr) :
    Safe law pace n m (below.evaluate scope e) (below'.evaluate scope e) := by
  unfold evaluate
  cases e with
  | number | string | bool | null => exact safe_pure
  | list items => exact safe_bind (safe_evaluateAll lawful scope items) fun _ => safe_pure
  | name x => exact safe_lookUp
  | call f args =>
    refine safe_bind (safe_evaluateAll lawful scope args) fun vs => ?_
    exact obeys_holding (safe_callFunction lawful)
  | member object m => exact safe_bind (safe_evaluate lawful scope object) fun _ => safe_lookUp
  | methodCall object m args =>
    refine safe_bind (safe_evaluate lawful scope object) fun v => ?_
    refine safe_bind safe_ofResult fun o => ?_
    refine obeys_holding (safe_bind (safe_evaluateAll lawful scope args) fun vs => ?_)
    exact obeys_holding (safe_callFunction lawful)
  | index target position =>
    refine safe_bind (safe_evaluate lawful scope target) fun t => ?_
    refine safe_bind (obeys_holding (safe_evaluate lawful scope position)) fun p => ?_
    exact safe_ofResult
  | new c args =>
    refine safe_bind (safe_evaluateAll lawful scope args) fun vs => ?_
    exact safe_bind (obeys_holding (safe_instantiate lawful)) fun _ => safe_pure
  | unary op operand =>
    exact safe_bind (safe_evaluate lawful scope operand) fun _ => safe_ofResult
  | binary op left right =>
    refine safe_bind (safe_evaluate lawful scope left) fun l => ?_
    split
    · refine safe_bind safe_ofResult fun b => ?_
      split
      · exact safe_pure
      · refine safe_bind (safe_evaluate lawful scope right) fun r => ?_
        exact safe_bind safe_ofResult fun _ => safe_pure
    · refine safe_bind (obeys_holding (safe_evaluate lawful scope right)) fun r => ?_
      exact safe_ofResult

theorem safe_evaluateAll (lawful : Below.Lawful law pace n m below below') (scope : ScopeId)
    (es : List Expr) :
    Safe law pace n m (below.evaluateAll scope es) (below'.evaluateAll scope es) := by
  unfold evaluateAll
  cases es with
  | nil => exact safe_pure
  | cons e rest =>
    refine safe_bind (safe_evaluate lawful scope e) fun v => ?_
    exact safe_bind (obeys_holding (safe_evaluateAll lawful scope rest)) fun _ => safe_pure

end

-- =================================================================== places

theorem safe_readPlace (scope : ScopeId) (place : Place) :
    Safe law pace n m (below.readPlace scope place) (below'.readPlace scope place) := by
  cases place with
  | name x => exact safe_lookUp
  | member object m => exact safe_bind (safe_evaluate lawful scope object) fun _ => safe_lookUp

theorem safe_evaluateObject (scope : ScopeId) (e : Expr) :
    Safe law pace n m (below.evaluateObject scope e) (below'.evaluateObject scope e) :=
  safe_bind (safe_evaluate lawful scope e) fun _ => safe_ofResult

omit lawful in
theorem safe_assign (id : ScopeId) (name : String) (v : Value) :
    Safe law pace n m (attempt (·.assign id name v)) (attempt (·.assign id name v)) :=
  safe_attempt (fun _ => .operation (.assign id name v)) (fun _ => .assign id name v) fun _ => rfl

theorem safe_assignPlace (scope : ScopeId) (v : Value) (place : Place) :
    Safe law pace n m (below.assignPlace scope v place) (below'.assignPlace scope v place) := by
  cases place with
  | name x => exact safe_assign scope x v
  | member object m =>
    refine safe_bind (obeys_holding (safe_evaluateObject lawful scope object)) fun o => ?_
    exact safe_assign o.scope m v

theorem safe_deletePlace (scope : ScopeId) {place : Place}
    (allowed : allows (.delete place) = true) :
    Safe law pace n m (below.deletePlace scope place) (below'.deletePlace scope place) := by
  have removed : ∀ id name, Safe law pace n m (attempt (·.remove id name))
      (attempt (·.remove id name)) := fun id name =>
    safe_attempt (fun _ => .operation (.remove id name)) (fun _ => .remove allowed id name)
      fun _ => rfl
  cases place with
  | name x => exact safe_bind (removed scope x) fun _ => safe_pure
  | member object m =>
    refine safe_bind (safe_evaluateObject lawful scope object) fun o => ?_
    exact safe_bind (removed o.scope m) fun _ => safe_pure

-- ======================================================== simple statements

theorem safe_combine (scope : ScopeId) (place : Place) (op : BinaryOp) (e : Expr) :
    Safe law pace n m (below.combine scope place op e) (below'.combine scope place op e) := by
  refine safe_bind (safe_readPlace lawful scope place) fun current => ?_
  refine safe_bind (obeys_holding (safe_evaluate lawful scope e)) fun operand => ?_
  refine safe_bind safe_ofResult fun updated => ?_
  exact obeys_holding (safe_assignPlace lawful scope updated place)

theorem safe_callStatement (scope : ScopeId) (callee : Callee) (args : List Expr) :
    Safe law pace n m (below.callStatement scope callee args)
      (below'.callStatement scope callee args) := by
  refine safe_bind (safe_evaluateAll lawful scope args) fun vs => obeys_holding ?_
  cases callee with
  | name f => exact safe_bind (safe_callProcedure lawful) fun _ => safe_pure
  | method object m =>
    refine safe_bind (safe_evaluateObject lawful scope object) fun o => ?_
    exact safe_bind (obeys_holding (safe_callProcedure lawful)) fun _ => safe_pure

theorem obeys_resolveClass (scope : ScopeId) (e : Expr) :
    Obeys law pace n m (·.Written allows) (below.resolveClass scope e)
      (below'.resolveClass scope e) := by
  cases e with
  | name c => exact obeys_findClass
  | member object c =>
    exact safe_bind (safe_evaluateObject lawful scope object) fun _ => obeys_findClass
  | _ => exact obeys_fail _

theorem safe_declareClass (scope : ScopeId) (name : String) (parent : Option Expr) {body : Block}
    (allowed : body.everywhere allows = true) :
    Safe law pace n m (below.declareClass scope name parent body)
      (below'.declareClass scope name parent body) := by
  have declared : ∀ parent : Option Class, (∀ q, parent = some q → q.Written allows) →
      Safe law pace n m
        (change (·.declareClass
          { name, parent, body, home := scope, arities := Block.arities body constructorName }))
        (change (·.declareClass
          { name, parent, body, home := scope, arities := Block.arities body constructorName })) :=
    fun parent own => safe_change (.declareClass _)
      (.declareClass (Class.written_of_parent allowed own)) fun _ => rfl
  refine safe_bind safe_ofResult fun _ => ?_
  cases parent with
  | none => exact declared none nofun
  | some e =>
    refine obeys_bind (obeys_resolveClass lawful scope e) fun q own => declared (some q) ?_
    rintro _ ⟨⟩
    exact own

theorem safe_evaluateNumber (scope : ScopeId) (e : Expr) :
    Safe law pace n m (below.evaluateNumber scope e) (below'.evaluateNumber scope e) :=
  safe_bind (safe_evaluate lawful scope e) fun _ => safe_ofResult

theorem safe_evaluateBool (scope : ScopeId) (e : Expr) :
    Safe law pace n m (below.evaluateBool scope e) (below'.evaluateBool scope e) :=
  safe_bind (safe_evaluate lawful scope e) fun _ => safe_ofResult

omit lawful in
theorem safe_inChild {α : Type} {scope : ScopeId} {run run' : ScopeId → Run α}
    (safe : ∀ child, law.isNew child → Safe law pace n m (run child) (run' child)) :
    Safe law pace n m (inChild scope run) (inChild scope run') :=
  obeys_bind (obeys_newChild scope) fun child new => obeys_holding (safe child new)

-- ==================================================================== loops

omit lawful in
theorem safe_repeatWhile {condition condition' : Run Bool} {body body' : Run Flow}
    (cut : pace.cuts .exhausted) (tested : Safe law pace n m condition condition')
    (executed : Safe law pace n m body body') {patience patience' : Nat}
    (le : patience ≤ patience') (same : pace.inStep → patience' = patience) :
    Safe law pace n m (repeatWhile condition body patience)
      (repeatWhile condition' body' patience') := by
  induction patience generalizing patience' with
  | zero => exact obeys_exhausted cut fun inStep => by rw [same inStep, repeatWhile]
  | succ patience ih =>
    obtain ⟨patience', rfl⟩ : ∃ k, patience' = k + 1 := ⟨patience' - 1, by omega⟩
    refine safe_bind tested fun holds => ?_
    split
    · refine safe_bind executed fun flow => ?_
      cases flow with
      | finished => exact ih (by omega) fun inStep => Nat.succ.inj (same inStep)
      | returned v => exact safe_pure
    · exact safe_pure

omit lawful in
theorem safe_repeatFor {body body' : Nat → Run Flow}
    (executed : ∀ round, Safe law pace n m (body round) (body' round)) (first rounds : Nat) :
    Safe law pace n m (repeatFor body first rounds) (repeatFor body' first rounds) := by
  induction rounds generalizing first with
  | zero => exact safe_pure
  | succ rounds ih =>
    refine safe_bind (executed first) fun flow => ?_
    cases flow with
    | finished => exact ih (first + 1)
    | returned v => exact safe_pure

-- =================================================================== blocks

omit lawful in
/-- What is done for its effect alone. -/
theorem safe_doing {run run' : Run Unit} (safe : Safe law pace n m run run') :
    Safe law pace n m (do run; return Flow.finished) (do run'; return Flow.finished) :=
  safe_bind safe fun _ => safe_pure

omit lawful in
mutual

theorem safe_execute (lawful : Below.Lawful law pace n m below below') (scope : ScopeId)
    (statement : Stmt) (allowed : statement.everywhere allows = true) :
    Safe law pace n m (below.execute n scope statement) (below'.execute m scope statement) := by
  have own := Stmt.of_everywhere allowed
  unfold execute
  cases statement with
  | assign place e =>
    refine safe_bind (safe_evaluate lawful scope e) fun v => ?_
    exact safe_doing (safe_assignPlace lawful scope v place)
  | compound place op e => exact safe_doing (safe_combine lawful scope place op e)
  | step place delta =>
    refine safe_bind (safe_readPlace lawful scope place) fun v => ?_
    refine safe_bind safe_ofResult fun current => ?_
    exact safe_doing (safe_assignPlace lawful scope _ place)
  | delete place => exact safe_doing (safe_deletePlace lawful scope own)
  | make name =>
    exact safe_doing (safe_attempt (fun _ => .operation (.declare scope name .null))
      (fun _ => .declare scope name .null) fun _ => rfl)
  | call callee args => exact safe_doing (safe_callStatement lawful scope callee args)
  | «return» value =>
    cases value with
    | none => exact safe_pure
    | some e => exact safe_bind (safe_evaluate lawful scope e) fun _ => safe_pure
  | branch arms =>
    exact safe_executeArms lawful scope arms (Stmt.arms_of_everywhere allowed)
  | whileLoop condition body =>
    have inside := Stmt.body_of_everywhere allowed (.head _)
    intro context context' s fits
    obtain ⟨cut, le⟩ := pace.loops own fits
    exact safe_repeatWhile cut (safe_evaluateBool lawful scope condition)
      (safe_inChild fun child _ => safe_executeBlock lawful child body inside) le
      (pace.together · fits) context context' s fits
  | forLoop count body =>
    have inside := Stmt.body_of_everywhere allowed (.head _)
    refine safe_bind (safe_evaluateNumber lawful scope count) fun count => ?_
    exact safe_repeatFor
      (fun _ => safe_inChild fun child _ => safe_executeBlock lawful child body inside) 0 _
  | countLoop name start stop body =>
    have inside := Stmt.body_of_everywhere allowed (.head _)
    refine safe_bind (safe_evaluateNumber lawful scope start) fun start => ?_
    refine safe_bind (safe_evaluateNumber lawful scope stop) fun stop => ?_
    refine safe_repeatFor (fun round => safe_inChild fun child _ => ?_) 0 _
    refine safe_bind ?_ fun _ => safe_executeBlock lawful child body inside
    exact safe_attempt (fun _ => .operation (.declare child name _)) (fun _ => .declare ..)
      fun _ => rfl
  | attempt body handler =>
    have uncut := pace.handles own (.inl ⟨body, handler, rfl⟩)
    cases handler with
    | none =>
      have inside := Stmt.body_of_everywhere allowed (.head _)
      exact obeys_handling uncut (safe_executeBlock lawful scope body inside) safe_pure
    | some handler =>
      have inside := Stmt.body_of_everywhere allowed (.head _)
      have handled := Stmt.body_of_everywhere allowed (.tail _ (.head _))
      exact obeys_handling uncut (safe_executeBlock lawful scope body inside)
        (safe_executeBlock lawful scope handler handled)
  | thread body =>
    have uncut := pace.handles own (.inr ⟨body, rfl⟩)
    have inside := Stmt.body_of_everywhere allowed (.head _)
    refine safe_bind (obeys_handling uncut (safe_inChild fun child _ => ?_) safe_pure)
      fun _ => safe_pure
    intro context context' s fits
    exact safe_executeBlock lawful child body inside _ _ s (pace.apart own fits)
  | define name params body =>
    exact safe_doing (safe_attempt (fun _ => .define scope name params body)
      (fun _ => .define allowed scope) fun _ => rfl)
  | declareClass name parent body =>
    have inside := Stmt.body_of_everywhere allowed (.head _)
    exact safe_doing (safe_declareClass lawful scope name parent inside)
  | invalid fault => exact obeys_fail fault

theorem safe_executeBlock (lawful : Below.Lawful law pace n m below below') (scope : ScopeId)
    (block : List (Located Stmt)) (allowed : Stmt.blockEverywhere allows block = true) :
    Safe law pace n m (below.executeBlock n scope block) (below'.executeBlock m scope block) := by
  unfold executeBlock
  cases block with
  | nil => exact safe_pure
  | cons statement rest =>
    obtain ⟨line, statement⟩ := statement
    rw [Stmt.blockEverywhere, Bool.and_eq_true] at allowed
    refine safe_bind (obeys_onLine (safe_execute lawful scope statement allowed.1)) fun flow => ?_
    cases flow with
    | finished => exact safe_executeBlock lawful scope rest allowed.2
    | returned v => exact safe_pure

theorem safe_executeArms (lawful : Below.Lawful law pace n m below below') (scope : ScopeId)
    (arms : List (Option Expr × List (Located Stmt)))
    (allowed : Stmt.armsEverywhere allows arms = true) :
    Safe law pace n m (below.executeArms n scope arms) (below'.executeArms m scope arms) := by
  unfold executeArms
  cases arms with
  | nil => exact safe_pure
  | cons arm rest =>
    obtain ⟨condition, body⟩ := arm
    rw [Stmt.armsEverywhere, Bool.and_eq_true] at allowed
    have inside : Safe law pace n m
        (inChild scope fun child => below.executeBlock n child body)
        (inChild scope fun child => below'.executeBlock m child body) :=
      safe_inChild fun child _ => safe_executeBlock lawful child body allowed.1
    cases condition with
    | none => exact inside
    | some condition =>
      refine safe_bind (safe_evaluateBool lawful scope condition) fun holds => ?_
      split
      · exact inside
      · exact safe_executeArms lawful scope rest allowed.2

end

-- ============================================================= construction

omit lawful in
/-- The overloads of `super` are offered one after the other. -/
theorem Law.inv_installSupers {object : ScopeId} {parent : Class} (new : law.isNew object)
    (own : parent.Written allows) (arities : List Nat) {s : Store} (written : s.Written allows)
    (inv : law.inv s) :
    (arities.foldl (fun s arity => s.addProcedure object (.ofSuper arity parent object)) s).Written
        allows ∧
      law.inv (arities.foldl
        (fun s arity => s.addProcedure object (.ofSuper arity parent object)) s) := by
  induction arities generalizing s with
  | nil => exact ⟨written, inv⟩
  | cons arity arities ih =>
    have made : (Change.offer object (.ofSuper arity parent object)).Made allows law.isNew :=
      .offerSuper new own arity
    exact ih (made.written written) (law.change made written inv)

omit lawful in
theorem safe_installSupers {object : ScopeId} {parent : Class} (new : law.isNew object)
    (own : parent.Written allows) :
    Safe law pace n m (installSupers object parent) (installSupers object parent) := by
  intro context context' s fits written inv
  obtain ⟨written, inv⟩ := Law.inv_installSupers new own parent.superArities written inv
  exact .ok written inv trivial

omit lawful in
theorem obeys_ownProcedures (object : ScopeId) (name : String) :
    Obeys law pace n m (fun candidates => ∀ c ∈ candidates, law.Sees c)
      (ownProcedures object name) (ownProcedures object name) := by
  exact obeys_look fun s written inv c mem =>
    law.sees_of_mem object written inv (Scope.mem_callables_of_ownProcedure mem)

omit lawful in
theorem obeys_constructors {object : ScopeId}
    (supplied : Safe law pace n m
      (Run.change (·.addProcedure object (.ofScript constructorName [] [] object)))
      (Run.change (·.addProcedure object (.ofScript constructorName [] [] object)))) :
    Obeys law pace n m (fun candidates => ∀ c ∈ candidates, law.Sees c) (constructors object)
      (constructors object) := by
  refine obeys_bind (obeys_ownProcedures object constructorName) fun declared sees => ?_
  split
  · refine safe_bind supplied fun _ => obeys_pure fun c mem => ?_
    rw [List.mem_singleton.1 mem]
    exact ⟨rfl, nofun⟩
  · exact obeys_pure sees

theorem safe_completeParent (object : ScopeId) (className : String) :
    Safe law pace n m (below.completeParent object className)
      (below'.completeParent object className) := by
  refine safe_bind safe_look fun invoked => ?_
  split
  · exact safe_pure
  · refine obeys_bind (obeys_ownProcedures object superName) fun supers sees => ?_
    split
    · next c found =>
      exact safe_bind (safe_invoke lawful (sees c (List.mem_of_find?_eq_some found)))
        fun _ => safe_pure
    · exact obeys_fail _

/-- What is left to do for an object when the body of its class has been
executed. -/
def finish (below : Below) (object : ScopeId) (c : Class) (args : List Value) : Run Object := do
  match Callable.select? (← constructors object) args with
  | none => Run.fail (Cause.noMatchingConstructor c.name (args.map Value.kind))
  | some constructor => do
    let _ ← below.invokeWith (fun frame => Run.change (·.noteFrame object frame))
      constructor args false
    if c.parent.isSome then
      below.completeParent object c.name
    Run.change (·.dropCallables object superName)
    Run.change (·.dropCallables object constructorName)
    return ⟨object, c.name⟩

omit lawful in
theorem build_eq (object : ScopeId) (c : Class) (args : List Value) :
    below.build n object c args =
      (do let _ ← below.executeBlock n object c.body; below.finish object c args) :=
  rfl

/-- An object is finished under a law that allows the books to be kept. -/
theorem safe_finish_of_books {object : ScopeId}
    (supplied : Safe law pace n m
      (Run.change (·.addProcedure object (.ofScript constructorName [] [] object)))
      (Run.change (·.addProcedure object (.ofScript constructorName [] [] object))))
    (framed : ∀ frame, Safe law pace n m (Run.change (·.noteFrame object frame))
      (Run.change (·.noteFrame object frame)))
    (dropped : ∀ name, name = superName ∨ name = constructorName →
      Safe law pace n m (Run.change (·.dropCallables object name))
        (Run.change (·.dropCallables object name)))
    {c : Class} {args : List Value} :
    Safe law pace n m (below.finish object c args) (below'.finish object c args) := by
  refine obeys_bind (obeys_constructors supplied) fun callables sees => ?_
  split
  · exact obeys_fail _
  · next constructor selected =>
    have cleared : Safe law pace n m
        (do
          Run.change (·.dropCallables object superName)
          Run.change (·.dropCallables object constructorName)
          return (⟨object, c.name⟩ : Object))
        (do
          Run.change (·.dropCallables object superName)
          Run.change (·.dropCallables object constructorName)
          return (⟨object, c.name⟩ : Object)) :=
      safe_bind (dropped superName (.inl rfl)) fun _ =>
        safe_bind (dropped constructorName (.inr rfl)) fun _ => safe_pure
    refine safe_bind (safe_invokeWith lawful framed
      (sees constructor (List.mem_of_find?_eq_some selected))) fun _ => ?_
    dsimp only
    split
    · exact safe_bind (safe_completeParent lawful object c.name) fun _ => cleared
    · exact cleared

theorem safe_finish {object : ScopeId} (new : law.isNew object) {c : Class} {args : List Value} :
    Safe law pace n m (below.finish object c args) (below'.finish object c args) :=
  safe_finish_of_books lawful (safe_change (.offer object _) (.supply new) fun _ => rfl)
    (fun frame => safe_change (.noteFrame object frame) (.noteFrame new frame) fun _ => rfl)
    (fun name books => safe_change (.dropCallables object name) (.drop new books) fun _ => rfl)

theorem safe_build {object : ScopeId} (new : law.isNew object) {c : Class} {args : List Value}
    (own : c.Written allows) :
    Safe law pace n m (below.build n object c args) (below'.build m object c args) :=
  safe_bind (safe_executeBlock lawful object c.body own.body) fun _ => safe_finish lawful new

theorem safe_constructObject {c : Class} {args : List Value} (own : c.Written allows) :
    Safe law pace n m (below.constructObject n c args) (below'.constructObject m c args) := by
  refine safe_bind (safe_requireLive c.home c.name) fun _ => ?_
  refine safe_inChild fun object new => ?_
  dsimp only
  split
  · next parent isParent =>
    exact safe_bind (safe_installSupers new (own.parent isParent))
      fun _ => safe_build lawful new own
  · exact safe_build lawful new own

end Below

-- =================================================================== levels

theorem Run.constructs_of_deeper {c : Class} {levels : Nat} {args : List Value} {context : Context}
    {s t : Store} {o : Object}
    (eq : Run.deeper (Run.constructAt levels c args) context s = (.ok o, t)) :
    c.Constructs s o t := by
  unfold Run.deeper at eq
  split at eq
  · cases eq
  · exact ⟨levels, args, _, eq⟩

/-- A call that is not too deep uses a level, unless there is none left. -/
theorem Run.safe_deeper {α : Type} {run run' : Run α} (last : n = 0 → run = throw .exhausted)
    (last' : m = 0 → run' = throw .exhausted)
    (inner : ∀ n' m', n = n' + 1 → m = m' + 1 → Safe law pace n' m' run run') :
    Safe law pace n m (deeper run) (deeper run') := by
  intro context context' s fits written inv
  unfold deeper
  by_cases tooDeep : context.limit ≤ context.depth
  · rw [if_pos tooDeep]
    rcases pace.tooDeep fits tooDeep with ⟨apart, cut⟩ | ⟨tooDeep', same⟩
    · exact .cut written inv cut fun inStep => absurd inStep apart
    · rw [if_pos tooDeep', same]
      exact .fault written inv
  · rw [if_neg tooDeep]
    obtain ⟨room, next⟩ := pace.descend fits (Nat.lt_of_not_le tooDeep)
    rw [if_neg (Nat.not_le.2 room)]
    rcases next with ⟨none, cut⟩ | ⟨n', m', levels, levels', fits⟩
    · rw [last none]
      refine .cut written inv cut fun inStep => ?_
      rw [last' ((pace.together inStep fits).trans none)]
      rfl
    · exact inner n' m' levels levels' _ _ s fits written inv

namespace Run

variable (law pace)

/-- A block that is executed with one level more than the calls in it. -/
theorem safe_executeAt (lawful : Below.Lawful law pace n m (Below.upTo n) (Below.upTo m))
    (scope : ScopeId) {block : Block} (allowed : block.everywhere allows = true) :
    Safe law pace n m (executeAt (n + 1) scope block) (executeAt (m + 1) scope block) := by
  rw [executeAt, executeAt]
  exact obeys_holding (Below.safe_executeBlock lawful scope block allowed)

theorem safe_constructAt (lawful : Below.Lawful law pace n m (Below.upTo n) (Below.upTo m))
    {c : Class} (own : c.Written allows) (args : List Value) :
    Safe law pace n m (constructAt (n + 1) c args) (constructAt (m + 1) c args) := by
  rw [constructAt, constructAt]
  exact Below.safe_constructObject lawful own

end Run

/-- Calls that may nest so deep keep the law. -/
theorem Below.lawful_upTo (law : Law allows) (pace : Pace allows) (n m : Nat) :
    Below.Lawful law pace n m (Below.upTo n) (Below.upTo m) := by
  induction n generalizing m with
  | zero =>
    constructor
    · intro scope block allowed
      exact Run.safe_deeper (fun _ => rfl) (fun none => by rw [none]; rfl)
        fun n' _ none => by cases none
    · intro c args own
      exact Run.builds_of_safe (Run.safe_deeper (fun _ => rfl) (fun none => by rw [none]; rfl)
        fun n' _ none => by cases none) fun _ _ _ _ => Run.constructs_of_deeper
  | succ n ih =>
    constructor
    · intro scope block allowed
      refine Run.safe_deeper nofun (fun none => by rw [none]; rfl) fun n' m' levels levels' => ?_
      cases levels
      cases levels'
      exact Run.safe_executeAt law pace (ih m') scope allowed
    · intro c args own
      refine Run.builds_of_safe (Run.safe_deeper nofun (fun none => by rw [none]; rfl)
        fun n' m' levels levels' => ?_) fun _ _ _ _ => Run.constructs_of_deeper
      cases levels
      cases levels'
      exact Run.safe_constructAt law pace (ih m') own args

end RoutineScript
