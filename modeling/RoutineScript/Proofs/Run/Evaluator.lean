/-
The evaluator is active.

Whatever is evaluated, executed or constructed, and however it ends, it makes
changes one after the other, each with values that are known by then
(`Activity`), and the value it ends with is known at its end. The proof
follows the evaluator: expressions and blocks by induction on their syntax,
loops by induction on their rounds, and calls by induction on the levels that
they may still nest.
-/
import RoutineScript.Proofs.Run.Calls
import RoutineScript.Interpreter

namespace RoutineScript

open Mentions (within)

/-- What can be read from an object is known. -/
theorem Store.Knows.member {s : Store} {K : Set ScopeId} (known : s.Knows K) {v w : Value}
    {name : String} (eq : s.member v name = .ok w) : within K w := by
  unfold Store.member at eq
  split at eq
  · exact known.lookup eq
  · cases eq

namespace Below

open Run

variable {below : Below} {K : Set ScopeId}

-- ============================================================== expressions

mutual

theorem acts_evaluate (acts : below.Acts) (scope : ScopeId) (e : Expr) (K : Set ScopeId) :
    Run.Acts K (below.evaluate scope e) := by
  unfold evaluate
  cases e with
  | number x => exact acts_pure (within_number x)
  | string s => exact acts_pure (within_string s)
  | bool b => exact acts_pure (within_boolean b)
  | null => exact acts_pure within_null
  | list items =>
    refine acts_bind (acts_evaluateAll acts scope items K) fun L vs _ known => ?_
    exact acts_pure (within_list.2 known)
  | name x => exact acts_lookUp fun s v known eq => known.lookup eq
  | call f args =>
    refine acts_bind (acts_evaluateAll acts scope args K) fun L vs _ known => ?_
    exact acts_holdingValues (acts_callFunction acts known)
  | member object m =>
    refine acts_bind (acts_evaluate acts scope object K) fun L v _ _ => ?_
    exact acts_lookUp fun s w known eq => known.member eq
  | methodCall object m args =>
    refine acts_bind (acts_evaluate acts scope object K) fun L v _ known => ?_
    refine acts_bind (acts_ofResult fun o eq => within_expectObject known eq) fun M o _ _ => ?_
    refine acts_holding (acts_bind (acts_evaluateAll acts scope args M) fun N vs _ known => ?_)
    exact acts_holdingValues (acts_callFunction acts known)
  | index target position =>
    refine acts_bind (acts_evaluate acts scope target K) fun L t _ known => ?_
    refine acts_bind (acts_holdingValues (acts_evaluate acts scope position L)) fun M p sub _ => ?_
    exact acts_ofResult fun v eq => within_index (Mentions.mono sub known) eq
  | new c args =>
    refine acts_bind (acts_evaluateAll acts scope args K) fun L vs _ known => ?_
    refine acts_bind (acts_holdingValues (acts_instantiate acts known)) fun M o _ known => ?_
    exact acts_pure (within_object.2 known)
  | unary op operand =>
    refine acts_bind (acts_evaluate acts scope operand K) fun L v _ _ => ?_
    exact acts_ofResult fun w eq => within_unary eq
  | binary op left right =>
    refine acts_bind (acts_evaluate acts scope left K) fun L l _ known => ?_
    split
    · refine acts_bind (acts_ofResult fun _ _ => trivial) fun M b _ _ => ?_
      split
      · exact acts_pure (within_boolean b)
      · refine acts_bind (acts_evaluate acts scope right M) fun N r _ _ => ?_
        refine acts_bind (acts_ofResult fun _ _ => trivial) fun O b _ _ => ?_
        exact acts_pure (within_boolean b)
    · refine acts_bind (acts_holdingValues (acts_evaluate acts scope right L)) fun M r sub known' => ?_
      exact acts_ofResult fun v eq => within_binary (Mentions.mono sub known) known' eq

theorem acts_evaluateAll (acts : below.Acts) (scope : ScopeId) (es : List Expr)
    (K : Set ScopeId) : Run.Acts K (below.evaluateAll scope es) := by
  unfold evaluateAll
  cases es with
  | nil => exact acts_pure fun _ mem => by cases mem
  | cons e rest =>
    refine acts_bind (acts_evaluate acts scope e K) fun L v _ known => ?_
    refine acts_bind (acts_holdingValues (acts_evaluateAll acts scope rest L)) fun M vs sub known' => ?_
    refine acts_pure fun w mem => ?_
    rcases List.mem_cons.1 mem with rfl | mem
    · exact Mentions.mono sub known
    · exact known' w mem

end

variable (acts : below.Acts)

include acts

-- =================================================================== places

theorem acts_readPlace (scope : ScopeId) (place : Place) :
    Run.Acts K (below.readPlace scope place) := by
  cases place with
  | name x => exact acts_lookUp fun s v known eq => known.lookup eq
  | member object m =>
    refine acts_bind (acts_evaluate acts scope object K) fun L v _ _ => ?_
    exact acts_lookUp fun s w known eq => known.member eq

theorem acts_evaluateObject (scope : ScopeId) (e : Expr) :
    Run.Acts K (below.evaluateObject scope e) := by
  refine acts_bind (acts_evaluate acts scope e K) fun L v _ known => ?_
  exact acts_ofResult fun o eq => within_expectObject known eq

omit acts in
theorem acts_assign (id : ScopeId) (name : String) {v : Value} (known : within K v) :
    Run.Acts K (attempt (·.assign id name v)) :=
  acts_attempt (fun _ => .operation (.assign id name v)) (fun _ => rfl) (fun _ => known)
    (fun _ => rfl) fun _ _ _ _ => trivial

omit acts in
theorem acts_declare (id : ScopeId) (name : String) {v : Value} (known : within K v) :
    Run.Acts K (attempt (·.declare id name v)) :=
  acts_attempt (fun _ => .operation (.declare id name v)) (fun _ => rfl) (fun _ => known)
    (fun _ => rfl) fun _ _ _ _ => trivial

omit acts in
theorem acts_remove (id : ScopeId) (name : String) : Run.Acts K (attempt (·.remove id name)) :=
  acts_attempt (fun _ => .operation (.remove id name)) (fun _ => rfl) (fun _ => trivial)
    (fun _ => rfl) fun _ _ known eq => known.removed eq

theorem acts_assignPlace (scope : ScopeId) {v : Value} (known : within K v) (place : Place) :
    Run.Acts K (below.assignPlace scope v place) := by
  cases place with
  | name x => exact acts_assign scope x known
  | member object m =>
    refine acts_bind (acts_holdingValues (acts_evaluateObject acts scope object))
      fun L o sub _ => ?_
    exact acts_assign o.scope m (Mentions.mono sub known)

theorem acts_deletePlace (scope : ScopeId) (place : Place) :
    Run.Acts K (below.deletePlace scope place) := by
  cases place with
  | name x => exact acts_bind (acts_remove scope x) fun _ _ _ _ => acts_pure trivial
  | member object m =>
    refine acts_bind (acts_evaluateObject acts scope object) fun L o _ _ => ?_
    exact acts_bind (acts_remove o.scope m) fun _ _ _ _ => acts_pure trivial

-- ======================================================== simple statements

theorem acts_combine (scope : ScopeId) (place : Place) (op : BinaryOp) (e : Expr) :
    Run.Acts K (below.combine scope place op e) := by
  refine acts_bind (acts_readPlace acts scope place) fun L current _ known => ?_
  refine acts_bind (acts_holdingValues (acts_evaluate acts scope e L))
    fun M operand sub known' => ?_
  refine acts_bind (acts_ofResult fun v eq => within_binary (Mentions.mono sub known) known' eq)
    fun N updated _ known => ?_
  exact acts_holdingValues (acts_assignPlace acts scope known place)

theorem acts_callStatement (scope : ScopeId) (callee : Callee) (args : List Expr) :
    Run.Acts K (below.callStatement scope callee args) := by
  refine acts_bind (acts_evaluateAll acts scope args K) fun L vs _ known => ?_
  refine acts_holdingValues ?_
  cases callee with
  | name f => exact acts_bind (acts_callProcedure acts known) fun _ _ _ _ => acts_pure trivial
  | method object m =>
    refine acts_bind (acts_evaluateObject acts scope object) fun M o sub _ => ?_
    refine acts_bind (acts_holding (acts_callProcedure acts (Mentions.mono sub known)))
      fun _ _ _ _ => acts_pure trivial

theorem acts_resolveClass (scope : ScopeId) (e : Expr) :
    Run.Acts K (below.resolveClass scope e) := by
  cases e with
  | name c => exact acts_findClass
  | member object c =>
    exact acts_bind (acts_evaluateObject acts scope object) fun _ _ _ _ => acts_findClass
  | _ => exact acts_fail _

theorem acts_declareClass (scope : ScopeId) (name : String) (parent : Option Expr)
    (body : Block) : Run.Acts K (below.declareClass scope name parent body) := by
  have declared : ∀ (L : Set ScopeId) (parent : Option Class), Run.Acts L (change (·.declareClass
      { name, parent, body, home := scope, arities := Block.arities body constructorName })) :=
    fun L parent => acts_change (.declareClass _) rfl trivial
  refine acts_bind (acts_ofResult fun _ _ => trivial) fun L _ _ _ => ?_
  cases parent with
  | none => exact declared L none
  | some e =>
    exact acts_bind (acts_resolveClass acts scope e) fun M c _ _ => declared M (some c)

theorem acts_evaluateNumber (scope : ScopeId) (e : Expr) :
    Run.Acts K (below.evaluateNumber scope e) :=
  acts_bind (acts_evaluate acts scope e K) fun _ _ _ _ => acts_ofResult fun _ _ => trivial

theorem acts_evaluateBool (scope : ScopeId) (e : Expr) :
    Run.Acts K (below.evaluateBool scope e) :=
  acts_bind (acts_evaluate acts scope e K) fun _ _ _ _ => acts_ofResult fun _ _ => trivial

omit acts in
theorem acts_inChild {α : Type} [Mentions α] {scope : ScopeId} {run : ScopeId → Run α}
    (h : ∀ L child, Run.Acts L (run child)) : Run.Acts K (inChild scope run) :=
  acts_bind (acts_newChild scope) fun L child _ _ => acts_holding (h L child)

-- ==================================================================== loops

omit acts in
theorem acts_repeatWhile {condition : Run Bool} {body : Run Flow}
    (tested : ∀ L, Run.Acts L condition) (executed : ∀ L, Run.Acts L body) (patience : Nat) :
    ∀ K, Run.Acts K (repeatWhile condition body patience) := by
  induction patience with
  | zero => exact fun K => acts_throw _
  | succ patience ih =>
    intro K
    refine acts_bind (tested K) fun L holds _ _ => ?_
    split
    · refine acts_bind (executed L) fun M flow _ ended => ?_
      cases flow with
      | finished => exact ih M
      | returned v => exact acts_pure ended
    · exact acts_pure fun _ h => by cases h

omit acts in
theorem acts_repeatFor {body : Nat → Run Flow} (executed : ∀ L round, Run.Acts L (body round))
    (rounds : Nat) : ∀ first K, Run.Acts K (repeatFor body first rounds) := by
  induction rounds with
  | zero => exact fun first K => acts_pure fun _ h => by cases h
  | succ rounds ih =>
    intro first K
    refine acts_bind (executed K first) fun L flow _ ended => ?_
    cases flow with
    | finished => exact ih (first + 1) L
    | returned v => exact acts_pure ended

-- =================================================================== blocks

omit acts in
theorem acts_finished : Run.Acts K (pure Flow.finished) :=
  acts_pure fun _ h => by cases h

omit acts in
/-- What is done for its effect alone. -/
theorem acts_doing {run : Run Unit} (h : Run.Acts K run) :
    Run.Acts K (do run; return Flow.finished) :=
  acts_bind h fun _ _ _ _ => acts_finished

omit acts in
mutual

theorem acts_execute (acts : below.Acts) (patience : Nat) (scope : ScopeId) (statement : Stmt)
    (K : Set ScopeId) : Run.Acts K (below.execute patience scope statement) := by
  unfold execute
  cases statement with
  | assign place e =>
    refine acts_bind (acts_evaluate acts scope e K) fun L v _ known => ?_
    exact acts_doing (acts_assignPlace acts scope known place)
  | compound place op e => exact acts_doing (acts_combine acts scope place op e)
  | step place delta =>
    refine acts_bind (acts_readPlace acts scope place) fun L v _ _ => ?_
    refine acts_bind (acts_ofResult fun _ _ => trivial) fun M current _ _ => ?_
    exact acts_doing (acts_assignPlace acts scope (within_number _) place)
  | delete place => exact acts_doing (acts_deletePlace acts scope place)
  | make name => exact acts_doing (acts_declare scope name within_null)
  | call callee args => exact acts_doing (acts_callStatement acts scope callee args)
  | «return» value =>
    cases value with
    | none =>
      refine acts_pure fun v eq => ?_
      cases eq
      exact within_null
    | some e =>
      refine acts_bind (acts_evaluate acts scope e K) fun L v _ known => acts_pure fun w eq => ?_
      cases eq
      exact known
  | branch arms => exact acts_executeArms acts patience scope arms K
  | whileLoop condition body =>
    exact acts_repeatWhile (fun L => acts_evaluateBool acts scope condition)
      (fun L => acts_inChild fun M child => acts_executeBlock acts patience child body M) patience K
  | forLoop count body =>
    refine acts_bind (acts_evaluateNumber acts scope count) fun L count _ _ => ?_
    exact acts_repeatFor
      (fun M _ => acts_inChild fun N child => acts_executeBlock acts patience child body N) _ 0 L
  | countLoop name start stop body =>
    refine acts_bind (acts_evaluateNumber acts scope start) fun L start _ _ => ?_
    refine acts_bind (acts_evaluateNumber acts scope stop) fun M stop _ _ => ?_
    refine acts_repeatFor (fun N round => acts_inChild fun O child => ?_) _ 0 M
    refine acts_bind (acts_declare child name (within_number _)) fun P _ _ _ => ?_
    exact acts_executeBlock acts patience child body P
  | attempt body handler =>
    cases handler with
    | none =>
      exact acts_handling (acts_executeBlock acts patience scope body K) fun L _ => acts_finished
    | some handler =>
      exact acts_handling (acts_executeBlock acts patience scope body K)
        fun L _ => acts_executeBlock acts patience scope handler L
  | thread body =>
    refine acts_bind (acts_handling (acts_inChild fun L child => ?_) fun _ _ => acts_finished)
      fun _ _ _ _ => acts_finished
    exact acts_apart (acts_executeBlock acts patience child body L)
  | define name params body =>
    exact acts_doing (acts_attempt (fun _ => .define scope name params body) (fun _ => rfl)
      (fun _ => trivial) (fun _ => rfl) fun _ _ _ _ => trivial)
  | declareClass name parent body => exact acts_doing (acts_declareClass acts scope name parent body)
  | invalid fault => exact acts_fail fault

theorem acts_executeBlock (acts : below.Acts) (patience : Nat) (scope : ScopeId)
    (block : List (Located Stmt)) (K : Set ScopeId) :
    Run.Acts K (below.executeBlock patience scope block) := by
  unfold executeBlock
  cases block with
  | nil => exact acts_finished
  | cons statement rest =>
    obtain ⟨line, statement⟩ := statement
    refine acts_bind (acts_onLine (acts_execute acts patience scope statement K))
      fun L flow _ ended => ?_
    cases flow with
    | finished => exact acts_executeBlock acts patience scope rest L
    | returned v => exact acts_pure ended

theorem acts_executeArms (acts : below.Acts) (patience : Nat) (scope : ScopeId)
    (arms : List (Option Expr × List (Located Stmt))) (K : Set ScopeId) :
    Run.Acts K (below.executeArms patience scope arms) := by
  unfold executeArms
  cases arms with
  | nil => exact acts_finished
  | cons arm rest =>
    obtain ⟨condition, body⟩ := arm
    cases condition with
    | none => exact acts_inChild fun L child => acts_executeBlock acts patience child body L
    | some condition =>
      refine acts_bind (acts_evaluateBool acts scope condition) fun L holds _ _ => ?_
      split
      · exact acts_inChild fun M child => acts_executeBlock acts patience child body M
      · exact acts_executeArms acts patience scope rest L

end

-- ============================================================= construction

omit acts in
theorem acts_installSupers (object : ScopeId) (parent : Class) :
    Run.Acts K (installSupers object parent) := by
  -- each overload is a change of its own
  have offered : ∀ (arities : List Nat) (s : Store), ∃ changes,
      Activity K s changes K (arities.foldl
        (fun s arity => s.addProcedure object (.ofSuper arity parent object)) s) := by
    intro arities
    induction arities with
    | nil => exact fun s => ⟨[], .done⟩
    | cons arity arities ih =>
      intro s
      obtain ⟨changes, activity⟩ := ih (s.addProcedure object (.ofSuper arity parent object))
      exact ⟨_, .step (c := .offer object (.ofSuper arity parent object)) rfl
        (within_ofSuper arity parent object) activity⟩
  intro context s known
  obtain ⟨changes, activity⟩ := offered parent.superArities s
  exact ⟨changes, K, activity, fun _ _ => trivial⟩

omit acts in
theorem acts_ownProcedures (object : ScopeId) (name : String) :
    Run.Acts K (ownProcedures object name) := by
  exact acts_look fun s known c mem =>
    known.callable object c (Scope.mem_callables_of_ownProcedure mem)

omit acts in
theorem acts_constructors (object : ScopeId) : Run.Acts K (constructors object) := by
  refine acts_bind (acts_ownProcedures object constructorName) fun L declared _ known => ?_
  split
  · have supplied := within_ofScript (K := L) constructorName [] [] object
    refine acts_bind (acts_change (.offer object _) rfl supplied) fun M _ _ _ => ?_
    refine acts_pure fun c mem => ?_
    rw [List.mem_singleton.1 mem]
    exact within_ofScript constructorName [] [] object
  · exact acts_pure known

theorem acts_completeParent (object : ScopeId) (className : String) :
    Run.Acts K (below.completeParent object className) := by
  refine acts_bind (acts_look fun _ _ => trivial) fun L invoked _ _ => ?_
  split
  · exact acts_pure trivial
  · refine acts_bind (acts_ownProcedures object superName) fun M supers _ known => ?_
    split
    · next c found =>
      have trusted : within M c := known c (List.mem_of_find?_eq_some found)
      exact acts_bind (acts_invoke acts trusted fun _ mem => by cases mem)
        fun _ _ _ _ => acts_pure trivial
    · exact acts_fail _

/-- Building ends with the object that is built. -/
theorem acts_build {patience : Nat} {object : ScopeId} {c : Class} {args : List Value}
    (known : within K args) :
    ActsTo (fun _ (o : Object) => o.scope = object) K (below.build patience object c args) := by
  refine acts_bind (acts_executeBlock acts patience object c.body K) fun L _ sub _ => ?_
  refine acts_bind (acts_constructors object) fun M callables sub' trusted => ?_
  split
  · exact acts_fail _
  · next constructor selected =>
    have known : within M args := Mentions.mono sub' (Mentions.mono sub known)
    have trusted := trusted constructor (List.mem_of_find?_eq_some selected)
    have framed : ∀ N frame, Run.Acts N (Run.change (·.noteFrame object frame)) :=
      fun N frame => acts_change (.noteFrame object frame) rfl trivial
    have dropped : ∀ N, ActsTo (fun _ (o : Object) => o.scope = object) N (do
        Run.change (·.dropCallables object superName)
        Run.change (·.dropCallables object constructorName)
        return (⟨object, c.name⟩ : Object)) := by
      intro N
      refine acts_bind (acts_change (.dropCallables object superName) rfl trivial)
        fun O _ _ _ => ?_
      exact acts_bind (acts_change (.dropCallables object constructorName) rfl trivial)
        fun P _ _ _ => acts_pure rfl
    refine acts_bind (acts_invokeWith acts framed trusted known) fun N _ _ _ => ?_
    dsimp only
    split
    · exact acts_bind (acts_completeParent acts object c.name) fun O _ _ _ => dropped O
    · exact dropped N

/-- An object is constructed in a scope of its own. -/
theorem constructs_constructObject {patience : Nat} {c : Class} {args : List Value}
    (known : within K args) : Run.Constructs K (below.constructObject patience c args) := by
  refine constructs_requireLive c.home c.name (constructs_newChild fun object => acts_holding ?_)
  dsimp only
  split
  · exact acts_bind (acts_installSupers object _)
      fun L _ sub _ => acts_build acts (Mentions.mono sub known)
  · exact acts_build acts known

end Below

-- =================================================================== levels

mutual

theorem Run.acts_executeAt (levels : Nat) (K : Set ScopeId) (scope : ScopeId) (block : Block) :
    Run.Acts K (Run.executeAt levels scope block) := by
  unfold executeAt
  cases levels with
  | zero => exact acts_throw _
  | succ levels =>
    exact acts_holding (Below.acts_executeBlock
      ⟨Run.acts_executeAt levels, Run.constructs_constructAt levels⟩ levels scope block K)

theorem Run.constructs_constructAt (levels : Nat) (K : Set ScopeId) (c : Class)
    (args : List Value) (known : within K args) :
    Run.Constructs K (Run.constructAt levels c args) := by
  unfold constructAt
  cases levels with
  | zero => exact fun _ _ _ => Or.inl ⟨_, rfl⟩
  | succ levels =>
    exact Below.constructs_constructObject
      ⟨Run.acts_executeAt levels, Run.constructs_constructAt levels⟩ known

end

theorem Below.acts_upTo (levels : Nat) : (Below.upTo levels).Acts :=
  ⟨Run.acts_executeAt levels, Run.constructs_constructAt levels⟩

-- ======================================================== what a host asks

namespace Interpreter

open Run

variable {K : Set ScopeId} (levels : Nat) (scope : ScopeId)

theorem acts_runProgram (program : Block) : Run.Acts K (runProgram levels scope program) :=
  acts_bind (acts_executeAt levels K scope program) fun _ _ _ _ => acts_pure trivial

theorem acts_runSource (source : String) : Run.Acts K (runSource levels scope source) :=
  acts_bind (acts_ofResult fun _ _ _ _ => trivial) fun _ program _ _ =>
    acts_runProgram levels scope program

theorem acts_evaluateText (text : String) : Run.Acts K (evaluateText levels scope text) :=
  acts_bind (acts_ofResult fun _ _ => trivial) fun L e _ _ =>
    Below.acts_evaluate (Below.acts_upTo levels) scope e L

theorem acts_instantiate (className : String) {args : List Value} (known : within K args) :
    Run.Acts K (instantiate levels scope className args) :=
  acts_holdingValues (Below.acts_instantiate (Below.acts_upTo levels) known)

theorem acts_callMember (object : Object) (name : String) {args : List Value}
    (known : within K args) : Run.Acts K (callMember levels object name args) :=
  acts_holding (acts_holdingValues (Below.acts_callMember (Below.acts_upTo levels) known))

end Interpreter

end RoutineScript
