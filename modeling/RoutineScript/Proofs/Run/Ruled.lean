/-
The evaluator keeps to every regime.

Expressions may be evaluated anywhere, for they change a store only by what
they call. A statement is executed where that is permitted; one that runs its
bodies in scopes of their own may be executed in any shelter, for it does
nothing in the scope itself. As everywhere, expressions and blocks are treated
by induction on their syntax, loops by induction on their rounds, and calls by
induction on the levels that they may still nest.
-/
import RoutineScript.Proofs.Run.Abiding
import RoutineScript.Proofs.Run.Lawful
import RoutineScript.Proofs.Run.Host

namespace RoutineScript

open Mentions (within)

namespace Below

open Run

variable {R : Regime} {below : Below}

-- ============================================================== expressions

mutual

theorem abides_evaluate (abiding : below.Abiding R) (s : Store) (scope : ScopeId) (e : Expr) :
    Abides R s (below.evaluate scope e) := by
  unfold evaluate
  cases e with
  | number x => exact abides_pure (within_number x)
  | string text => exact abides_pure (within_string text)
  | bool b => exact abides_pure (within_boolean b)
  | null => exact abides_pure within_null
  | list items =>
    refine abides_bind (abides_evaluateAll abiding s scope items) fun t vs _ known => ?_
    exact abides_pure (within_list.2 known)
  | name x => exact abides_lookUp fun rules v eq => rules.holds.knows.lookup eq
  | call f args =>
    refine abides_bind (abides_evaluateAll abiding s scope args) fun t vs _ known => ?_
    exact abides_holding (abides_callFunction abiding known)
  | member object m =>
    refine abides_bind (abides_evaluate abiding s scope object) fun t v _ _ => ?_
    exact abides_lookUp fun rules w eq => rules.holds.knows.member eq
  | methodCall object m args =>
    refine abides_bind (abides_evaluate abiding s scope object) fun t v _ known => ?_
    refine abides_bind (abides_ofResult fun o eq => within_expectObject known eq) fun u o _ _ => ?_
    refine abides_holding
      (abides_bind (abides_evaluateAll abiding u scope args) fun v vs _ known => ?_)
    exact abides_holding (abides_callFunction abiding known)
  | index target position =>
    refine abides_bind (abides_evaluate abiding s scope target) fun t v _ known => ?_
    refine abides_bind (abides_holding (abides_evaluate abiding t scope position))
      fun u p older _ => ?_
    exact abides_ofResult fun w eq => within_index (Mentions.mono (R.free_mono older) known) eq
  | new c args =>
    refine abides_bind (abides_evaluateAll abiding s scope args) fun t vs _ known => ?_
    refine abides_bind (abides_holding (abides_instantiate abiding known)) fun u o _ known => ?_
    exact abides_pure (within_object.2 known)
  | unary op operand =>
    refine abides_bind (abides_evaluate abiding s scope operand) fun t v _ _ => ?_
    exact abides_ofResult fun w eq => within_unary eq
  | binary op left right =>
    refine abides_bind (abides_evaluate abiding s scope left) fun t l _ known => ?_
    split
    · refine abides_bind (abides_ofResult fun _ _ => trivial)
        fun u b _ _ => ?_
      split
      · exact abides_pure (within_boolean b)
      · refine abides_bind (abides_evaluate abiding u scope right) fun v r _ _ => ?_
        refine abides_bind (abides_ofResult fun _ _ => trivial)
          fun w b _ _ => ?_
        exact abides_pure (within_boolean b)
    · refine abides_bind (abides_holding (abides_evaluate abiding t scope right))
        fun u r older known' => ?_
      exact abides_ofResult fun v eq =>
        within_binary (Mentions.mono (R.free_mono older) known) known' eq

theorem abides_evaluateAll (abiding : below.Abiding R) (s : Store) (scope : ScopeId)
    (es : List Expr) : Abides R s (below.evaluateAll scope es) := by
  unfold evaluateAll
  cases es with
  | nil => exact abides_pure nofun
  | cons e rest =>
    refine abides_bind (abides_evaluate abiding s scope e) fun t v _ known => ?_
    refine abides_bind (abides_holding (abides_evaluateAll abiding t scope rest))
      fun u vs older known' => ?_
    refine abides_pure fun w mem => ?_
    rcases List.mem_cons.1 mem with rfl | mem
    · exact Mentions.mono (R.free_mono older) known
    · exact known' w mem

end

variable (abiding : below.Abiding R) {s : Store} {scope : ScopeId}

include abiding

-- =================================================================== places

theorem abides_readPlace (place : Place) : Abides R s (below.readPlace scope place) := by
  cases place with
  | name x => exact abides_lookUp fun rules v eq => rules.holds.knows.lookup eq
  | member object m =>
    refine abides_bind (abides_evaluate abiding s scope object) fun t v _ _ => ?_
    exact abides_lookUp fun rules w eq => rules.holds.knows.member eq

theorem abides_evaluateObject (e : Expr) : Abides R s (below.evaluateObject scope e) := by
  refine abides_bind (abides_evaluate abiding s scope e) fun t v _ known => ?_
  exact abides_ofResult fun o eq => within_expectObject known eq

omit abiding in
theorem abides_assign (name : String) {v : Value} (mayBind : R.MayBind s scope)
    (known : within (R.free s) v) : Abides R s (attempt (·.assign scope name v)) :=
  abides_attempt (.operation (.assign scope name v)) (.assign name mayBind known) rfl
    fun _ _ _ => trivial

omit abiding in
theorem abides_declare (name : String) {v : Value} (mayBind : R.MayBind s scope)
    (known : within (R.free s) v) : Abides R s (attempt (·.declare scope name v)) :=
  abides_attempt (.operation (.declare scope name v)) (.declare name mayBind known) rfl
    fun _ _ _ => trivial

omit abiding in
theorem abides_remove (name : String) (mayBind : R.MayBind s scope) :
    Abides R s (attempt (·.remove scope name)) := by
  refine abides_attempt (.operation (.remove scope name)) (.remove name mayBind) rfl
    fun rules v eq => ?_
  exact Mentions.mono (R.free_mono (Store.older_apply _ s)) (rules.holds.knows.removed eq)

/-- A member is assigned in its object, which is free. -/
theorem abides_assignPlace {v : Value} (mayBind : R.MayBind s scope)
    (known : within (R.free s) v) (place : Place) :
    Abides R s (below.assignPlace scope v place) := by
  cases place with
  | name x => exact abides_assign x mayBind known
  | member object m =>
    refine abides_bind (abides_holding (abides_evaluateObject abiding object))
      fun t o older free => ?_
    exact abides_assign m (.inl free) (Mentions.mono (R.free_mono older) known)

theorem abides_deletePlace (mayBind : R.MayBind s scope) (place : Place) :
    Abides R s (below.deletePlace scope place) := by
  cases place with
  | name x => exact abides_bind (abides_remove x mayBind) fun _ _ _ _ => abides_pure trivial
  | member object m =>
    refine abides_bind (abides_evaluateObject abiding object) fun t o _ free => ?_
    exact abides_bind (abides_remove m (.inl free)) fun _ _ _ _ => abides_pure trivial

-- ======================================================== simple statements

/-- A place is combined with a value where it may be assigned. -/
theorem abides_combine_of {place : Place}
    (assigns : ∀ t v, s.Older t → within (R.free t) v → Abides R t (below.assignPlace scope v place))
    (op : BinaryOp) (e : Expr) : Abides R s (below.combine scope place op e) := by
  refine abides_bind (abides_readPlace abiding place) fun t current older known => ?_
  refine abides_bind (abides_holding (abides_evaluate abiding t scope e))
    fun u operand older' known' => ?_
  refine abides_bind (abides_ofResult fun v eq =>
    within_binary (Mentions.mono (R.free_mono older') known) known' eq) fun v updated older'' known => ?_
  exact abides_holding (assigns v updated (older.trans (older'.trans older'')) known)

theorem abides_combine (mayBind : R.MayBind s scope) (place : Place) (op : BinaryOp)
    (e : Expr) : Abides R s (below.combine scope place op e) :=
  abides_combine_of abiding (fun _ _ older known =>
    abides_assignPlace abiding (mayBind.mono older) known place) op e

/-- A call changes nothing by itself, so it may stand anywhere. -/
theorem abides_callStatement (callee : Callee) (args : List Expr) :
    Abides R s (below.callStatement scope callee args) := by
  refine abides_bind (abides_evaluateAll abiding s scope args) fun t vs _ known => ?_
  refine abides_holding ?_
  cases callee with
  | name f =>
    exact abides_bind (abides_callProcedure abiding known) fun _ _ _ _ => abides_pure trivial
  | method object m =>
    refine abides_bind (abides_evaluateObject abiding object) fun u o older _ => ?_
    have known : within (R.free u) vs := Mentions.mono (R.free_mono older) known
    exact abides_bind (abides_holding (abides_callProcedure abiding known))
      fun _ _ _ _ => abides_pure trivial

theorem abides_resolveClass (e : Expr) :
    AbidesTo R s (fun t c => ∀ place ∈ c.homes, place ∈ R.home t) (below.resolveClass scope e) := by
  cases e with
  | name c => exact abides_findClass
  | member object c =>
    exact abides_bind (abides_evaluateObject abiding object) fun _ _ _ _ => abides_findClass
  | _ => exact abides_fail _

/-- A class is declared where that is survived, below a parent that is at
home. -/
theorem abides_declareClass_of
    (declares : ∀ t (c : Class), s.Older t → c.home = scope →
      (∀ parent, c.parent = some parent → ∀ place ∈ parent.homes, place ∈ R.home t) →
      Abides R t (change (·.declareClass c)))
    (name : String) (parent : Option Expr) (body : Block) :
    Abides R s (below.declareClass scope name parent body) := by
  refine abides_bind (abides_ofResult fun _ _ => trivial)
    fun t _ older _ => ?_
  cases parent with
  | none => exact declares t _ older rfl nofun
  | some e =>
    refine abides_bind (abides_resolveClass abiding e) fun u c older' atHome => ?_
    refine declares u _ (older.trans older') rfl ?_
    rintro _ ⟨⟩
    exact atHome

theorem abides_declareClass (works : scope ∈ R.work s) (name : String) (parent : Option Expr)
    (body : Block) : Abides R s (below.declareClass scope name parent body) := by
  refine abides_declareClass_of abiding (fun t c older here atHome => ?_) name parent body
  have works : c.home ∈ R.work t := here ▸ R.work_mono older works
  refine abides_change (.declareClass c) (.declareClass works fun place mem => ?_)
  rw [Class.homes_eq] at mem
  rcases List.mem_cons.1 mem with rfl | mem
  · exact Territory.home_of_work works
  · cases isParent : c.parent with
    | none =>
      rw [isParent] at mem
      cases mem
    | some parent =>
      rw [isParent] at mem
      exact atHome parent isParent place mem

theorem abides_evaluateNumber (e : Expr) : Abides R s (below.evaluateNumber scope e) :=
  abides_bind (abides_evaluate abiding s scope e) fun _ _ _ _ => abides_ofResult fun _ _ => trivial

theorem abides_evaluateBool (e : Expr) : Abides R s (below.evaluateBool scope e) :=
  abides_bind (abides_evaluate abiding s scope e) fun _ _ _ _ => abides_ofResult fun _ _ => trivial

omit abiding in
theorem abides_inChild {α : Type} [Mentions α] {run : ScopeId → Run α} {plain : Bool}
    (shelters : R.Shelters s scope plain)
    (h : ∀ t child, s.Older t → R.Permits t child plain → Abides R t (run child)) :
    Abides R s (inChild scope run) :=
  abides_bind (abides_newChild shelters) fun t child older permits =>
    abides_holding (h t child older permits)

-- ==================================================================== loops

omit abiding in
theorem abides_repeatWhile {condition : Run Bool} {body : Run Flow}
    (tested : ∀ t, s.Older t → Abides R t condition)
    (executed : ∀ t, s.Older t → Abides R t body) (patience : Nat) :
    Abides R s (repeatWhile condition body patience) := by
  induction patience generalizing s with
  | zero => exact abides_throw _
  | succ patience ih =>
    refine abides_bind (tested s (.refl s)) fun t holds older _ => ?_
    split
    · refine abides_bind (executed t older) fun u flow older' ended => ?_
      have later := older.trans older'
      cases flow with
      | finished =>
        exact ih (fun v after => tested v (later.trans after))
          fun v after => executed v (later.trans after)
      | returned v => exact abides_pure ended
    · exact abides_pure nofun

omit abiding in
theorem abides_repeatFor {body : Nat → Run Flow}
    (executed : ∀ t round, s.Older t → Abides R t (body round)) (first rounds : Nat) :
    Abides R s (repeatFor body first rounds) := by
  induction rounds generalizing s first with
  | zero => exact abides_pure nofun
  | succ rounds ih =>
    refine abides_bind (executed s first (.refl s)) fun t flow older ended => ?_
    cases flow with
    | finished => exact ih (fun u round after => executed u round (older.trans after)) (first + 1)
    | returned v => exact abides_pure ended

-- =================================================================== blocks

omit abiding in
theorem abides_finished : Abides R s (pure Flow.finished) :=
  abides_pure nofun

omit abiding in
/-- What is done for its effect alone. -/
theorem abides_doing {run : Run Unit} (h : Abides R s run) :
    Abides R s (do run; return Flow.finished) :=
  abides_bind h fun _ _ _ _ => abides_finished

/-- What is returned has been evaluated, or is nothing. -/
theorem abides_return (patience : Nat) (value : Option Expr) :
    Abides R s (below.execute patience scope (.return value)) := by
  unfold execute
  cases value with
  | none =>
    refine abides_pure fun v eq => ?_
    cases eq
    exact within_null
  | some e =>
    refine abides_bind (abides_evaluate abiding s scope e) fun t v _ known =>
      abides_pure fun w eq => ?_
    cases eq
    exact known

omit abiding in
/-- The arms of a branch, whose bodies run in scopes of their own. -/
theorem abides_inChild_block {patience : Nat} {body : Block} {plain : Bool}
    (shelters : R.Shelters s scope plain)
    (part : plain = true → body.everywhere Stmt.isPlain = true)
    (executed : ∀ t child, R.Permits t child (body.everywhere Stmt.isPlain) →
      Abides R t (below.executeBlock patience child body)) :
    Abides R s (inChild scope fun child => below.executeBlock patience child body) :=
  abides_inChild shelters fun t child _ permits => executed t child (permits.mono (.refl t) part)

omit abiding in
mutual

theorem abides_execute (abiding : below.Abiding R) (patience : Nat) (s : Store) (scope : ScopeId)
    (statement : Stmt) (shelters : R.Shelters s scope (statement.everywhere Stmt.isPlain))
    (permits : statement.isBlock = false →
      R.Permits s scope (statement.everywhere Stmt.isPlain)) :
    Abides R s (below.execute patience scope statement) := by
  unfold execute
  cases statement with
  | assign place e =>
    refine abides_bind (abides_evaluate abiding s scope e) fun t v older known => ?_
    exact abides_doing (abides_assignPlace abiding ((permits rfl).mayBind.mono older) known place)
  | compound place op e =>
    exact abides_doing (abides_combine abiding (permits rfl).mayBind place op e)
  | step place delta =>
    refine abides_bind (abides_readPlace abiding place) fun t v older _ => ?_
    refine abides_bind (abides_ofResult fun _ _ => trivial)
      fun u current older' _ => ?_
    exact abides_doing (abides_assignPlace abiding
      ((permits rfl).mayBind.mono (older.trans older')) (within_number _) place)
  | delete place => exact abides_doing (abides_deletePlace abiding (permits rfl).mayBind place)
  | make name => exact abides_doing (abides_declare name (permits rfl).mayBind within_null)
  | call callee args => exact abides_doing (abides_callStatement abiding callee args)
  | «return» value =>
    have returns : Abides R s (below.execute patience scope (.return value)) :=
      abides_return abiding patience value
    unfold execute at returns
    exact returns
  | branch arms =>
    exact abides_executeArms abiding patience s scope arms
      (shelters.mono (.refl s) Stmt.arms_of_everywhere)
  | whileLoop condition body =>
    refine abides_repeatWhile (fun t _ => abides_evaluateBool abiding condition)
      (fun t older => ?_) patience
    exact abides_inChild_block (shelters.mono older id)
      (fun plain => Stmt.body_of_everywhere plain (.head _)) fun u child permits =>
      abides_executeBlock abiding patience u child body permits
  | forLoop count body =>
    refine abides_bind (abides_evaluateNumber abiding count) fun t count older _ => ?_
    refine abides_repeatFor (fun u _ older' => ?_) 0 _
    exact abides_inChild_block (shelters.mono (older.trans older') id)
      (fun plain => Stmt.body_of_everywhere plain (.head _)) fun v child permits =>
      abides_executeBlock abiding patience v child body permits
  | countLoop name start stop body =>
    refine abides_bind (abides_evaluateNumber abiding start) fun t start older _ => ?_
    refine abides_bind (abides_evaluateNumber abiding stop) fun u stop older' _ => ?_
    refine abides_repeatFor (fun v round older'' => ?_) 0 _
    have later := older.trans (older'.trans older'')
    refine abides_inChild (shelters.mono later id) fun w child _ permits => ?_
    refine abides_bind (abides_declare name permits.mayBind (within_number _)) fun x _ born _ => ?_
    exact abides_executeBlock abiding patience x child body
      (permits.mono born fun plain => Stmt.body_of_everywhere plain (.head _))
  | attempt body handler =>
    have permits := permits rfl
    cases handler with
    | none =>
      exact abides_handling (abides_executeBlock abiding patience s scope body
          (permits.mono (.refl s) fun plain => Stmt.body_of_everywhere plain (.head _)))
        fun _ _ => abides_finished
    | some handler =>
      exact abides_handling (abides_executeBlock abiding patience s scope body
          (permits.mono (.refl s) fun plain => Stmt.body_of_everywhere plain (.head _)))
        fun t older => abides_executeBlock abiding patience t scope handler
          (permits.mono older fun plain => Stmt.body_of_everywhere plain (.tail _ (.head _)))
  | thread body =>
    refine abides_bind (abides_handling (abides_inChild shelters fun t child _ permits => ?_)
      fun _ _ => abides_finished) fun _ _ _ _ => abides_finished
    exact abides_apart (abides_executeBlock abiding patience t child body
      (permits.mono (.refl t) fun plain => Stmt.body_of_everywhere plain (.head _)))
  | define name params body =>
    -- neither a definition nor the declaration of a class is plain
    exact abides_doing (abides_attempt (.define scope name params body)
      (.define name params body (permits rfl).works) rfl fun _ _ _ => trivial)
  | declareClass name parent body =>
    exact abides_doing (abides_declareClass abiding (permits rfl).works name parent body)
  | invalid fault => exact abides_fail fault

theorem abides_executeBlock (abiding : below.Abiding R) (patience : Nat) (s : Store)
    (scope : ScopeId) (block : List (Located Stmt))
    (permits : R.Permits s scope (Stmt.blockEverywhere Stmt.isPlain block)) :
    Abides R s (below.executeBlock patience scope block) := by
  unfold executeBlock
  cases block with
  | nil => exact abides_finished
  | cons statement rest =>
    obtain ⟨line, statement⟩ := statement
    rw [Stmt.blockEverywhere] at permits
    have first : R.Permits s scope (statement.everywhere Stmt.isPlain) :=
      permits.mono (.refl s) fun plain => (Bool.and_eq_true_iff.1 plain).1
    refine abides_bind (abides_onLine (abides_execute abiding patience s scope statement
      first.shelters fun _ => first)) fun t flow older ended => ?_
    cases flow with
    | finished =>
      exact abides_executeBlock abiding patience t scope rest
        (permits.mono older fun plain => (Bool.and_eq_true_iff.1 plain).2)
    | returned v => exact abides_pure ended

theorem abides_executeArms (abiding : below.Abiding R) (patience : Nat) (s : Store)
    (scope : ScopeId) (arms : List (Option Expr × List (Located Stmt)))
    (shelters : R.Shelters s scope (Stmt.armsEverywhere Stmt.isPlain arms)) :
    Abides R s (below.executeArms patience scope arms) := by
  unfold executeArms
  cases arms with
  | nil => exact abides_finished
  | cons arm rest =>
    obtain ⟨condition, body⟩ := arm
    rw [Stmt.armsEverywhere] at shelters
    have inside : ∀ t, s.Older t →
        Abides R t (inChild scope fun child => below.executeBlock patience child body) :=
      fun t older => abides_inChild_block (shelters.mono older id)
        (fun plain => (Bool.and_eq_true_iff.1 plain).1) fun u child permits =>
          abides_executeBlock abiding patience u child body permits
    cases condition with
    | none => exact inside s (.refl s)
    | some condition =>
      refine abides_bind (abides_evaluateBool abiding condition) fun t holds older _ => ?_
      split
      · exact inside t older
      · exact abides_executeArms abiding patience t scope rest
          (shelters.mono older fun plain => (Bool.and_eq_true_iff.1 plain).2)

end

-- ============================================================= construction

omit abiding in
/-- The overloads of `super` are offered one after the other. -/
theorem abides_installSupers {object : ScopeId} {parent : Class} (works : object ∈ R.work s)
    (homes : ∀ place ∈ parent.homes, place ∈ R.home s) :
    Abides R s (installSupers object parent) := by
  intro rules context
  have offered : ∀ (arities : List Nat) (t : Store), s.Older t → R.Rules t →
      s.Older (arities.foldl (fun s arity => s.addProcedure object (.ofSuper arity parent object)) t) ∧
      R.Rules (arities.foldl
        (fun s arity => s.addProcedure object (.ofSuper arity parent object)) t) := by
    intro arities
    induction arities with
    | nil => exact fun t older ruled => ⟨older, ruled⟩
    | cons arity arities ih =>
      intro t older ruled
      have permitted : R.Permitted t (.offer object (.ofSuper arity parent object)) :=
        .offerSuper arity (R.work_mono older works)
          fun place mem => R.home_mono older (homes place mem)
      exact ih _ (older.trans (Store.older_apply (.offer object _) t)) (ruled.permitted permitted)
  obtain ⟨older, ruled⟩ := offered parent.superArities s (.refl s) rules
  exact ⟨older, ruled, fun _ _ => trivial⟩

omit abiding in
theorem abides_ownProcedures (object : ScopeId) (name : String) :
    AbidesTo R s (fun t candidates => ∀ d ∈ candidates, R.Trusts t d)
      (ownProcedures object name) := by
  exact abides_look fun rules d mem =>
    rules.holds.trusts (Scope.mem_callables_of_ownProcedure mem)

omit abiding in
theorem abides_constructors {object : ScopeId} (works : object ∈ R.work s) :
    AbidesTo R s (fun t candidates => ∀ d ∈ candidates, R.Trusts t d) (constructors object) := by
  refine abides_bind (abides_ownProcedures object constructorName) fun t declared older trusts => ?_
  split
  · have works := R.work_mono older works
    refine abides_bind (abides_change (.offer object _) (.supply works)) fun u _ older _ => ?_
    refine abides_pure fun d mem => ?_
    rw [List.mem_singleton.1 mem]
    refine ⟨within_ofScript constructorName [] [] object, fun place mem => ?_⟩
    rw [List.mem_singleton.1 mem]
    exact R.home_mono older (Territory.home_of_work works)
  · exact abides_pure trusts

theorem abides_completeParent (object : ScopeId) (className : String) :
    Abides R s (below.completeParent object className) := by
  have looked : Abides R s (look fun s => (s.scope object).construction.superInvoked) :=
    abides_look fun _ => trivial
  refine abides_bind looked fun t invoked _ _ => ?_
  split
  · exact abides_pure trivial
  · refine abides_bind (abides_ownProcedures object superName) fun u supers _ trusts => ?_
    split
    · next d found =>
      have trusted : R.Trusts u d := trusts d (List.mem_of_find?_eq_some found)
      exact abides_bind (abides_invoke abiding trusted nofun) fun _ _ _ _ => abides_pure trivial
    · exact abides_fail _

/-- An object is finished where scripts may work in its scope. -/
theorem abides_finish {object : ScopeId} {c : Class} {args : List Value}
    (works : object ∈ R.work s) (known : within (R.free s) args) :
    Abides R s (below.finish object c args) := by
  refine abides_bind (abides_constructors works) fun t candidates older trusts => ?_
  split
  · exact abides_fail _
  · next constructor selected =>
    have trusted : R.Trusts t constructor := trusts constructor (List.mem_of_find?_eq_some selected)
    have works := R.work_mono older works
    have known : within (R.free t) args := Mentions.mono (R.free_mono older) known
    have cleared : ∀ u, t.Older u → Abides R u (do
        Run.change (·.dropCallables object superName)
        Run.change (·.dropCallables object constructorName)
        return (⟨object, c.name⟩ : Object)) := by
      intro u older
      have works := R.work_mono older works
      refine abides_bind (abides_change (.dropCallables object _) (.drop _ works))
        fun v _ older _ => ?_
      have works := R.work_mono older works
      refine abides_bind (abides_change (.dropCallables object _) (.drop _ works))
        fun w _ older _ => abides_pure ?_
      exact R.free_of_work (R.work_mono older works)
    refine abides_bind (abides_invokeWith abiding (fun u frame older inFrame => ?_) trusted known)
      fun u _ older _ => ?_
    · exact abides_change (.noteFrame object frame) (.noteFrame (R.work_mono older works) inFrame)
    · dsimp only
      split
      · exact abides_bind (abides_completeParent abiding object c.name)
          fun v _ older' _ => cleared v (older.trans older')
      · exact cleared u older

theorem abides_build {patience : Nat} {object : ScopeId} {c : Class} {args : List Value}
    (works : object ∈ R.work s) (known : within (R.free s) args) :
    Abides R s (below.build patience object c args) := by
  refine abides_bind (abides_executeBlock abiding patience s object c.body (.inl works))
    fun t _ older _ => ?_
  exact abides_finish abiding (R.work_mono older works) (Mentions.mono (R.free_mono older) known)

theorem abides_constructObject {patience : Nat} {c : Class} {args : List Value}
    (homes : ∀ place ∈ c.homes, place ∈ R.home s) (known : within (R.free s) args) :
    Abides R s (below.constructObject patience c args) := by
  refine abides_bind (abides_requireLive c.home c.name) fun t _ older _ => ?_
  have homes := fun place mem => R.home_mono older (homes place mem)
  have known : within (R.free t) args := Mentions.mono (R.free_mono older) known
  have shelters : R.Shelters t c.home false := .inl (homes c.home c.home_mem_homes)
  refine abides_inChild shelters fun u object older permits => ?_
  have known : within (R.free u) args := Mentions.mono (R.free_mono older) known
  dsimp only
  split
  · next parent isParent =>
    refine abides_bind (abides_installSupers permits.works fun place mem =>
      R.home_mono older (homes place (Class.mem_homes_of_parent isParent mem))) fun v _ older _ => ?_
    exact abides_build abiding (R.work_mono older permits.works)
      (Mentions.mono (R.free_mono older) known)
  · exact abides_build abiding permits.works known

end Below

-- =================================================================== levels

mutual

theorem Run.abides_executeAt (R : Regime) (levels : Nat) (s : Store) (scope : ScopeId)
    (block : Block) (works : scope ∈ R.work s) :
    Run.Abides R s (Run.executeAt levels scope block) := by
  unfold executeAt
  cases levels with
  | zero => exact abides_throw _
  | succ levels =>
    exact abides_holding (Below.abides_executeBlock
      ⟨Run.abides_executeAt R levels, Run.abides_constructAt R levels⟩ levels s scope block
      (.inl works))

theorem Run.abides_constructAt (R : Regime) (levels : Nat) (s : Store) (c : Class)
    (args : List Value) (homes : ∀ place ∈ c.homes, place ∈ R.home s)
    (known : within (R.free s) args) : Run.Abides R s (Run.constructAt levels c args) := by
  unfold constructAt
  cases levels with
  | zero => exact abides_throw _
  | succ levels =>
    exact Below.abides_constructObject
      ⟨Run.abides_executeAt R levels, Run.abides_constructAt R levels⟩ homes known

end

/-- Calls that may nest so deep keep to every regime. -/
theorem Below.abiding_upTo (R : Regime) (levels : Nat) : (Below.upTo levels).Abiding R :=
  ⟨Run.abides_executeAt R levels, Run.abides_constructAt R levels⟩

-- ======================================================== what a host asks

/-- The scope that a request is about. -/
def Request.place : Request → ScopeId
  | execute scope _ | executeSource scope _ | evaluate scope _ | instantiate scope .. => scope
  | call object .. => object.scope

/-- Requests keep to a regime, too, if scripts may work in the scopes that they
are about. -/
theorem Request.abides_run {R : Regime} {s : Store} (levels : Nat) {request : Request}
    (works : request.place ∈ R.work s) (uses : request.Uses (R.free s)) :
    Run.Abides R s (request.run levels) := by
  have abiding := Below.abiding_upTo R levels
  have executes : ∀ t scope program, scope ∈ R.work t →
      Run.Abides R t (Interpreter.runProgram levels scope program) := fun t scope program works =>
    Run.abides_bind (Run.abides_executeAt R levels t scope program works)
      fun _ _ _ _ => Run.abides_pure trivial
  cases request with
  | execute scope program =>
    exact Run.abides_bind (executes s scope program works) fun _ _ _ _ => Run.abides_pure within_null
  | executeSource scope source =>
    have read : Run.Abides R s (Interpreter.runSource levels scope source) :=
      Run.abides_bind (Run.abides_ofResult fun _ _ _ _ => trivial) fun t program older _ =>
        executes t scope program (R.work_mono older works)
    exact Run.abides_bind read fun _ _ _ _ => Run.abides_pure within_null
  | evaluate scope text =>
    refine Run.abides_bind (Run.abides_ofResult fun _ _ => trivial) fun t e _ _ => ?_
    exact Below.abides_evaluate abiding t scope e
  | instantiate scope className args =>
    refine Run.abides_bind (Run.abides_holding (Below.abides_instantiate abiding uses))
      fun t o _ known => Run.abides_pure (within_object.2 known)
  | call object name args =>
    exact Run.abides_holding (Run.abides_holding (Below.abides_callMember abiding uses.2))

end RoutineScript
