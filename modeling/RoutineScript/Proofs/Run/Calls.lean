/-
Calls are activities.

If blocks that are entered and objects that are constructed one level below
act, so does whatever calls them: the values that a call passes down are
known when it starts, and the overloads it finds are known to the store.
-/
import RoutineScript.Proofs.Run.Activity

namespace RoutineScript

open Mentions (within)

-- ================================================================ operators

section

variable {K : Set ScopeId}

theorem within_number (x : Float) : within K (Value.number x) := within_of_objects_eq_nil rfl
theorem within_boolean (b : Bool) : within K (Value.boolean b) := within_of_objects_eq_nil rfl
theorem within_string (s : String) : within K (Value.string s) := within_of_objects_eq_nil rfl
theorem within_null : within K Value.null := within_of_objects_eq_nil rfl

theorem within_object {o : Object} : within K (Value.object o) ↔ within K o := by
  show (∀ id ∈ (Value.object o).objects, id ∈ K) ↔ o.scope ∈ K
  rw [Value.objects]
  exact List.forall_mem_singleton

/-- The object that a value is. -/
theorem within_expectObject {v : Value} {o : Object} (known : within K v)
    (eq : v.expectObject = .ok o) : within K o := by
  cases v with
  | object handle =>
    cases eq
    exact within_object.1 known
  | number | boolean | string | list | null => cases eq

/-- What a binary operator makes of two values mentions what they mention. -/
theorem within_binary {op : BinaryOp} {l r v : Value} (left : within K l) (right : within K r)
    (eq : Value.binary op l r = .ok v) : within K v := by
  cases op with
  | and | or =>
    dsimp only [Value.binary] at eq
    split at eq <;> cases eq
    exact within_boolean _
  | eq | ne =>
    cases eq
    exact within_boolean _
  | lt | le | gt | ge =>
    dsimp only [Value.binary] at eq
    split at eq <;> cases eq
    · exact within_boolean _
    · exact within_boolean _
  | concat =>
    cases eq
    exact within_string _
  | add =>
    dsimp only [Value.binary] at eq
    split at eq <;> cases eq
    · exact within_number _
    · exact within_string _
    · exact within_string _
    · -- only a sum of lists mentions anything
      rw [within_list] at left right ⊢
      intro a mem
      rcases List.mem_append.1 mem with first | second
      · exact left a first
      · exact right a second
  | sub | mul | div | mod =>
    dsimp only [Value.binary] at eq
    split at eq <;> cases eq
    exact within_number _

theorem within_unary {op : UnaryOp} {operand v : Value} (eq : Value.unary op operand = .ok v) :
    within K v := by
  unfold Value.unary at eq
  cases operand with
  | number => cases op <;> cases eq <;> exact within_number _
  | boolean =>
    cases op <;> cases eq
    exact within_boolean _
  | string | list | null | object => cases op <;> cases eq

/-- An element mentions what its list mentions. -/
theorem within_index {target place v : Value} (known : within K target)
    (eq : Value.index target place = .ok v) : within K v := by
  have elements : ∀ items, target.elements? = some items → within K items := by
    intro items eq
    cases target with
    | list => cases eq; exact within_list.1 known
    | string =>
      cases eq
      intro item mem
      obtain ⟨_, -, rfl⟩ := List.mem_map.1 mem
      exact within_string _
    | number | boolean | null | object => cases eq
  cases place with
  | number x =>
    simp only [Value.index, Value.expectNumber, bind, Except.bind] at eq
    split at eq
    · cases eq
    · next items found =>
      split at eq
      · split at eq
        · next at_place =>
          cases eq
          exact elements items found v (List.mem_of_getElem? at_place)
        · cases eq
      · cases eq
  | boolean | string | list | null | object => cases eq

end

-- ============================================================ below and above

/-- What runs one level below acts. -/
structure Below.Acts (below : Below) : Prop where
  enter : ∀ K scope block, Run.Acts K (below.enter scope block)
  construct : ∀ K c args, within K args → Run.Constructs K (below.construct c args)

namespace Below

open Run

variable {below : Below} (acts : below.Acts) {K : Set ScopeId}

-- =============================================================== invocation

theorem acts_bindParams {frame : ScopeId} {params : List String} {args : List Value}
    (known : within K args) : Run.Acts K (bindParams frame params args) := by
  induction params generalizing K args with
  | nil => exact acts_pure trivial
  | cons param params ih =>
    cases args with
    | nil => exact acts_pure trivial
    | cons arg args =>
      refine acts_bind ?_ fun L _ sub _ => ?_
      · exact acts_attempt (fun _ => .operation (.declare frame param arg)) (fun _ => rfl)
          (fun _ => known arg List.mem_cons_self) (fun _ => rfl) fun _ _ _ _ => trivial
      · exact ih fun v mem => Mentions.mono sub (known v (List.mem_cons_of_mem _ mem))

theorem acts_outcome {name : String} {wanted : Bool} {flow : Flow} (known : within K flow) :
    Run.Acts K (outcome name wanted flow) := by
  cases flow with
  | returned v => exact acts_pure (known v rfl)
  | finished =>
    cases wanted
    · exact acts_pure within_null
    · exact acts_fail _

theorem acts_callHost {function : HostFunction} {args : List Value}
    (trusted : within K function) (known : within K args) :
    Run.Acts K (attempt (·.callHost function args)) := by
  refine acts_attempt (fun s => .host (function.run args s.host).2) (fun _ => rfl)
    (fun _ => trivial) (fun s => rfl) fun s v _ eq => ?_
  have returned : function.run args s.host = (.ok v, (function.run args s.host).2) :=
    Prod.ext eq rfl
  exact within_run trusted known returned

include acts

/-- Calling an overload that the store knows, with arguments that are
known. -/
theorem acts_invokeWith {onFrame : ScopeId → Run Unit} {c : Callable} {args : List Value}
    {wanted : Bool} (frames : ∀ L frame, Run.Acts L (onFrame frame)) (trusted : within K c)
    (known : within K args) : Run.Acts K (below.invokeWith onFrame c args wanted) := by
  unfold invokeWith
  split
  · next function body => exact acts_callHost (trusted function body) known
  · next params body home _ =>
    refine acts_bind (acts_requireLive home _) fun L _ sub _ => ?_
    refine acts_bind (acts_newChild home) fun M frame sub' _ => ?_
    have known : within M args := Mentions.mono sub' (Mentions.mono sub known)
    refine acts_bind (acts_bindParams known) fun N _ _ _ => ?_
    refine acts_bind (frames N frame) fun O _ _ _ => ?_
    refine acts_bind (acts_deeper (acts.enter O frame body)) fun P flow _ ended => ?_
    exact acts_outcome ended
  · next parent target _ =>
    refine acts_bind (acts_requireLive target _) fun L _ sub _ => ?_
    have known : within L args := Mentions.mono sub known
    exact acts_merging (constructs_holding (constructs_deeper (acts.construct L parent args known)))
      target

theorem acts_invoke {c : Callable} {args : List Value} {wanted : Bool} (trusted : within K c)
    (known : within K args) : Run.Acts K (below.invoke c args wanted) :=
  acts_invokeWith acts (fun _ _ => acts_pure trivial) trusted known

theorem acts_dispatch {name : String} {candidates : List Callable} {args : List Value}
    {wanted : Bool} (trusted : within K candidates) (known : within K args) :
    Run.Acts K (below.dispatch name candidates args wanted) := by
  unfold dispatch
  split
  · exact acts_fail _
  · split
    · next c selected => exact acts_invoke acts (trusted c (List.mem_of_find?_eq_some selected)) known
    · exact acts_fail _

omit acts in
/-- The overloads that are visible from a scope are known to the store. -/
theorem acts_lookNamed (scope : ScopeId) (name : String) :
    Run.Acts K (look fun s => (s.scope scope).procedures.named name) ∧
      Run.Acts K (look fun s => (s.scope scope).functions.named name) := by
  refine ⟨acts_look fun s known c mem => ?_, acts_look fun s known c mem => ?_⟩
  · exact known.callable scope c (Scope.mem_callables_of_procedure mem)
  · exact known.callable scope c (Scope.mem_callables_of_function mem)

-- ==================================================================== calls

theorem acts_callProcedure {scope : ScopeId} {name : String} {args : List Value}
    (known : within K args) : Run.Acts K (below.callProcedure scope name args) := by
  unfold callProcedure
  refine acts_bind (acts_look fun s knows c mem => ?_) fun L candidates sub trusted => ?_
  · exact knows.callable scope c (Scope.mem_callables_of_named mem)
  · exact acts_dispatch acts trusted (Mentions.mono sub known)

theorem acts_callFunction {scope : ScopeId} {name : String} {args : List Value}
    (known : within K args) : Run.Acts K (below.callFunction scope name args) := by
  unfold callFunction
  refine acts_bind (acts_lookNamed scope name).2 fun L functions sub trusted => ?_
  refine acts_bind (acts_lookNamed scope name).1 fun M procedures sub' _ => ?_
  split
  · exact acts_fail _
  · exact acts_dispatch acts (Mentions.mono sub' trusted)
      (Mentions.mono sub' (Mentions.mono sub known))

theorem acts_callMember {scope : ScopeId} {name : String} {args : List Value}
    (known : within K args) : Run.Acts K (below.callMember scope name args) := by
  unfold callMember
  refine acts_bind (acts_lookNamed scope name).2 fun L functions sub trusted => ?_
  have known : within L args := Mentions.mono sub known
  split
  · refine acts_bind (acts_lookNamed scope name).1 fun M procedures sub' trusted => ?_
    exact acts_dispatch acts trusted (Mentions.mono sub' known)
  · exact acts_dispatch acts trusted known

omit acts in
theorem acts_findClass {scope : ScopeId} {name : String} :
    Run.Acts K (findClass scope name) := by
  refine acts_bind (acts_look fun s _ c _ => trivial) fun L found _ _ => ?_
  cases found with
  | none => exact acts_fail _
  | some c => exact acts_pure trivial

/-- An object that is asked for by the name of its class is handed out. -/
theorem acts_instantiate {scope : ScopeId} {className : String} {args : List Value}
    (known : within K args) : Run.Acts K (below.instantiate scope className args) := by
  refine acts_bind acts_findClass fun L c sub _ => ?_
  exact acts_of_constructs (constructs_deeper (acts.construct L c args (Mentions.mono sub known)))

end Below

end RoutineScript
