/-
A method call as a statement and for its value.

`E.m(args);` evaluates the arguments and then `E`; `x = E.m(args);` evaluates
`E` and then the arguments (`Below.argumentsFirst`, `Below.objectFirst`). From
there on they are the same call: a definition that returns something is offered
both as a procedure and as a function, and if it is the first of both to take
the arguments (`Store.Answers`), its body runs in the same way, whether or not
its value is wanted (`Below.CallsAlike`).

# When the order shows

Each order has its effects, and its first failure. The orders come to the same
if one of the two, the object or the arguments, only looks at the store and
succeeds, if it comes to the same behind the other one, and if that one does not
mind what is kept alive for it (`Below.Unordered`). Literals can wait for
anything; and if both only look, it is enough that one of them succeeds.
-/
import RoutineScript.Proofs.Run.Dispatch
import RoutineScript.Proofs.Run.Keeping

namespace RoutineScript

-- =================================================================== orders

namespace Run

variable {α β : Type}

/-- A run that only looks, and succeeds, can be put off behind another one
which does not mind what is kept alive for it, if it finds the same there. -/
theorem Looks.swap {γ : Type} {first : Run β} {second : Run γ} {pair : β → γ → α}
    {held : β → List ScopeId} {held' : γ → List ScopeId} {context : Context} {s : Store} {b : β}
    (looks : Looks first) (ended : (first context s).1 = .ok b)
    (unminded : holding (held b) second context s = second context s)
    (again : ∀ c u, second context s = (.ok c, u) → (first context u).1 = .ok b) :
    (do
      let b ← first
      let c ← holding (held b) second
      return pair b c : Run α) context s =
    (do
      let c ← second
      let b ← holding (held' c) first
      return pair b c : Run α) context s := by
  obtain ⟨result, ends⟩ := looks
  simp only [ends] at ended again
  rw [bind_apply, bind_apply, ends, ended]
  dsimp only
  rw [bind_apply, unminded]
  cases other : second context s with
  | mk r u =>
  cases r with
  | error halt => rfl
  | ok c =>
    have finds : holding (held' c) first context u = (.ok b, u) := by
      rw [holding, ends, again c u other]
    dsimp only
    rw [bind_apply, finds]

/-- What is kept alive during two runs is so during each. -/
theorem holding_bind (ids : List ScopeId) (run : Run β) (next : β → Run α) :
    holding ids (run >>= next) = (do
      let b ← holding ids run
      holding ids (next b)) :=
  rfl

end Run

namespace Below

open Run

variable {below : Below} {patience : Nat} {scope : ScopeId} {object : Expr} {es : List Expr}
  {m x : String} {context : Context} {s t : Store}

/-- An object and the arguments of its method, the object first. -/
def objectFirst (below : Below) (scope : ScopeId) (object : Expr) (es : List Expr) :
    Run (Object × List Value) := do
  let o ← below.evaluateObject scope object
  let args ← holding [o.scope] (below.evaluateAll scope es)
  return (o, args)

/-- The same, the arguments first. -/
def argumentsFirst (below : Below) (scope : ScopeId) (object : Expr) (es : List Expr) :
    Run (Object × List Value) := do
  let args ← below.evaluateAll scope es
  let o ← holdingValues args (below.evaluateObject scope object)
  return (o, args)

/-- A statement evaluates the arguments first. -/
theorem execute_call_eq :
    below.execute patience scope (.call (.method object m) es) = (do
      let (o, args) ← below.argumentsFirst scope object es
      let _ ← holdingValues args (holding [o.scope] (below.callProcedure o.scope m args))
      return .finished) := by
  simp only [execute, callStatement, argumentsFirst, holdingValues, holding_bind, bind_assoc,
    pure_bind]
  rfl

/-- A call for its value evaluates the object first. -/
theorem execute_assign_call_eq :
    below.execute patience scope (.assign (.name x) (.methodCall object m es)) = (do
      let (o, args) ← below.objectFirst scope object es
      let v ← holding [o.scope] (holdingValues args (below.callFunction o.scope m args))
      Run.attempt (·.assign scope x v)
      return .finished) := by
  simp only [execute, evaluate, assignPlace, objectFirst, evaluateObject, holding_bind, bind_assoc,
    pure_bind]

end Below

-- ==================================================================== calls

/-- A definition is the first to take the arguments of a method, among the
procedures that are visible from the object and among the functions. -/
structure Store.Answers (s : Store) (o : Object) (m : String) (args : List Value) (d : Callable) :
    Prop where
  procedure : Callable.select? ((s.scope o.scope).procedures.named m) args = some d
  function : Callable.select? ((s.scope o.scope).functions.named m) args = some d
  script : ∃ params body home, d.body = .script params body home

/-- How a call statement ends next to an assignment of the value to `x`: alike,
but then the value is assigned, or it is missing. -/
inductive Below.CallsAlike (scope : ScopeId) (x m : String) (context : Context) :
    Except Halt Flow × Store → Except Halt Flow × Store → Prop where
  | halted {halt : Halt} {t : Store} : CallsAlike scope x m context (.error halt, t) (.error halt, t)
  | returned {v : Value} {t : Store} : CallsAlike scope x m context (.ok .finished, t)
      ((do Run.attempt (·.assign scope x v); return .finished : Run Flow) context t)
  | silent {t : Store} : CallsAlike scope x m context (.ok .finished, t)
      (.error (.fault (Cause.noValueReturned m)), t)

namespace Below

open Run

variable {below : Below} {scope : ScopeId} {context context' : Context} {s t : Store} {o : Object}
  {m x : String} {args : List Value} {d : Callable}

/-- How the call of a definition ends whose body has ended so. -/
def completes (name : String) (wanted : Bool) :
    Except Halt Flow × Store → Except Halt Value × Store
  | (.ok (.returned v), t) => (.ok v, t)
  | (.ok .finished, t) =>
    (if wanted then .error (.fault (Cause.noValueReturned name)) else .ok .null, t)
  | (.error halt, t) => (.error halt, t)

/-- The body of a definition runs in the same way, whether or not a value is
wanted. -/
theorem invoke_script (script : ∃ params body home, d.body = .script params body home) :
    ∃ ended : Except Halt Flow × Store, ∀ wanted,
      below.invoke d args wanted context s = completes d.name wanted ended := by
  obtain ⟨params, body, home, script⟩ := script
  let executed : Run Flow := do
    requireLive home d.name
    let frame ← frame home params args
    deeper (below.enter frame body)
  refine ⟨executed context s, fun wanted => ?_⟩
  have split : below.invoke d args wanted = (do outcome d.name wanted (← executed)) := by
    rw [invoke, invokeWith_script below _ script]
    simp only [executed, bind_assoc, pure_bind]
  rw [split, bind_apply]
  rcases executed context s with ⟨_ | (_ | v), t⟩
  · rfl
  · cases wanted <;> rfl
  · rfl

theorem callProcedure_eq_invoke (answers : s.Answers o m args d) :
    below.callProcedure o.scope m args context s = below.invoke d args false context s := by
  have selected : Callable.select? (s.overloads o.scope m) args = some d :=
    Callable.select?_of_prefix (List.prefix_append _ _) answers.procedure
  rw [callProcedure_eq_dispatch, (below.dispatch_eq m false selected).2]

theorem callFunction_eq_invoke (answers : s.Answers o m args d) :
    below.callFunction o.scope m args context s = below.invoke d args true context s := by
  obtain ⟨some, dispatched⟩ := below.dispatch_eq m true answers.function
  rw [callFunction_eq_dispatch some, dispatched]

/-- What answers is a method of the name. -/
theorem name_of_answers (answers : s.Answers o m args d) : d.name = m := by
  have mem := List.mem_of_find?_eq_some answers.function
  exact eq_of_beq (List.mem_filter.1 mem).2

/-- It runs alike in contexts that are alike. -/
theorem invoke_alike {levels : Nat} {wanted : Bool}
    (script : ∃ params body home, d.body = .script params body home)
    (alike : context.Alike context') :
    (Below.upTo levels).invoke d args wanted context' s =
      (Below.upTo levels).invoke d args wanted context s := by
  refine eq_of_safe (safe_invoke (lawful_alike levels) ⟨?_, ?_⟩) alike
  · exact d.written_of_forall fun _ => rfl
  · obtain ⟨params, body, home, script⟩ := script
    intro parent target isSuper
    cases script.symm.trans isSuper

/-- When the object and the arguments have been evaluated, and something
answers, the two calls end alike. -/
theorem callsAlike_of_answers {levels : Nat} (answers : s.Answers o m args d) :
    CallsAlike scope x m context
      ((do
        let _ ← holdingValues args (holding [o.scope]
          ((Below.upTo levels).callProcedure o.scope m args))
        return .finished : Run Flow) context s)
      ((do
        let v ← holding [o.scope] (holdingValues args
          ((Below.upTo levels).callFunction o.scope m args))
        Run.attempt (·.assign scope x v)
        return .finished : Run Flow) context s) := by
  let outer : Context := { context with held := [o.scope] ++ (Value.kept args ++ context.held) }
  let inner : Context := { context with held := Value.kept args ++ ([o.scope] ++ context.held) }
  have alike : outer.Alike inner := by
    refine ⟨rfl, rfl, fun id => ?_⟩
    simp only [inner, outer, List.mem_append]
    tauto
  obtain ⟨ended, ends⟩ : ∃ ended, ∀ wanted,
      (Below.upTo levels).invoke d args wanted outer s = completes d.name wanted ended :=
    invoke_script answers.script
  rw [name_of_answers answers] at ends
  have called : holdingValues args (holding [o.scope] ((Below.upTo levels).callProcedure o.scope m
      args)) context s = completes m false ended :=
    (callProcedure_eq_invoke answers).trans (ends false)
  have valued : holding [o.scope] (holdingValues args ((Below.upTo levels).callFunction o.scope m
      args)) context s = completes m true ended :=
    (callFunction_eq_invoke answers).trans ((invoke_alike answers.script alike).trans (ends true))
  rw [bind_apply, bind_apply, called, valued]
  rcases ended with ⟨halt | (_ | v), t⟩
  · exact .halted
  · exact .silent
  · exact .returned

variable {levels patience : Nat} {object : Expr} {es : List Expr} {halt : Halt}

/-- A statement ends with the first failure of its order. -/
theorem execute_call_of_halt
    (halted : below.argumentsFirst scope object es context s = (.error halt, t)) :
    below.execute patience scope (.call (.method object m) es) context s = (.error halt, t) := by
  rw [execute_call_eq, bind_apply, halted]

theorem execute_assign_call_of_halt
    (halted : below.objectFirst scope object es context s = (.error halt, t)) :
    below.execute patience scope (.assign (.name x) (.methodCall object m es)) context s =
      (.error halt, t) := by
  rw [execute_assign_call_eq, bind_apply, halted]

/-- Where both orders come to the same, and something answers, so do the two
calls. -/
theorem callsAlike_of_eq
    (same : (Below.upTo levels).argumentsFirst scope object es context s =
      (Below.upTo levels).objectFirst scope object es context s)
    (answers : ∀ o args t, (Below.upTo levels).objectFirst scope object es context s =
      (.ok (o, args), t) → ∃ d, t.Answers o m args d) :
    CallsAlike scope x m context
      ((Below.upTo levels).execute patience scope (.call (.method object m) es) context s)
      ((Below.upTo levels).execute patience scope (.assign (.name x) (.methodCall object m es))
        context s) := by
  rw [execute_call_eq, execute_assign_call_eq, bind_apply, bind_apply, same]
  cases first : (Below.upTo levels).objectFirst scope object es context s with
  | mk result t =>
  cases result with
  | error halt => exact .halted
  | ok both =>
    obtain ⟨d, answers⟩ := answers both.1 both.2 t first
    exact callsAlike_of_answers answers

end Below

-- ================================================================= unordered

/-- A number, a text, a truth value or `null`, as it is written. -/
def Expr.isLiteral : Expr → Bool
  | number _ | string _ | bool _ | null => true
  | _ => false

/-- A case in which the order does not matter: what is quiet, the object or the
arguments, is evaluated with success, and to the same when the others have been
evaluated before; and these do not mind what is kept alive for it. -/
inductive Below.Unordered (below : Below) (scope : ScopeId) (object : Expr) (es : List Expr)
    (context : Context) (s : Store) : Prop where
  | object {o : Object} : object.isQuiet = true →
      (below.evaluateObject scope object context s).1 = .ok o →
      Run.holding [o.scope] (below.evaluateAll scope es) context s =
        below.evaluateAll scope es context s →
      (∀ args u, below.evaluateAll scope es context s = (.ok args, u) →
        (below.evaluateObject scope object context u).1 = .ok o) →
      Unordered below scope object es context s
  | arguments {args : List Value} : Expr.allQuiet es = true →
      (below.evaluateAll scope es context s).1 = .ok args →
      Run.holdingValues args (below.evaluateObject scope object) context s =
        below.evaluateObject scope object context s →
      (∀ o u, below.evaluateObject scope object context s = (.ok o, u) →
        (below.evaluateAll scope es context u).1 = .ok args) →
      Unordered below scope object es context s

namespace Below

open Run

variable {below : Below} {scope : ScopeId} {object : Expr} {es : List Expr} {context : Context}
  {s : Store}

/-- Then both orders come to the same. -/
theorem Unordered.argumentsFirst_eq (unordered : below.Unordered scope object es context s) :
    below.argumentsFirst scope object es context s =
      below.objectFirst scope object es context s := by
  cases unordered with
  | object quiet found unminded again =>
    exact ((looks_evaluateObject quiet).swap found unminded again).symm
  | arguments quiet evaluated unminded again =>
    exact (looks_evaluateAll es quiet).swap evaluated unminded again

/-- If both are quiet, it is enough that one of them succeeds. -/
theorem unordered_of_isQuiet (quiet : object.isQuiet = true) (quiets : Expr.allQuiet es = true)
    (succeeds : (∃ o, (below.evaluateObject scope object context s).1 = .ok o) ∨
      ∃ args, (below.evaluateAll scope es context s).1 = .ok args) :
    below.Unordered scope object es context s := by
  have ofObject : Looks (below.evaluateObject scope object) := looks_evaluateObject quiet
  have ofArguments : Looks (below.evaluateAll scope es) := looks_evaluateAll es quiets
  rcases succeeds with ⟨o, found⟩ | ⟨args, evaluated⟩
  · refine .object quiet found (ofArguments.heedless _ _ s) fun args u ended => ?_
    obtain ⟨result, ends⟩ := ofArguments
    obtain ⟨-, rfl⟩ := Prod.mk.inj (ended.symm.trans (ends context s))
    exact found
  · refine .arguments quiets evaluated (ofObject.heedless _ _ s) fun o u ended => ?_
    obtain ⟨result, ends⟩ := ofObject
    obtain ⟨-, rfl⟩ := Prod.mk.inj (ended.symm.trans (ends context s))
    exact evaluated

/-- Literals evaluate to the same everywhere, and keep nothing alive. -/
theorem evaluateAll_literals (literals : ∀ e ∈ es, e.isLiteral = true) :
    Expr.allQuiet es = true ∧
      ∃ args, Value.kept args = [] ∧ below.evaluateAll scope es = pure args := by
  induction es with
  | nil => exact ⟨rfl, [], rfl, by rw [evaluateAll]⟩
  | cons e es ih =>
    obtain ⟨own, others⟩ := List.forall_mem_cons.1 literals
    obtain ⟨quiets, args, nothing, evaluated⟩ := ih others
    have value : e.isQuiet = true ∧ ∃ v : Value, v.objects = [] ∧ below.evaluate scope e = pure v := by
      unfold evaluate
      cases e with
      | number | string | bool | null => exact ⟨rfl, _, rfl, rfl⟩
      | _ => cases own
    obtain ⟨quiet, v, none, isValue⟩ := value
    refine ⟨?_, v :: args, ?_, ?_⟩
    · rw [Expr.allQuiet, quiet, quiets]
      rfl
    · rw [Value.kept, Value.objectsIn, none]
      exact nothing
    · rw [evaluateAll, isValue, evaluated]
      rfl

/-- Arguments that are literals, or none at all, can wait. -/
theorem unordered_of_literals (literals : ∀ e ∈ es, e.isLiteral = true) :
    below.Unordered scope object es context s := by
  obtain ⟨quiets, args, nothing, evaluated⟩ : Expr.allQuiet es = true ∧
      ∃ args, Value.kept args = [] ∧ below.evaluateAll scope es = pure args :=
    evaluateAll_literals literals
  have always : ∀ t, (below.evaluateAll scope es context t).1 = .ok args := fun t => by
    rw [evaluated]
    rfl
  refine .arguments quiets (always s) ?_ fun o u _ => always u
  rw [holdingValues, nothing]
  rfl

end Below

-- ================================================================ the result

/-- **A method is called alike as a statement and for its value, once its object
and its arguments have been evaluated.** A statement evaluates the arguments
first, and ends with the failure of that, if there is one; a call for its value
evaluates the object first. If both orders come to the same, and a definition
answers that is offered both as a procedure and as a function, the two calls
end with the same fault in the same store, or its body runs to its end and
leaves the same store in both; then the value is assigned, or missed. The orders
come to the same where it does not matter which is evaluated first, as when the
arguments are literals, or when nothing is called or constructed in the object
and the arguments, and one of them does not fail. -/
theorem Below.method_call_agrees {levels patience : Nat} {scope : ScopeId} {context : Context}
    {s : Store} {object : Expr} {es : List Expr} {m x : String}
    (answers : ∀ o args t, (Below.upTo levels).objectFirst scope object es context s =
      (.ok (o, args), t) → ∃ d, t.Answers o m args d) :
    let below := Below.upTo levels
    let statement := below.execute patience scope (.call (.method object m) es) context s
    let value :=
      below.execute patience scope (.assign (.name x) (.methodCall object m es)) context s
    let argumentsFirst := below.argumentsFirst scope object es context s
    let objectFirst := below.objectFirst scope object es context s
    (∀ halt t, argumentsFirst = (.error halt, t) → statement = (.error halt, t)) ∧
      (∀ halt t, objectFirst = (.error halt, t) → value = (.error halt, t)) ∧
      (argumentsFirst = objectFirst → CallsAlike scope x m context statement value) ∧
      (below.Unordered scope object es context s → argumentsFirst = objectFirst) ∧
      ((∀ e ∈ es, e.isLiteral = true) → below.Unordered scope object es context s) ∧
      (object.isQuiet = true → Expr.allQuiet es = true →
        ((∃ o, (below.evaluateObject scope object context s).1 = .ok o) ∨
          ∃ args, (below.evaluateAll scope es context s).1 = .ok args) →
        below.Unordered scope object es context s) :=
  ⟨fun _ _ halted => execute_call_of_halt halted,
    fun _ _ halted => execute_assign_call_of_halt halted,
    fun alike => callsAlike_of_eq alike answers,
    Unordered.argumentsFirst_eq,
    unordered_of_literals,
    unordered_of_isQuiet⟩

/-- A method that returns its argument is called with a literal. -/
theorem Below.method_call_agrees_of_literal :
    let program : Block :=
      [⟨1, .declareClass "A" none [⟨1, .define "m" ["a"] [⟨1, .return (some (.name "a"))⟩]⟩]⟩,
        ⟨2, .assign (.name "o") (.new "A" [])⟩]
    let context : Context := ⟨10, 0, [⟨0⟩]⟩
    let s := ((Request.execute ⟨0⟩ program).run 6 context Store.empty.addRoot.2).2
    let below := Below.upTo 6
    let run := fun statement => below.execute 6 ⟨0⟩ statement context s
    below.Unordered ⟨0⟩ (.name "o") [.bool true] context s ∧
      (∃ o args d, below.objectFirst ⟨0⟩ (.name "o") [.bool true] context s = (.ok (o, args), s) ∧
        s.Answers o "m" args d) ∧
      CallsAlike ⟨0⟩ "x" "m" context (run (.call (.method (.name "o") "m") [.bool true]))
        (run (.assign (.name "x") (.methodCall (.name "o") "m" [.bool true]))) := by
  intro program context s below run
  let d : Callable := .ofScript "m" ["a"] [⟨1, .return (some (.name "a"))⟩] ⟨1⟩
  let o : Object := ⟨⟨1⟩, "A"⟩
  have first : below.objectFirst ⟨0⟩ (.name "o") [.bool true] context s =
      (.ok (o, [.boolean true]), s) := rfl
  have answers : s.Answers o "m" [.boolean true] d := ⟨rfl, rfl, _, _, _, rfl⟩
  obtain ⟨-, -, alike, same, literals, -⟩ :=
    method_call_agrees (fun o' args t again => by
      cases first.symm.trans again
      exact ⟨d, answers⟩)
  have unordered := literals (List.forall_mem_singleton.2 rfl)
  exact ⟨unordered, ⟨o, _, d, first, answers⟩, alike (same unordered)⟩

/-- The object and the argument both leave a trace: the statement and the call
for its value leave it in different orders. -/
theorem method_call_reverses :
    let leaves : String → Expr → Block := fun trace result =>
      [⟨1, .assign (.name "log") (.binary .concat (.name "log") (.string trace))⟩,
        ⟨1, .return (some result)⟩]
    let program : Block :=
      [⟨1, .assign (.name "log") (.string "")⟩,
        ⟨1, .declareClass "A" none [⟨1, .define "m" ["a"] [⟨1, .return (some (.name "a"))⟩]⟩]⟩,
        ⟨2, .assign (.name "o") (.new "A" [])⟩, ⟨3, .define "obj" [] (leaves "o" (.name "o"))⟩,
        ⟨4, .define "arg" [] (leaves "a" (.bool true))⟩]
    let s := ((Request.execute ⟨0⟩ program).run 8 ⟨10, 0, [⟨0⟩]⟩ Store.empty.addRoot.2).2
    let run := fun statement => (Below.upTo 8).execute 8 ⟨0⟩ statement ⟨10, 0, [⟨0⟩]⟩ s
    let statement := run (.call (.method (.call "obj" []) "m") [.call "arg" []])
    let value := run (.assign (.name "x") (.methodCall (.call "obj" []) "m" [.call "arg" []]))
    statement.1.toOption.isSome = true ∧ value.1.toOption.isSome = true ∧
      statement.2.lookup ⟨0⟩ "log" = .ok (.string "ao") ∧
      value.2.lookup ⟨0⟩ "log" = .ok (.string "oa") := by
  intro leaves program s run statement value
  have seen : statement.2.slot? ⟨0⟩ "log" = some ⟨0⟩ ∧ value.2.slot? ⟨0⟩ "log" = some ⟨0⟩ := by
    decide +kernel
  exact ⟨by decide +kernel, by decide +kernel, Store.lookup_string seen.1 (by decide +kernel),
    Store.lookup_string seen.2 (by decide +kernel)⟩

end RoutineScript
