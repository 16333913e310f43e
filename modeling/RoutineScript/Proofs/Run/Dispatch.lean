/-
What can be called, by a script and by its host.

A statement that calls a method tries all overloads that are visible from the
object: those that need not return a value first, then those that do. A host
that calls one prefers a value. So it tries the overloads that return one, and
the others only where there are none of these (`Store.preferred`).

Whoever calls gets past the dispatch exactly if one of the overloads tried
takes the arguments; for the object is being worked with, and so the homes of
all that is visible from it are alive. Otherwise the call is refused and
nothing is changed (`Callable.refusal`). A statement therefore finds all that
a host finds. A host does not find an overload that returns nothing behind
overloads that do return something but do not take the arguments. Where there
is nothing to be found, both are refused alike.
-/
import RoutineScript.Proofs.Run.Members
import RoutineScript.Proofs.Run.Overriding

namespace RoutineScript

-- ================================================================ overloads

namespace Store

/-- The overloads of a name that are visible from a scope, in the order in
which a statement tries them. -/
def overloads (s : Store) (id : ScopeId) (name : String) : List Callable :=
  (s.scope id).procedures.named name ++ (s.scope id).functions.named name

/-- Those that a host tries. -/
def preferred (s : Store) (id : ScopeId) (name : String) : List Callable :=
  if ((s.scope id).functions.named name).isEmpty then (s.scope id).procedures.named name
  else (s.scope id).functions.named name

variable {s : Store} {id : ScopeId} {name : String}

theorem mem_callables_of_mem_overloads {d : Callable} (mem : d ∈ s.overloads id name) :
    d ∈ (s.scope id).callables :=
  Scope.mem_callables_of_named mem

theorem preferred_subset : s.preferred id name ⊆ s.overloads id name := by
  unfold preferred overloads
  split
  · exact List.subset_append_left _ _
  · exact List.subset_append_right _ _

/-- If nothing returns a value, a host tries all there is. -/
theorem preferred_eq (noFunctions : (s.scope id).functions.named name = []) :
    s.preferred id name = s.overloads id name := by
  rw [preferred, overloads, noFunctions, List.isEmpty_nil, if_pos rfl, List.append_nil]

/-- A host has something to try if a statement has. -/
theorem isEmpty_preferred :
    (s.preferred id name).isEmpty = (s.overloads id name).isEmpty := by
  unfold preferred overloads
  cases functions : (s.scope id).functions.named name with
  | nil => simp
  | cons d rest => simp

end Store

-- ================================================================= dispatch

namespace Callable

/-- One of some overloads takes the arguments. -/
def Accepted (candidates : List Callable) (args : List Value) : Prop :=
  ∃ d ∈ candidates, d.signature.accepts args = true

instance (candidates : List Callable) (args : List Value) : Decidable (Accepted candidates args) :=
  inferInstanceAs (Decidable (∃ d ∈ candidates, d.signature.accepts args = true))

/-- How a call is refused if none does. -/
def refusal (name : String) (candidates : List Callable) (args : List Value) : Fault :=
  if candidates.isEmpty then Cause.notFound name
  else Cause.noMatchingOverload name (args.map Value.kind)

theorem select?_eq_none {candidates : List Callable} {args : List Value}
    (none : ¬ Accepted candidates args) : select? candidates args = .none := by
  rw [select?, List.find?_eq_none]
  intro d mem accepts
  exact none ⟨d, mem, accepts⟩

end Callable

/-- A call has found an overload that takes the arguments, and its home. -/
structure Callable.Found (candidates : List Callable) (args : List Value) (context : Context)
    (s : Store) (d : Callable) : Prop where
  visible : d ∈ candidates
  accepts : d.signature.accepts args = true
  lives : ∀ place, d.home? = some place → Run.requireLive place d.name context s = (.ok (), s)

/-- How a call ends that tries some overloads: as the one that it has found
does when it is invoked, or by being refused, if there is none to be found. -/
structure Below.Tries (below : Below) (name : String) (candidates : List Callable)
    (args : List Value) (wanted : Bool) (context : Context) (s : Store)
    (ended : Except Halt Value × Store) : Prop where
  found : Callable.Accepted candidates args → ∃ d, Callable.Found candidates args context s d ∧
    ended = below.invoke d args wanted context s
  refused : ¬ Callable.Accepted candidates args →
    ended = (.error (.fault (Callable.refusal name candidates args)), s)

namespace Below

variable {below : Below} {s : Store} {id : ScopeId} {name : String} {candidates : List Callable}
  {args : List Value} {wanted : Bool} {context : Context} {e : Callable}

/-- A call that tries overloads which are visible from a living scope finds
their homes. -/
theorem tries_dispatch (rooted : s.Rooted) (lives : s.isLive context.held id = true)
    (visible : candidates ⊆ (s.scope id).callables) :
    below.Tries name candidates args wanted context s
      (below.dispatch name candidates args wanted context s) where
  found accepted := by
    obtain ⟨e, there, takes⟩ := accepted
    obtain ⟨d, mem, selected⟩ := Callable.exists_select? there takes
    have first : candidates.find? (fun c => c.signature.accepts args) = some d := selected
    have accepts := List.find?_some first
    refine ⟨d, ⟨mem, accepts, ?_⟩, ?_⟩
    · intro place home
      have finds := rooted.callable (visible mem) home
      exact Run.requireLive_eq (Store.isLive_of_leadsTo lives finds.leads finds.inStore)
    · rw [(below.dispatch_eq name wanted selected).2]
  refused none := by
    unfold dispatch Callable.refusal
    cases candidates.isEmpty with
    | true => rfl
    | false =>
      rw [if_neg Bool.false_ne_true, if_neg Bool.false_ne_true, Callable.select?_eq_none none]
      rfl

theorem callProcedure_eq_dispatch :
    below.callProcedure id name args context s =
      below.dispatch name (s.overloads id name) args false context s :=
  Run.bind_apply ..

/-- A host wants a value from an overload that returns one. -/
theorem callMember_eq_dispatch :
    below.callMember id name args context s =
      below.dispatch name (s.preferred id name) args
        (!((s.scope id).functions.named name).isEmpty) context s := by
  rw [callMember, Run.bind_apply]
  dsimp only [Run.look]
  unfold Store.preferred
  cases functions : (s.scope id).functions.named name with
  | nil =>
    rw [List.isEmpty_nil, if_pos rfl, Run.bind_apply]
    rfl
  | cons d rest => rfl

/-- A value is wanted from a function, if there are any. -/
theorem callFunction_eq_dispatch (some : ((s.scope id).functions.named name).isEmpty = false) :
    below.callFunction id name args context s =
      below.dispatch name ((s.scope id).functions.named name) args true context s := by
  rw [callFunction, Run.bind_apply]
  dsimp only [Run.look]
  rw [Run.bind_apply]
  dsimp only [Run.look]
  rw [some, Bool.false_and, if_neg Bool.false_ne_true]

/-- A procedure that is visible from a scope can be called there. -/
theorem callProcedure_finds (rooted : s.Rooted) (held : id ∈ context.held)
    (visible : e ∈ (s.scope id).procedures.all) (accepts : e.signature.accepts args = true) :
    ∃ d, Callable.Found (s.overloads id e.name) args context s d ∧
      below.callProcedure id e.name args context s = below.invoke d args false context s := by
  have seen : e ∈ (s.scope id).callables := List.mem_append_left _ visible
  have lives := Store.isLive_of_mem held (Store.lt_of_mem_callables seen)
  have named : e ∈ s.overloads id e.name :=
    List.mem_append_left _ (List.mem_filter.2 ⟨visible, beq_self_eq_true e.name⟩)
  rw [callProcedure_eq_dispatch]
  exact (tries_dispatch rooted lives fun d mem =>
    Store.mem_callables_of_mem_overloads mem).found ⟨e, named, accepts⟩

/-- A function that is visible from a scope can be called there for its
value. -/
theorem callFunction_finds (rooted : s.Rooted) (held : id ∈ context.held)
    (visible : e ∈ (s.scope id).functions.all) (accepts : e.signature.accepts args = true) :
    ∃ d, Callable.Found ((s.scope id).functions.named e.name) args context s d ∧
      below.callFunction id e.name args context s = below.invoke d args true context s := by
  have seen : e ∈ (s.scope id).callables := List.mem_append_right _ visible
  have lives := Store.isLive_of_mem held (Store.lt_of_mem_callables seen)
  have named : e ∈ (s.scope id).functions.named e.name :=
    List.mem_filter.2 ⟨visible, beq_self_eq_true e.name⟩
  have some : ((s.scope id).functions.named e.name).isEmpty = false := by
    rw [List.isEmpty_eq_false_iff]
    exact List.ne_nil_of_mem named
  rw [callFunction_eq_dispatch some]
  exact (tries_dispatch rooted lives fun d mem =>
    Scope.mem_callables_of_function mem).found ⟨e, named, accepts⟩

/-- How a call statement ends whose call ends like this. -/
def asStatement : Except Halt Value × Store → Except Halt Flow × Store
  | (.ok _, t) => (.ok .finished, t)
  | (.error halt, t) => (.error halt, t)

/-- When the arguments and the object have been evaluated, a statement calls
the method. -/
theorem execute_call_method {patience : Nat} {scope : ScopeId} {object : Expr} {es : List Expr}
    {u w : Store} {o : Object} (evaluated : below.evaluateAll scope es context s = (.ok args, u))
    (found : Run.holdingValues args (below.evaluateObject scope object) context u = (.ok o, w)) :
    below.execute patience scope (.call (.method object name) es) context s =
      asStatement (Run.holdingValues args
        (Run.holding [o.scope] (below.callProcedure o.scope name args)) context w) := by
  unfold Run.holdingValues Run.holding at found ⊢
  rw [execute, Run.bind_apply, callStatement, Run.bind_apply, evaluated]
  dsimp only [Run.holdingValues, Run.holding]
  rw [Run.bind_apply, found]
  dsimp only
  rw [Run.bind_apply]
  unfold Run.holding
  generalize below.callProcedure o.scope name args _ w = ended
  rcases ended with ⟨_ | _, t⟩ <;> rfl

end Below

-- ================================================================ the result

/-- **Scripts and hosts call the same methods, but for what a host prefers.** A
statement that calls a method, once its arguments and its object have been
evaluated, tries all overloads that are visible from the object, and a host
that calls the method tries those that it prefers. Each invokes one that takes
the arguments, with its home alive, or is refused, with the store as it is, if
there is none. If none of all takes them, the two are refused with the same
fault. A host prefers the overloads that return a value, if there are any. -/
theorem Store.Regular.calls_agree {s : Store} (regular : s.Regular) {o : Object}
    (inStore : o.scope.index < s.scopes.size) (levels : Nat) (name : String) (args : List Value) :
    let visible := s.overloads o.scope name
    let preferred := s.preferred o.scope name
    let returning := (s.scope o.scope).functions.named name
    (∀ patience scope object es context r u,
      (Below.upTo levels).evaluateAll scope es context r = (.ok args, u) →
      Run.holdingValues args ((Below.upTo levels).evaluateObject scope object) context u =
        (.ok o, s) →
      ∃ ended, (Below.upTo levels).Tries name visible args false
          { context with held := o.scope :: (Value.kept args ++ context.held) } s ended ∧
        (Below.upTo levels).execute patience scope (.call (.method object name) es) context r =
          Below.asStatement ended) ∧
    (∀ context, (Below.upTo levels).Tries name preferred args (!returning.isEmpty)
      { context with held := Value.kept args ++ (o.scope :: context.held) } s
      (Interpreter.callMember levels o name args context s)) ∧
    (¬ Callable.Accepted visible args → ¬ Callable.Accepted preferred args ∧
      Callable.refusal name visible args = Callable.refusal name preferred args) ∧
    (returning = [] → preferred = visible) ∧ (returning ≠ [] → preferred = returning) := by
  intro visible preferred returning
  have lives : ∀ held : List ScopeId, o.scope ∈ held → s.isLive held o.scope = true :=
    fun held mem => isLive_of_mem mem inStore
  have rooted := regular.arises.rooted
  have seen : visible ⊆ (s.scope o.scope).callables := fun d mem =>
    mem_callables_of_mem_overloads mem
  have part : preferred ⊆ visible := preferred_subset
  refine ⟨fun patience scope object es context r u evaluated found => ?_, fun context => ?_,
    fun none => ⟨fun accepted => ?_, ?_⟩, preferred_eq, fun some => if_neg ?_⟩
  · let inside : Context := { context with held := o.scope :: (Value.kept args ++ context.held) }
    refine ⟨(Below.upTo levels).callProcedure o.scope name args inside s, ?_,
      Below.execute_call_method evaluated found⟩
    rw [Below.callProcedure_eq_dispatch]
    exact Below.tries_dispatch rooted (lives _ List.mem_cons_self) seen
  · let inside : Context := { context with held := Value.kept args ++ (o.scope :: context.held) }
    show (Below.upTo levels).Tries name preferred args _ inside s
      ((Below.upTo levels).callMember o.scope name args inside s)
    rw [Below.callMember_eq_dispatch]
    have held : o.scope ∈ inside.held := List.mem_append_right _ List.mem_cons_self
    exact Below.tries_dispatch rooted (lives _ held) fun d mem => seen (part mem)
  · obtain ⟨d, mem, accepts⟩ := accepted
    exact none ⟨d, part mem, accepts⟩
  · rw [Callable.refusal, Callable.refusal, isEmpty_preferred]
  · rwa [List.isEmpty_iff]

/-- An overload that returns nothing is the only one there is. -/
theorem Store.Regular.calls_agree_of_method :
    let program : Block :=
      [⟨1, .declareClass "A" none [⟨1, .define "m" ["a"] []⟩]⟩,
        ⟨2, .assign (.name "o") (.new "A" [])⟩]
    let s := ((Request.execute ⟨0⟩ program).run 6 ⟨10, 0, [⟨0⟩]⟩ Store.empty.addRoot.2).2
    let args : List Value := [.boolean true]
    s.Regular ∧ (1 : Nat) < s.scopes.size ∧ Callable.Accepted (s.preferred ⟨1⟩ "m") args ∧
      ∃ d, Callable.Found (s.preferred ⟨1⟩ "m") args ⟨10, 0, [⟨1⟩, ⟨0⟩]⟩ s d ∧
        Interpreter.callMember 6 ⟨⟨1⟩, "A"⟩ "m" args ⟨10, 0, [⟨0⟩]⟩ s =
          (Below.upTo 6).invoke d args false ⟨10, 0, [⟨1⟩, ⟨0⟩]⟩ s := by
  intro program s args
  have regular : s.Regular := Store.regular_of_program 6 program ⟨10, 0, [⟨0⟩]⟩
  have inStore : (1 : Nat) < s.scopes.size := by decide +kernel
  have accepted : Callable.Accepted (s.preferred ⟨1⟩ "m") args := by decide +kernel
  have noFunctions : ((s.scope ⟨1⟩).functions.named "m").isEmpty = true := by decide +kernel
  let o : Object := ⟨⟨1⟩, "A"⟩
  have there : o.scope.index < s.scopes.size := inStore
  obtain ⟨d, found, ended⟩ :=
    ((regular.calls_agree there 6 "m" args).2.1 ⟨10, 0, [⟨0⟩]⟩).found accepted
  refine ⟨regular, inStore, accepted, d, found, ?_⟩
  rw [noFunctions] at ended
  exact ended

/-- An overload takes the argument, and the statement calls it; but a host looks
at the other one only, because that one returns a value. -/
theorem host_prefers_value :
    let program : Block :=
      [⟨1, .declareClass "A" none
          [⟨1, .define "m" ["a"] []⟩, ⟨2, .define "m" [] [⟨2, .return (some (.bool true))⟩]⟩]⟩,
        ⟨3, .assign (.name "o") (.new "A" [])⟩]
    let s := ((Request.execute ⟨0⟩ program).run 6 ⟨10, 0, [⟨0⟩]⟩ Store.empty.addRoot.2).2
    let args : List Value := [.boolean true]
    Callable.Accepted (s.overloads ⟨1⟩ "m") args ∧
      ((Below.upTo 6).execute 6 ⟨0⟩ (.call (.method (.name "o") "m") [.bool true])
        ⟨10, 0, [⟨0⟩]⟩ s).1.toOption.isSome = true ∧
      (Interpreter.callMember 6 ⟨⟨1⟩, "A"⟩ "m" args ⟨10, 0, [⟨0⟩]⟩ s).1 =
        .error (.fault (Cause.noMatchingOverload "m" [.boolean])) := by
  intro program s args
  exact ⟨by decide +kernel, by decide +kernel, Run.eq_error_of_fault? (by decide +kernel)⟩

end RoutineScript
