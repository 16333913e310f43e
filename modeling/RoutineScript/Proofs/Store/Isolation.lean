/-
Snapshot isolation: what a scope sees is settled when it is created, and
afterwards only a few changes elsewhere reach it.

A new scope sees what its parent sees. From then on the operations on other
scopes leave it the names, the overloads and the classes it sees, and all
values but one: an assignment of a name that the other scope has inherited is
written through the slot of that name, so whoever sees that slot sees the
value. It sees it under the same name, because no slot has two (`Tidy`).
-/
import RoutineScript.Proofs.Store.Operation
import RoutineScript.Run.Execute

namespace RoutineScript

-- =================================================================== views

/-- What can be seen from a scope, by name: the values of variables, the
overloads for statements and for values in the order in which they are tried,
and the classes. -/
structure View where
  value : String → Option Value
  procedures : String → List Callable
  functions : String → List Callable
  class? : String → Option Class

namespace Store

/-- What can be seen from a scope. -/
def view (s : Store) (id : ScopeId) : View where
  value := s.get? id
  procedures := (s.scope id).procedures.named
  functions := (s.scope id).functions.named
  class? := s.class? id

/-- A new scope sees what its parent sees. -/
theorem view_addChild (s : Store) (parent : ScopeId) :
    (s.addChild parent).2.view (s.addChild parent).1 = s.view parent := by
  have born : (s.addChild parent).2.scope (s.addChild parent).1 = (s.scope parent).below parent := by
    rw [addChild, scope_addScope, if_pos rfl]
  have value : (s.addChild parent).2.get? (s.addChild parent).1 = s.get? parent := by
    funext name
    exact s.get?_addChild parent name
  have procedures : ((s.scope parent).below parent).procedures.named
      = (s.scope parent).procedures.named := by
    funext name
    exact Overloads.named_snapshot _ name
  have functions : ((s.scope parent).below parent).functions.named
      = (s.scope parent).functions.named := by
    funext name
    exact Overloads.named_snapshot _ name
  have classes : ((s.scope parent).below parent).classes.get? = (s.scope parent).classes.get? := by
    funext name
    exact Table.get?_snapshot _ name
  unfold view class?
  rw [born, value, procedures, functions, classes]

end Store

namespace Operation

/-- The operation assigns an inherited name through a slot that a scope sees
under this name. -/
def Reaches (op : Operation) (s : Store) (c : ScopeId) (name : String) (v : Value) : Prop :=
  ∃ slot, op.WritesThrough s name slot v ∧ (s.scope c).bindings.get? name = some slot

variable {op : Operation} {s : Store} {c : ScopeId}

/-- A value that reaches a scope is seen there. -/
theorem get?_perform_of_reaches (tidy : s.Tidy) {name : String} {v : Value}
    (inStore : c.index < s.scopes.size) (other : op.subject ≠ some c)
    (reaches : op.Reaches s c name v) : (op.perform s).2.get? c name = some v := by
  obtain ⟨slot, writes, seen⟩ := reaches
  obtain ⟨half, bound⟩ := Store.binds_of_get? seen
  have inRange := tidy.exists_slot bound
  rw [Store.get?, scope_perform_of_ne inStore other, seen, Option.map_some,
    value_perform_of_writesThrough inRange writes]

/-- A value that is seen stays, unless another one reaches the scope. -/
theorem get?_perform_of_not (tidy : s.Tidy) {name : String}
    (inStore : c.index < s.scopes.size) (other : op.subject ≠ some c)
    (spared : ∀ v, ¬ op.Reaches s c name v) : (op.perform s).2.get? c name = s.get? c name := by
  rw [Store.get?, Store.get?, scope_perform_of_ne inStore other]
  cases seen : (s.scope c).bindings.get? name with
  | none => rfl
  | some slot =>
    obtain ⟨half, bound⟩ := Store.binds_of_get? seen
    refine congrArg some (value_perform_of_not (tidy.exists_slot bound) fun name' v writes => ?_)
    -- the slot is written under the name it is seen under
    have found := writes
    obtain ⟨id, -, -, inherited⟩ := found
    have written : s.Binds id .inherited name' slot := inherited
    have same : name' = name := tidy.one_name written bound
    subst same
    exact spared v ⟨slot, writes, seen⟩

end Operation

/-- Looking for a class that a parent expression names. -/
theorem Below.resolveClass_name (below : Below) (id : ScopeId) (name : String)
    (context : Context) (s : Store) :
    below.resolveClass id (.name name) context s =
      match s.class? id name with
      | some c => (.ok c, s)
      | none => (.error (.fault (Cause.notFound name)), s) := by
  show (Run.look (·.class? id name) >>= _) context s = _
  rw [Run.bind_apply]
  simp only [Run.look]
  cases s.class? id name <;> rfl

/-- Executing a class declaration whose parent is named is the operation. -/
theorem Below.declareClass_eq_attempt (below : Below) (id : ScopeId) (name : String)
    (parent : Option String) (body : Block) :
    below.declareClass id name (parent.map Expr.name) body =
      Run.attempt (Operation.declareClass id name parent body).perform := by
  funext context s
  show _ = Run.attempt (·.introduceClass id name parent body) context s
  unfold Below.declareClass Run.attempt Store.introduceClass Store.parentClass
  cases Name.check name with
  | error fault => rfl
  | ok =>
    cases parent with
    | none => rfl
    | some parent =>
      show ((below.resolveClass id (.name parent) >>= fun c => _) : Run Unit) context s = _
      rw [Run.bind_apply, Below.resolveClass_name]
      dsimp only
      cases s.class? id parent <;> rfl

-- =============================================================== isolation

/-- In every scope tree that operations build: a new scope sees what its
parent sees; an operation on another scope leaves a scope its names, its
overloads and its classes, and changes a value that it sees exactly when that
value reaches it; and an operation that is refused changes nothing. The class
declarations among the operations are those that a program executes. -/
theorem snapshot_isolation (ops : List Operation) :
    let s := Operation.performAll ops .empty
    (∀ p, (s.addChild p).2.view (s.addChild p).1 = s.view p) ∧
    (∀ (op : Operation) (c : ScopeId), c.index < s.scopes.size → op.subject ≠ some c →
      let seen := s.view c
      let seen' := (op.perform s).2.view c
      (∀ name, seen'.value name = none ↔ seen.value name = none) ∧
      seen'.procedures = seen.procedures ∧ seen'.functions = seen.functions ∧
      seen'.class? = seen.class? ∧
      (∀ name, seen'.value name ≠ seen.value name → ∃ v, op.Reaches s c name v) ∧
      ∀ name v, op.Reaches s c name v → seen'.value name = some v) ∧
    (∀ (op : Operation) (fault : Fault),
      (op.perform s).1 = .error fault → (op.perform s).2 = s) ∧
    ∀ (below : Below) (id : ScopeId) (name : String) (parent : Option String) (body : Block),
      below.declareClass id name (parent.map Expr.name) body =
        Run.attempt (Operation.declareClass id name parent body).perform := by
  intro s
  have tidy : s.Tidy := Operation.tidy_performAll Store.tidy_empty
  refine ⟨s.view_addChild, fun op c inStore other => ?_,
    fun op fault => Operation.perform_eq_of_error, Below.declareClass_eq_attempt⟩
  have same : (op.perform s).2.scope c = s.scope c := Operation.scope_perform_of_ne inStore other
  refine ⟨fun name => ?_, ?_, ?_, ?_, fun name changed => ?_, fun name v reaches => ?_⟩
  · show (op.perform s).2.get? c name = none ↔ s.get? c name = none
    rw [Store.get?, Store.get?, same, Option.map_eq_none_iff, Option.map_eq_none_iff]
  · show ((op.perform s).2.scope c).procedures.named = _
    rw [same]
    rfl
  · show ((op.perform s).2.scope c).functions.named = _
    rw [same]
    rfl
  · show ((op.perform s).2.scope c).classes.get? = _
    rw [same]
    rfl
  · refine Classical.byContradiction fun spared => changed ?_
    exact Operation.get?_perform_of_not tidy inStore other fun v reaches => spared ⟨v, reaches⟩
  · exact Operation.get?_perform_of_reaches tidy inStore other reaches

/-- A child that assigns what it has inherited is seen to do so by its
parent. -/
theorem snapshot_isolation_of_inherited :
    let s := Operation.performAll
      [.root, .declare ⟨0⟩ "x" (.boolean true), .child ⟨0⟩, .declare ⟨0⟩ "y" .null] .empty
    let op := Operation.assign ⟨1⟩ "x" (.boolean false)
    (s.view ⟨0⟩).value "x" = some (.boolean true) ∧ (s.view ⟨1⟩).value "y" = none ∧
      op.subject ≠ some ⟨0⟩ ∧ op.Reaches s ⟨0⟩ "x" (.boolean false) ∧
      ((op.perform s).2.view ⟨0⟩).value "x" = some (.boolean false) := by
  intro s op
  have reaches : op.Reaches s ⟨0⟩ "x" (.boolean false) := ⟨⟨0⟩, ⟨⟨1⟩, rfl, rfl, rfl⟩, rfl⟩
  have other : op.subject ≠ some ⟨0⟩ := by decide
  have isolated := (snapshot_isolation
    [.root, .declare ⟨0⟩ "x" (.boolean true), .child ⟨0⟩, .declare ⟨0⟩ "y" .null]).2.1
  obtain ⟨-, -, -, -, -, seen⟩ := isolated op ⟨0⟩ (by decide) other
  exact ⟨rfl, rfl, other, reaches, seen "x" _ reaches⟩

end RoutineScript
