/-
Stores that hold only code of a certain kind.

A run executes the statements it was asked to execute, and those of the
definitions and classes that it finds in the store. So what is left out of a
program is never executed, provided that it is left out of the store as well:
a property of statements holds of all that is executed if it holds of the
program, at every depth (`Stmt.everywhere`), and of all callables and classes
that are visible anywhere (`Store.Written`).

`Change.Made` tells which changes such a run makes, apart from the joining of
a parent part to its object. All of them, and that one too, keep a store
`Written`.
-/
import RoutineScript.Proofs.Run.Scopes

namespace RoutineScript

-- ============================================================== statements

namespace Stmt

variable (p : Stmt → Bool)

mutual

/-- Whether a property holds of a statement and of all statements within it. -/
def everywhere : Stmt → Bool
  | branch arms => p (branch arms) && armsEverywhere arms
  | whileLoop condition body => p (whileLoop condition body) && blockEverywhere body
  | forLoop count body => p (forLoop count body) && blockEverywhere body
  | countLoop name start stop body =>
    p (countLoop name start stop body) && blockEverywhere body
  | attempt body none => p (attempt body none) && blockEverywhere body
  | attempt body (some handler) =>
    p (attempt body (some handler)) && blockEverywhere body && blockEverywhere handler
  | thread body => p (thread body) && blockEverywhere body
  | define name params body => p (define name params body) && blockEverywhere body
  | declareClass name parent body => p (declareClass name parent body) && blockEverywhere body
  | statement => p statement

/-- Whether a property holds of all statements of a block and within them. -/
def blockEverywhere : List (Located Stmt) → Bool
  | [] => true
  | ⟨_, statement⟩ :: rest => statement.everywhere && blockEverywhere rest

/-- Whether a property holds of all statements in some arms. -/
def armsEverywhere : List (Option Expr × List (Located Stmt)) → Bool
  | [] => true
  | (_, body) :: rest => blockEverywhere body && armsEverywhere rest

end

/-- The blocks of a statement that has no arms. -/
def bodies : Stmt → List (List (Located Stmt))
  | whileLoop _ body | forLoop _ body | countLoop _ _ _ body | thread body
  | define _ _ body | declareClass _ _ body | attempt body none => [body]
  | attempt body (some handler) => [body, handler]
  | _ => []

variable {p}

/-- A property that holds everywhere holds of the statement itself. -/
theorem of_everywhere {statement : Stmt} (holds : statement.everywhere p = true) :
    p statement = true := by
  cases statement with
  | attempt body handler =>
    cases handler <;> (unfold everywhere at holds; simp only [Bool.and_eq_true] at holds)
    · exact holds.1
    · exact holds.1.1
  | branch | whileLoop | forLoop | countLoop | thread | define | declareClass =>
    unfold everywhere at holds
    exact (Bool.and_eq_true_iff.1 holds).1
  | _ => exact holds

/-- A property that holds everywhere holds everywhere in each block of the
statement. -/
theorem body_of_everywhere {statement : Stmt} {body : List (Located Stmt)}
    (holds : statement.everywhere p = true) (inside : body ∈ statement.bodies) :
    blockEverywhere p body = true := by
  cases statement with
  | whileLoop | forLoop | countLoop | thread | define | declareClass =>
    unfold everywhere at holds
    rw [List.mem_singleton.1 inside]
    exact (Bool.and_eq_true_iff.1 holds).2
  | attempt first handler =>
    unfold everywhere at holds
    cases handler with
    | none =>
      rw [List.mem_singleton.1 inside]
      exact (Bool.and_eq_true_iff.1 holds).2
    | some handler =>
      rw [Bool.and_eq_true, Bool.and_eq_true] at holds
      cases inside with
      | head => exact holds.1.2
      | tail _ inside =>
        rw [List.mem_singleton.1 inside]
        exact holds.2
  | _ => cases inside

theorem arms_of_everywhere {arms : List (Option Expr × List (Located Stmt))}
    (holds : (branch arms).everywhere p = true) : armsEverywhere p arms = true := by
  unfold everywhere at holds
  exact (Bool.and_eq_true_iff.1 holds).2

mutual

/-- What holds of all statements holds everywhere. -/
theorem everywhere_of_forall (all : ∀ statement, p statement = true) :
    ∀ statement : Stmt, statement.everywhere p = true
  | branch arms => by rw [everywhere, all, armsEverywhere_of_forall all arms]; rfl
  | whileLoop condition body => by rw [everywhere, all, blockEverywhere_of_forall all body]; rfl
  | forLoop count body => by rw [everywhere, all, blockEverywhere_of_forall all body]; rfl
  | countLoop name start stop body => by
    rw [everywhere, all, blockEverywhere_of_forall all body]; rfl
  | attempt body none => by rw [everywhere, all, blockEverywhere_of_forall all body]; rfl
  | attempt body (some handler) => by
    rw [everywhere, all, blockEverywhere_of_forall all body, blockEverywhere_of_forall all handler]; rfl
  | thread body => by rw [everywhere, all, blockEverywhere_of_forall all body]; rfl
  | define name params body => by rw [everywhere, all, blockEverywhere_of_forall all body]; rfl
  | declareClass name parent body => by
    rw [everywhere, all, blockEverywhere_of_forall all body]; rfl
  | assign .. | compound .. | step .. | delete _ | make _ | call .. | .return _ | invalid _ => all _

theorem blockEverywhere_of_forall (all : ∀ statement, p statement = true) :
    ∀ block : List (Located Stmt), blockEverywhere p block = true
  | [] => rfl
  | ⟨_, statement⟩ :: rest => by
    rw [blockEverywhere, everywhere_of_forall all statement, blockEverywhere_of_forall all rest]; rfl

theorem armsEverywhere_of_forall (all : ∀ statement, p statement = true) :
    ∀ arms : List (Option Expr × List (Located Stmt)), armsEverywhere p arms = true
  | [] => rfl
  | (_, body) :: rest => by
    rw [armsEverywhere, blockEverywhere_of_forall all body, armsEverywhere_of_forall all rest]; rfl

end

end Stmt

/-- Whether a property holds of all statements of a block and within them. -/
abbrev Block.everywhere (block : Block) (p : Stmt → Bool) : Bool :=
  Stmt.blockEverywhere p block

-- ================================================================== stores

variable {p : Stmt → Bool}

/-- All code of a class and its ancestors has a property. -/
def Class.Written (p : Stmt → Bool) (c : Class) : Prop :=
  ∀ d ∈ c :: c.ancestors, d.body.everywhere p = true

theorem Class.Written.body {c : Class} (written : c.Written p) : c.body.everywhere p = true :=
  written c List.mem_cons_self

theorem Class.ancestors_of_parent {c parent : Class} (isParent : c.parent = some parent) :
    c.ancestors = parent :: parent.ancestors := by
  obtain ⟨name, up, body, home, arities⟩ := c
  cases isParent
  rw [Class.ancestors]

/-- What holds of a class and its ancestors holds of the class, and of its
parent and that one's ancestors. -/
theorem Class.forall_ancestors_iff {P : Class → Prop} {c : Class} :
    (∀ d ∈ c :: c.ancestors, P d) ↔
      P c ∧ ∀ q, c.parent = some q → ∀ d ∈ q :: q.ancestors, P d := by
  rw [List.forall_mem_cons]
  refine and_congr_right fun _ => ?_
  cases isParent : c.parent with
  | none =>
    obtain ⟨name, up, body, home, arities⟩ := c
    cases isParent
    simp [Class.ancestors]
  | some q =>
    rw [Class.ancestors_of_parent isParent]
    exact ⟨fun all _ same => Option.some.inj same ▸ all, fun all => all q rfl⟩

theorem Class.Written.parent {c parent : Class} (written : c.Written p)
    (isParent : c.parent = some parent) : parent.Written p :=
  (Class.forall_ancestors_iff.1 written).2 parent isParent

theorem Class.written_of_forall (all : ∀ statement, p statement = true) (c : Class) :
    c.Written p :=
  fun d _ => Stmt.blockEverywhere_of_forall all d.body

/-- A class has a property if its body and its parent have. -/
theorem Class.written_of_parent {c : Class} (body : c.body.everywhere p = true)
    (parent : ∀ q, c.parent = some q → q.Written p) : c.Written p :=
  Class.forall_ancestors_iff.2 ⟨body, parent⟩

/-- All code that a call of an overload executes has a property. -/
def Callable.Written (p : Stmt → Bool) (c : Callable) : Prop :=
  match c.body with
  | .host _ => True
  | .script _ body _ => body.everywhere p = true
  | .super parent _ => parent.Written p

theorem Callable.written_of_forall (all : ∀ statement, p statement = true) (c : Callable) :
    c.Written p := by
  unfold Callable.Written
  split
  · trivial
  · exact Stmt.blockEverywhere_of_forall all _
  · next parent _ _ => exact parent.written_of_forall all

/-- All code that is visible from a scope has a property. -/
structure Scope.Written (p : Stmt → Bool) (scope : Scope) : Prop where
  callable : ∀ c ∈ scope.callables, c.Written p
  «class» : ∀ {name c}, scope.classes.get? name = some c → c.Written p

namespace Store

/-- All code in a store has a property. -/
def Written (s : Store) (p : Stmt → Bool) : Prop :=
  ∀ id, (s.scope id).Written p

variable {s : Store}

theorem written_of_forall (all : ∀ statement, p statement = true) (s : Store) : s.Written p :=
  fun _ => ⟨fun d _ => d.written_of_forall all, fun {_ c} _ => c.written_of_forall all⟩

/-- A change keeps the code in a store when all that it brings has the
property. -/
theorem Written.apply (written : s.Written p) (c : Change)
    (adds : ∀ {key d}, c.Adds key d → d.Written p)
    (introduces : ∀ {d}, c.Introduces d → d.Written p) : (c.apply s).Written p := by
  have callable := Change.forall_callable_apply (fun id => (written id).callable) c adds
  refine fun key => ⟨callable key, fun found => ?_⟩
  rcases Change.class_of_apply found with ⟨id, before⟩ | introduced
  · exact (written id).class before
  · exact introduces introduced

theorem Written.addChild (written : s.Written p) (parent : ScopeId) :
    (s.addChild parent).2.Written p :=
  written.apply (.operation (.child parent)) nofun False.elim

theorem Written.merge (written : s.Written p) (id base : ScopeId) : (s.merge id base).Written p :=
  written.apply (.merge id base) nofun nofun

theorem Written.noteSuper (written : s.Written p) (id : ScopeId) : (s.noteSuper id).Written p :=
  written.apply (.noteSuper id) nofun nofun

end Store

-- =========================================================== native stores

/-- A store that holds only callables of the host. -/
structure Store.IsNative (s : Store) : Prop where
  callable : ∀ id, ∀ c ∈ (s.scope id).callables, c.isHost = true
  «class» : ∀ id name, s.class? id name = none

namespace Store

theorem isNative_empty : empty.IsNative where
  callable id c mem := by
    rw [callables_empty] at mem
    cases mem
  «class» id name := by
    simp [class?, scope, empty, default, Scope.root, Table.empty, Table.get?]

/-- A host that adds functions of its own keeps a store native. -/
theorem IsNative.perform {s : Store} (native : s.IsNative) (op : Operation)
    (plain : ∀ id name parent body, op ≠ .declareClass id name parent body) :
    (op.perform s).2.IsNative where
  callable := Change.forall_callable_apply native.callable (.operation op) fun added => by
    cases added
    rfl
  «class» id name := by
    rw [Option.eq_none_iff_forall_ne_some]
    intro c found
    rcases Change.class_of_apply (c := .operation op) found with ⟨id, before⟩ | introduced
    · cases (native.class id name).symm.trans before
    · cases op with
      | declareClass id name parent body => exact plain id name parent body rfl
      | _ => exact introduced

theorem IsNative.exists_host {s : Store} (native : s.IsNative) {id : ScopeId} {c : Callable}
    (mem : c ∈ (s.scope id).callables) : ∃ function, c.body = .host function := by
  have isHost := native.callable id c mem
  unfold Callable.isHost at isHost
  split at isHost
  · next function body => exact ⟨function, body⟩
  · cases isHost

theorem IsNative.written {s : Store} (native : s.IsNative) (p : Stmt → Bool) :
    s.Written p := by
  intro id
  constructor
  · intro c mem
    obtain ⟨function, body⟩ := native.exists_host mem
    rw [Callable.Written, body]
    trivial
  · intro name c found
    cases (native.class id name).symm.trans found

end Store

-- ================================================================= changes

/-- The changes that a run of allowed statements makes, but for joining a
parent part to its object. The books of a construction are kept for objects
that are new. -/
inductive Change.Made (allows : Stmt → Bool) (isNew : ScopeId → Prop) : Change → Prop where
  | child (parent : ScopeId) : Made allows isNew (.operation (.child parent))
  | declare (id : ScopeId) (name : String) (v : Value) :
      Made allows isNew (.operation (.declare id name v))
  | assign (id : ScopeId) (name : String) (v : Value) :
      Made allows isNew (.operation (.assign id name v))
  | remove {place : Place} (allowed : allows (.delete place) = true) (id : ScopeId)
      (name : String) : Made allows isNew (.operation (.remove id name))
  | host (state : HostState) : Made allows isNew (.host state)
  | define {name : String} {params : List String} {body : Block}
      (allowed : (Stmt.define name params body).everywhere allows = true) (id : ScopeId) :
      Made allows isNew (.define id name params body)
  | declareClass {c : Class} (written : c.Written allows) : Made allows isNew (.declareClass c)
  | offerSuper {id : ScopeId} (new : isNew id) {parent : Class} (written : parent.Written allows)
      (arity : Nat) : Made allows isNew (.offer id (.ofSuper arity parent id))
  | supply {id : ScopeId} (new : isNew id) :
      Made allows isNew (.offer id (.ofScript constructorName [] [] id))
  | noteFrame {id : ScopeId} (new : isNew id) (frame : ScopeId) :
      Made allows isNew (.noteFrame id frame)
  | drop {id : ScopeId} (new : isNew id) {name : String}
      (books : name = superName ∨ name = constructorName) :
      Made allows isNew (.dropCallables id name)

theorem Change.Made.mono {allows : Stmt → Bool} {isNew isNew' : ScopeId → Prop} {c : Change}
    (made : c.Made allows isNew) (sub : ∀ id, isNew id → isNew' id) : c.Made allows isNew' := by
  cases made with
  | child => exact .child _
  | declare => exact .declare ..
  | assign => exact .assign ..
  | remove allowed => exact .remove allowed ..
  | host => exact .host _
  | define allowed => exact .define allowed _
  | declareClass written => exact .declareClass written
  | offerSuper new written => exact .offerSuper (sub _ new) written _
  | supply new => exact .supply (sub _ new)
  | noteFrame new => exact .noteFrame (sub _ new) _
  | drop new books => exact .drop (sub _ new) books

/-- No change brings code into a store that is not allowed. -/
theorem Change.Made.written {allows : Stmt → Bool} {isNew : ScopeId → Prop} {c : Change}
    {s : Store} (made : c.Made allows isNew) (written : s.Written allows) :
    (c.apply s).Written allows := by
  refine written.apply c (fun {key d} added => ?_) (fun {d} introduced => ?_)
  · cases made with
    | define allowed id =>
      cases added
      rw [Stmt.everywhere, Bool.and_eq_true] at allowed
      exact allowed.2
    | offerSuper _ own arity =>
      cases added
      exact own
    | supply =>
      cases added
      exact rfl
    | _ => cases added
  · cases made with
    | declareClass own =>
      cases introduced
      exact own
    | _ => cases introduced

end RoutineScript
