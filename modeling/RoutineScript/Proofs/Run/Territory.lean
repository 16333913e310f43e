/-
Where runs may do what.

A run that works in one scope has effects in others: it follows the homes of
what it calls, and the objects that it holds. To show that some scopes are
out of its reach, the scopes of a store are divided up (`Territory`). All
objects that anybody holds are free, and in a free scope a script may bind and
remove names, as it does through a handle. Some of the free scopes are those
in which scripts work, and may do everything. In scopes that are tied, a
script may only do what is plain. The homes of definitions and classes are
shelters: in whatever is made below them scripts may work.

What has to be true of a store for this to go on is `Territory.Holds`, and
the changes that a script may make then are `Territory.Permitted`. A `Regime`
adds what a particular purpose keeps true; that runs keep to it is shown in
`Proofs/Run/Abiding.lean`.
-/
import RoutineScript.Proofs.Run.Places
import RoutineScript.Proofs.Run.Evaluator

namespace RoutineScript

open Mentions (within)

-- ==================================================================== homes

/-- The homes of a class and its ancestors. -/
def Class.homes (c : Class) : List ScopeId :=
  (c :: c.ancestors).map home

theorem Class.home_mem_homes (c : Class) : c.home ∈ c.homes :=
  List.mem_map_of_mem List.mem_cons_self

theorem Class.homes_eq (c : Class) : c.homes = c.home :: (c.parent.map homes).getD [] := by
  obtain ⟨name, _ | parent, body, home, arities⟩ := c <;> rw [homes, ancestors] <;> rfl

theorem Class.mem_homes_of_parent {c parent : Class} (isParent : c.parent = some parent)
    {id : ScopeId} (mem : id ∈ parent.homes) : id ∈ c.homes := by
  rw [homes_eq, isParent]
  exact List.mem_cons_of_mem _ mem

/-- The scopes that a call of an overload goes to by itself. -/
def Callable.homes (c : Callable) : List ScopeId :=
  match c.body with
  | .host _ => []
  | .script _ _ home => [home]
  | .super parent target => target :: parent.homes

-- ==================================================================== plain

/-- A statement that neither defines anything nor starts a thread. -/
def Stmt.isPlain : Stmt → Bool
  | define .. | declareClass .. | thread _ => false
  | _ => true

/-- A statement that runs its bodies in scopes of their own. -/
def Stmt.isBlock : Stmt → Bool
  | branch _ | whileLoop .. | forLoop .. | countLoop .. | thread _ => true
  | _ => false

-- ===================================================================== names

/-- Between two scopes nothing differs but what variable names mean. -/
def Scope.Rebinds (scope other : Scope) : Prop :=
  ∃ bindings, scope = { other with bindings }

theorem Scope.Rebinds.refl (scope : Scope) : scope.Rebinds scope :=
  ⟨scope.bindings, rfl⟩

theorem Scope.Rebinds.trans {a b c : Scope} (second : c.Rebinds b) (first : b.Rebinds a) :
    c.Rebinds a := by
  obtain ⟨bindings, rfl⟩ := second
  obtain ⟨_, rfl⟩ := first
  exact ⟨bindings, rfl⟩

-- ================================================================ territories

/-- How the scopes of a store are divided up. -/
structure Territory where
  /-- Where all objects are that anybody holds. Scripts may bind names there. -/
  free : Store → Set ScopeId
  /-- Where scripts work, and may do everything. -/
  work : Store → Set ScopeId
  /-- Where scripts may only do what is plain. -/
  tied : Store → Set ScopeId
  /-- Where definitions and classes are at home. -/
  home : Store → Set ScopeId
  free_of_work : ∀ {s : Store}, work s ⊆ free s
  home_of_free : ∀ {s : Store}, free s ⊆ home s
  free_mono : ∀ {s t : Store}, s.Older t → free s ⊆ free t
  work_mono : ∀ {s t : Store}, s.Older t → work s ⊆ work t
  tied_mono : ∀ {s t : Store}, s.Older t → tied s ⊆ tied t
  home_mono : ∀ {s t : Store}, s.Older t → home s ⊆ home t

namespace Territory

variable (T : Territory) {s t : Store} {c : Change}

/-- What is known of a store: all objects in it are free, and whatever can be
called or constructed is at home. -/
structure Holds (s : Store) : Prop where
  knows : s.Knows (T.free s)
  callable : ∀ id, ∀ d ∈ (s.scope id).callables, ∀ place ∈ d.homes, place ∈ T.home s
  «class» : ∀ {id name c}, s.class? id name = some c → ∀ place ∈ c.homes, place ∈ T.home s

/-- An overload that may be called. -/
structure Trusts (s : Store) (d : Callable) : Prop where
  knows : within (T.free s) d
  homes : ∀ place ∈ d.homes, place ∈ T.home s

/-- In a scope a script may at least bind and remove names. -/
def MayBind (s : Store) (id : ScopeId) : Prop :=
  id ∈ T.free s ∨ id ∈ T.tied s

/-- In a scope a script may do everything, or what is plain. -/
def Permits (s : Store) (id : ScopeId) (plain : Bool) : Prop :=
  id ∈ T.work s ∨ id ∈ T.tied s ∧ plain = true

/-- In scopes made below a scope it may. -/
def Shelters (s : Store) (id : ScopeId) (plain : Bool) : Prop :=
  id ∈ T.home s ∨ id ∈ T.tied s ∧ plain = true

/-- The changes that scripts may make, but for joining a parent part to its
object. -/
inductive Permitted (s : Store) : Change → Prop where
  | host (state : HostState) : Permitted s (.host state)
  | child {parent : ScopeId} : T.Shelters s parent true → Permitted s (.operation (.child parent))
  | declare {id : ScopeId} {v : Value} (name : String) : T.MayBind s id →
      within (T.free s) v → Permitted s (.operation (.declare id name v))
  | assign {id : ScopeId} {v : Value} (name : String) : T.MayBind s id →
      within (T.free s) v → Permitted s (.operation (.assign id name v))
  | remove {id : ScopeId} (name : String) : T.MayBind s id →
      Permitted s (.operation (.remove id name))
  | define {id : ScopeId} (name : String) (params : List String) (body : Block) : id ∈ T.work s →
      Permitted s (.define id name params body)
  | declareClass {c : Class} : c.home ∈ T.work s → (∀ place ∈ c.homes, place ∈ T.home s) →
      Permitted s (.declareClass c)
  | offerSuper {id : ScopeId} {parent : Class} (arity : Nat) : id ∈ T.work s →
      (∀ place ∈ parent.homes, place ∈ T.home s) → Permitted s (.offer id (.ofSuper arity parent id))
  | supply {id : ScopeId} : id ∈ T.work s →
      Permitted s (.offer id (.ofScript constructorName [] [] id))
  | noteFrame {id frame : ScopeId} : id ∈ T.work s → frame ∈ T.work s →
      Permitted s (.noteFrame id frame)
  | drop {id : ScopeId} (name : String) : id ∈ T.work s → Permitted s (.dropCallables id name)

variable {T}

theorem home_of_work {id : ScopeId} (works : id ∈ T.work s) : id ∈ T.home s :=
  T.home_of_free (T.free_of_work works)

theorem Permits.shelters {id : ScopeId} {plain : Bool} (permits : T.Permits s id plain) :
    T.Shelters s id plain :=
  permits.imp_left home_of_work

/-- Where something may be done, names may be bound. -/
theorem Permits.mayBind {id : ScopeId} {plain : Bool} (permits : T.Permits s id plain) :
    T.MayBind s id :=
  permits.imp (fun works => T.free_of_work works) And.left

theorem Shelters.plainly {id : ScopeId} {plain : Bool} (shelters : T.Shelters s id plain) :
    T.Shelters s id true :=
  shelters.imp_right fun ⟨tied, _⟩ => ⟨tied, rfl⟩

/-- What is permitted stays so, also for parts of what was plain. -/
theorem Permits.mono {id : ScopeId} {plain plain' : Bool} (permits : T.Permits s id plain)
    (older : s.Older t) (part : plain = true → plain' = true) : T.Permits t id plain' :=
  permits.imp (fun works => T.work_mono older works)
    fun ⟨tied, isPlain⟩ => ⟨T.tied_mono older tied, part isPlain⟩

theorem MayBind.mono {id : ScopeId} (mayBind : T.MayBind s id) (older : s.Older t) :
    T.MayBind t id :=
  mayBind.imp (fun free => T.free_mono older free) fun tied => T.tied_mono older tied

theorem Shelters.mono {id : ScopeId} {plain plain' : Bool} (shelters : T.Shelters s id plain)
    (older : s.Older t) (part : plain = true → plain' = true) : T.Shelters t id plain' :=
  shelters.imp (fun home => T.home_mono older home)
    fun ⟨tied, isPlain⟩ => ⟨T.tied_mono older tied, part isPlain⟩

/-- Only where everything may be done, something may be done that is not
plain. -/
theorem Permits.works {id : ScopeId} (permits : T.Permits s id false) : id ∈ T.work s :=
  permits.resolve_right fun ⟨_, isPlain⟩ => Bool.false_ne_true isPlain

theorem Trusts.mono {d : Callable} (trusts : T.Trusts s d) (older : s.Older t) : T.Trusts t d where
  knows := Mentions.mono (T.free_mono older) trusts.knows
  homes place mem := T.home_mono older (trusts.homes place mem)

theorem Holds.trusts (holds : T.Holds s) {id : ScopeId} {d : Callable}
    (mem : d ∈ (s.scope id).callables) : T.Trusts s d :=
  ⟨holds.knows.callable id d mem, holds.callable id d mem⟩

/-- Scripts change scopes only where they may at least bind names. -/
theorem Permitted.mayBind (permitted : T.Permitted s c) {id : ScopeId}
    (subject : c.subject = some id) : T.MayBind s id := by
  cases permitted with
  | host | child => cases subject
  | declare _ mayBind | assign _ mayBind | remove _ mayBind =>
    cases subject
    exact mayBind
  | define _ _ _ works | offerSuper _ works | supply works | noteFrame works | drop _ works
  | declareClass works =>
    cases subject
    exact .inl (T.free_of_work works)

theorem Permitted.ne_noteSuper (permitted : T.Permitted s c) (id : ScopeId) :
    c ≠ .noteSuper id := by
  rintro rfl
  cases permitted

/-- All other scopes stay as they were. -/
theorem Permitted.scope_apply (permitted : T.Permitted s c) {key : ScopeId}
    (inStore : key.index < s.scopes.size) (barred : ¬ T.MayBind s key) :
    (c.apply s).scope key = s.scope key :=
  Change.scope_apply_of_ne inStore (fun subject => barred (permitted.mayBind subject))
    fun id notes => absurd notes (permitted.ne_noteSuper id)

/-- Where scripts do not work, nothing is changed but what names mean. -/
theorem Permitted.rebinds (permitted : T.Permitted s c) {key : ScopeId}
    (inStore : key.index < s.scopes.size) (idle : key ∉ T.work s) :
    ((c.apply s).scope key).Rebinds (s.scope key) := by
  by_cases subject : c.subject = some key
  · have made := c.makes s key
    generalize (c.apply s).scope key = scope at made
    cases permitted with
    | host | child => cases subject
    | declare | assign | remove =>
      cases subject
      cases made with
      | same => exact .refl _
      | bind => exact ⟨_, rfl⟩
      | introduce introduces => exact introduces.elim
    | define _ _ _ works | offerSuper _ works | supply works | noteFrame works | drop _ works
    | declareClass works =>
      cases subject
      exact absurd works idle
  · rw [Change.scope_apply_of_ne inStore subject fun id notes =>
      absurd notes (permitted.ne_noteSuper id)]
    exact .refl _

-- ================================================================= invariance

/-- What is known of a store stays known with a change that uses what is free
and brings what is at home. -/
theorem Holds.apply (holds : T.Holds s) (uses : c.Uses (T.free s))
    (adds : ∀ {id d}, c.Adds id d → ∀ place ∈ d.homes, place ∈ T.home s)
    (introduces : ∀ {d}, c.Introduces d → ∀ place ∈ d.homes, place ∈ T.home s) :
    T.Holds (c.apply s) where
  knows :=
    (Change.knows_apply holds.knows uses).mono (T.free_mono (Store.older_apply c s))
  callable := by
    refine Change.forall_callable_apply (fun id d mem place home => ?_) c fun added place home => ?_
    · exact T.home_mono (Store.older_apply c s) (holds.callable id d mem place home)
    · exact T.home_mono (Store.older_apply c s) (adds added place home)
  «class» {id name d} found place home := by
    rcases Change.class_of_apply found with ⟨key, before⟩ | introduced
    · exact T.home_mono (Store.older_apply c s) (holds.class before place home)
    · exact T.home_mono (Store.older_apply c s) (introduces introduced place home)

theorem Permitted.uses (permitted : T.Permitted s c) : c.Uses (T.free s) := by
  cases permitted with
  | declare _ _ known | assign _ _ known => exact known
  | offerSuper arity => exact within_ofSuper arity _ _
  | supply => exact within_ofScript _ _ _ _
  | _ => trivial

theorem Holds.permitted (holds : T.Holds s) (permitted : T.Permitted s c) : T.Holds (c.apply s) := by
  refine holds.apply permitted.uses (fun {id d} added place mem => ?_) fun {d} introduced place mem => ?_
  · cases permitted with
    | define _ _ _ works | supply works =>
      cases added
      rw [List.mem_singleton.1 mem]
      exact home_of_work works
    | offerSuper _ works homes =>
      cases added
      rcases List.mem_cons.1 mem with rfl | mem
      · exact home_of_work works
      · exact homes place mem
    | _ => cases added
  · cases permitted with
    | declareClass _ homes =>
      cases introduced
      exact homes place mem
    | _ => cases introduced

/-- A parent part brings nothing that is not known. -/
theorem Holds.join (holds : T.Holds s) (target base : ScopeId) :
    T.Holds ((s.merge target base).noteSuper target) :=
  (holds.apply (c := .merge target base) trivial nofun nofun).apply (c := .noteSuper target)
    trivial nofun nofun

end Territory

-- =================================================================== regimes

/-- A territory, and what is kept true in it. -/
structure Regime extends Territory where
  keeps : Store → Prop
  /-- In what is made in a shelter scripts may work. -/
  born : ∀ {s : Store} {parent : ScopeId}, toTerritory.Holds s → keeps s → parent ∈ home s →
    (s.addChild parent).1 ∈ work (s.addChild parent).2
  bornTied : ∀ {s : Store} {parent : ScopeId}, toTerritory.Holds s → keeps s → parent ∈ tied s →
    (s.addChild parent).1 ∈ tied (s.addChild parent).2
  change : ∀ {s : Store} {c : Change}, toTerritory.Holds s → keeps s → toTerritory.Permitted s c →
    keeps (c.apply s)
  join : ∀ {s : Store} {target base : ScopeId}, toTerritory.Holds s → keeps s → target ∈ home s →
    base ∈ free s → keeps ((s.merge target base).noteSuper target)

/-- A store in which a regime is in force. -/
structure Regime.Rules (R : Regime) (s : Store) : Prop where
  holds : R.Holds s
  keeps : R.keeps s

namespace Regime

variable {R : Regime} {s : Store} {c : Change}

theorem Rules.permitted (rules : R.Rules s) (permitted : R.Permitted s c) : R.Rules (c.apply s) :=
  ⟨rules.holds.permitted permitted, R.change rules.holds rules.keeps permitted⟩

theorem Rules.join (rules : R.Rules s) {target base : ScopeId} (atHome : target ∈ R.home s)
    (free : base ∈ R.free s) : R.Rules ((s.merge target base).noteSuper target) :=
  ⟨rules.holds.join target base, R.join rules.holds rules.keeps atHome free⟩

end Regime

end RoutineScript
