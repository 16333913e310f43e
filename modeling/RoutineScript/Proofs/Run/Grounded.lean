/-
Stores in which everything has its place.

A store is grounded if each scope was made below an older one, and if
everything that can be held, called or constructed is in the store: the
objects that somebody holds, the homes of definitions, of classes and of their
ancestors. A store without scopes is grounded, and so is what becomes of a
grounded one, as long as its host and its scripts work in scopes that are
there. This is a regime in which everything is free, so that runs are dealt
with once for all.
-/
import RoutineScript.Proofs.Run.Ruled

namespace RoutineScript

open Mentions (within)

namespace Store

variable {s t : Store} {c : Change}

/-- Every scope was made below an older one. -/
def Rising (s : Store) : Prop :=
  ∀ ⦃id parent : ScopeId⦄, (s.scope id).parent = some parent → parent.index < id.index

theorem rising_empty : empty.Rising := fun _ _ isParent => by cases isParent

theorem Rising.apply (rising : s.Rising)
    (below : ∀ parent, c = .operation (.child parent) → parent.index < s.scopes.size) :
    (c.apply s).Rising := by
  intro id parent isParent
  have made := c.makes s id
  generalize (c.apply s).scope id = scope at made isParent
  cases made with
  | root => cases isParent
  | @child above absent =>
    cases isParent
    exact Nat.lt_of_lt_of_le (below _ rfl) absent
  | _ => exact rising isParent

theorem Rising.join (rising : s.Rising) (target base : ScopeId) :
    ((s.merge target base).noteSuper target).Rising := by
  have merged : (s.merge target base).Rising := rising.apply (c := .merge target base) nofun
  exact merged.apply (c := .noteSuper target) nofun

theorem Tidy.join (tidy : s.Tidy) (target base : ScopeId) :
    ((s.merge target base).noteSuper target).Tidy := by
  have merged : (s.merge target base).Tidy := Change.tidy_apply (c := .merge target base) tidy
  exact Change.tidy_apply (c := .noteSuper target) merged

end Store

/-- The regime of a store in which everything has its place. -/
def Regime.grounded : Regime where
  free s := {id | id.index < s.scopes.size}
  work s := {id | id.index < s.scopes.size}
  tied _ := ∅
  home s := {id | id.index < s.scopes.size}
  free_of_work inStore := inStore
  home_of_free inStore := inStore
  free_mono older _ inStore := Nat.lt_of_lt_of_le inStore older.size_le
  work_mono older _ inStore := Nat.lt_of_lt_of_le inStore older.size_le
  tied_mono _ _ none := none
  home_mono older _ inStore := Nat.lt_of_lt_of_le inStore older.size_le
  keeps s := s.Tidy ∧ s.Rising
  born _ _ _ := by simp [Store.addChild, Store.addScope]
  bornTied _ _ none := none.elim
  change _ keeps permitted := by
    refine ⟨Change.tidy_apply keeps.1, keeps.2.apply ?_⟩
    rintro parent rfl
    cases permitted with
    | child shelters => exact shelters.resolve_right fun tied => tied.1
  join _ keeps _ _ := ⟨keeps.1.join _ _, keeps.2.join _ _⟩

namespace Store

variable {s : Store}

/-- Everything in the store has its place. -/
abbrev Grounded (s : Store) : Prop :=
  Regime.grounded.Rules s

theorem grounded_empty : empty.Grounded where
  holds :=
    { knows := knows_empty
      callable := fun id d mem => absurd (lt_of_mem_callables mem) (Nat.not_lt_zero _)
      «class» := fun {id name c} found => by
        rw [class?, scope_of_size_le (Nat.zero_le _)] at found
        simp [Scope.root, Table.empty, Table.get?] at found }
  keeps := ⟨tidy_empty, rising_empty⟩

/-- Any change that uses and brings only what is there. -/
theorem Grounded.apply (grounded : s.Grounded) {c : Change}
    (uses : c.Uses {id | id.index < s.scopes.size})
    (adds : ∀ {id d}, c.Adds id d → ∀ place ∈ d.homes, place.index < s.scopes.size)
    (introduces : ∀ {d}, c.Introduces d → ∀ place ∈ d.homes, place.index < s.scopes.size)
    (below : ∀ parent, c = .operation (.child parent) → parent.index < s.scopes.size) :
    (c.apply s).Grounded :=
  ⟨grounded.holds.apply uses adds introduces, Change.tidy_apply grounded.keeps.1,
    grounded.keeps.2.apply below⟩

/-- A class can be declared whose parent can be found. -/
theorem Grounded.introduceClass (grounded : s.Grounded) {id : ScopeId}
    (inStore : id.index < s.scopes.size) (name : String) (parent : Option String) (body : Block) :
    (s.introduceClass id name parent body).2.Grounded := by
  unfold Store.introduceClass
  split
  · exact grounded
  · split
    · exact grounded
    · next parent found =>
      have declared : Regime.grounded.Permitted s (.declareClass
          { name, parent, body, home := id, arities := Block.arities body constructorName }) := by
        refine .declareClass inStore fun place mem => ?_
        rw [Class.homes_eq] at mem
        rcases List.mem_cons.1 mem with rfl | mem
        · exact inStore
        · unfold parentClass at found
          split at found
          · cases found
            cases mem
          · split at found
            · next c visible =>
              cases found
              exact grounded.holds.class visible place mem
            · cases found
      exact grounded.permitted declared

/-- A host that works on scopes that are there keeps the store grounded. -/
theorem Grounded.operate (grounded : s.Grounded) {op : Operation}
    (uses : op.Uses {id | id.index < s.scopes.size})
    (subject : ∀ id, op.subject = some id → id.index < s.scopes.size)
    (below : ∀ parent, op = .child parent → parent.index < s.scopes.size) :
    (op.perform s).2.Grounded := by
  by_cases declares : ∃ id name parent body, op = .declareClass id name parent body
  · obtain ⟨id, name, parent, body, rfl⟩ := declares
    exact grounded.introduceClass (subject id rfl) name parent body
  · refine grounded.apply (c := .operation op) uses (fun {id d} added place mem => ?_)
      (fun {d} introduced => ?_) fun parent eq => below parent (Change.operation.inj eq)
    · cases added
      cases mem
    · cases op with
      | declareClass => exact absurd ⟨_, _, _, _, rfl⟩ declares
      | _ => cases introduced

/-- So does whatever it asks for in them. -/
theorem Grounded.ask (grounded : s.Grounded) {request : Request}
    (inStore : request.place.index < s.scopes.size)
    (uses : request.Uses {id | id.index < s.scopes.size}) (levels : Nat) (context : Context) :
    (request.run levels context s).2.Grounded :=
  (Request.abides_run (R := .grounded) levels inStore uses grounded context).2.1

end Store

end RoutineScript
