/-
What the scopes of a constructor have of its object's members.

A constructor works in its frame, which lies below the object, and in the
scopes of blocks that it has entered, each of which lies below the one around
it. A scope inherits when it is made, and the frame once more when a parent
part joins the object. So when that has happened, the frame has inherited all
that the object has declared, and whatever is entered from there inherits it
from the frame. A list of such scopes, the innermost one first, follows the
object (`Store.Follows`): each scope has inherited the overloads of the object
and the slots of its variables, but for those that a scope between the two
has declared, and those that have been lost.

# Why they go on following it

The object and these scopes are out of reach of everybody else, for nobody
holds them. Only the statement that is executed in the innermost one works
there (`Regime.Lends`); it changes what that scope has declared itself, and of
what it has inherited it can only take names away, by deleting them. What may
happen from elsewhere is that another part joins. Then some scope declares
more, and some frame inherits anew. Neither does any harm, since the frame
inherits from the next scope of the list, which follows the object too.
-/
import RoutineScript.Proofs.Run.Dispatch
import RoutineScript.Proofs.Run.Lending

namespace RoutineScript

open Mentions (within)

-- ================================================================ following

namespace Store

/-- The scopes of a store other than these. -/
def others (s : Store) (ids : List ScopeId) : Set ScopeId :=
  {x | x.index < s.scopes.size ∧ x ∉ ids}

/-- They are still others when a scope is added to those that they are not. -/
theorem others_subset_addChild {s : Store} {parent : ScopeId} {ids ids' : List ScopeId}
    (known : ∀ y ∈ ids', y = (s.addChild parent).1 ∨ y ∈ ids) :
    s.others ids ⊆ (s.addChild parent).2.others ids' := by
  intro y other
  have older := older_apply (.operation (.child parent)) s
  refine ⟨Nat.lt_of_lt_of_le other.1 older.size_le, fun mem => ?_⟩
  rcases known y mem with rfl | there
  · exact Nat.lt_irrefl _ other.1
  · exact other.2 there

/-- The object has declared these members. -/
structure Declares (s : Store) (members : Scope) (o : ScopeId) : Prop where
  inStore : o.index < s.scopes.size
  binding : ∀ {name : String} {slot : SlotId}, members.bindings.own[name]? = some slot →
    (s.scope o).bindings.own[name]? = some slot
  procedures : members.procedures.own ⊆ (s.scope o).procedures.own
  functions : members.functions.own ⊆ (s.scope o).functions.own

/-- A scope has inherited these members. Of the variables some may be lost,
and some may have been declared in the scopes between. -/
structure Shares (s : Store) (members : Scope) (lost : Set String) (x : ScopeId)
    (between : List ScopeId) : Prop where
  binding : ∀ {name : String} {slot : SlotId}, members.bindings.own[name]? = some slot → name ∉ lost →
    (∀ y ∈ between, (s.scope y).bindings.own[name]? = none) →
    (s.scope x).bindings.inherited[name]? = some slot
  procedures : members.procedures.own ⊆ (s.scope x).procedures.inherited
  functions : members.functions.own ⊆ (s.scope x).functions.inherited

/-- Scopes that were made below one another, the last one below the object,
and that share its members. -/
inductive Follows (s : Store) (o : ScopeId) (members : Scope) (lost : Set String) :
    List ScopeId → Prop where
  | object : s.Declares members o → Follows s o members lost []
  | scope {x : ScopeId} {around : List ScopeId} :
      (s.scope x).parent = some (around.headD o) → x ∉ o :: around →
      s.Shares members lost x around → Follows s o members lost around →
      Follows s o members lost (x :: around)

variable {s t : Store} {o : ScopeId} {members : Scope} {lost : Set String} {line : List ScopeId}

namespace Follows

theorem declares (follows : s.Follows o members lost line) : s.Declares members o := by
  induction follows with
  | object declares => exact declares
  | scope _ _ _ _ ih => exact ih

theorem inStore (follows : s.Follows o members lost line) :
    ∀ x ∈ o :: line, x.index < s.scopes.size := by
  induction follows with
  | object declares =>
    rintro x mem
    rw [List.mem_singleton.1 mem]
    exact declares.inStore
  | scope isParent _ _ _ ih =>
    intro y mem
    rcases List.mem_cons.1 mem with rfl | mem
    · exact ih _ List.mem_cons_self
    · rcases List.mem_cons.1 mem with rfl | mem
      · exact lt_of_parent isParent
      · exact ih y (List.mem_cons_of_mem _ mem)

/-- The innermost scope sees a member in the slot of the object, unless the
name is lost, or declared in one of the scopes. -/
theorem slot? (follows : s.Follows o members lost line) {name : String} {slot : SlotId}
    (bound : members.bindings.own[name]? = some slot) (kept : name ∉ lost)
    (unshadowed : ∀ y ∈ line, (s.scope y).bindings.own[name]? = none) :
    s.slot? (line.headD o) name = some slot := by
  cases follows with
  | object declares => exact slot?_of_own (declares.binding bound)
  | scope _ _ shares =>
    have inherited := shares.binding bound kept fun y mem =>
      unshadowed y (List.mem_cons_of_mem _ mem)
    exact (slot?_of_not_own (unshadowed _ List.mem_cons_self)).trans inherited

/-- It sees the overloads of the object, too. -/
theorem overloads (follows : s.Follows o members lost line) :
    members.procedures.own ⊆ (s.scope (line.headD o)).procedures.all ∧
      members.functions.own ⊆ (s.scope (line.headD o)).functions.all := by
  cases follows with
  | object declares =>
    exact ⟨fun d mem => Overloads.mem_all_of_own (declares.procedures mem),
      fun d mem => Overloads.mem_all_of_own (declares.functions mem)⟩
  | scope _ _ shares =>
    exact ⟨fun d mem => List.mem_append_right _ (shares.procedures mem),
      fun d mem => List.mem_append_right _ (shares.functions mem)⟩

end Follows

-- ============================================================== inheriting

/-- What a scope has inherited is what it was, or what its parent had. -/
inductive Inherits (s t : Store) (x : ScopeId) : Prop where
  | same : (t.scope x).bindings.inherited = (s.scope x).bindings.inherited →
      (t.scope x).procedures.inherited = (s.scope x).procedures.inherited →
      (t.scope x).functions.inherited = (s.scope x).functions.inherited → Inherits s t x
  | anew {parent : ScopeId} : (s.scope x).parent = some parent →
      (t.scope x).bindings.inherited = (s.scope parent).bindings.visible →
      (t.scope x).procedures.inherited = (s.scope parent).procedures.all →
      (t.scope x).functions.inherited = (s.scope parent).functions.all → Inherits s t x

/-- Scopes go on following an object when nothing that they have declared
changes but for what is new, and what they inherit comes from their parents. -/
theorem Follows.later (follows : s.Follows o members lost line) (older : s.Older t)
    (declares : t.Declares members o)
    (own : ∀ x ∈ line, ∀ (name : String) (slot : SlotId),
      (s.scope x).bindings.own[name]? = some slot → (t.scope x).bindings.own[name]? = some slot)
    (inherits : ∀ x ∈ line, s.Inherits t x) : t.Follows o members lost line := by
  induction follows with
  | object => exact .object declares
  | @scope x around isParent other shares follows ih =>
    have inStore := lt_of_parent isParent
    have unshadowed : ∀ name : String, (∀ y ∈ around, (t.scope y).bindings.own[name]? = none) →
        ∀ y ∈ around, (s.scope y).bindings.own[name]? = none := by
      intro name unshadowed y mem
      cases bound : (s.scope y).bindings.own[name]? with
      | none => rfl
      | some slot =>
        have still := own y (List.mem_cons_of_mem _ mem) name slot bound
        rw [unshadowed y mem] at still
        cases still
    refine .scope ((older.parent x inStore).trans isParent) other ?_
      (ih (fun y mem => own y (List.mem_cons_of_mem _ mem))
        fun y mem => inherits y (List.mem_cons_of_mem _ mem))
    cases inherits x List.mem_cons_self with
    | same bindings procedures functions =>
      refine ⟨fun bound kept clear => ?_, ?_, ?_⟩
      · rw [bindings]
        exact shares.binding bound kept (unshadowed _ clear)
      · rw [procedures]
        exact shares.procedures
      · rw [functions]
        exact shares.functions
    | anew isParent' bindings procedures functions =>
      rw [isParent] at isParent'
      cases isParent'
      refine ⟨fun {name slot} bound kept clear => ?_, ?_, ?_⟩
      · rw [bindings, Table.getElem?_visible]
        exact follows.slot? bound kept (unshadowed name clear)
      · rw [procedures]
        exact follows.overloads.1
      · rw [functions]
        exact follows.overloads.2

/-- So they do when none of these scopes changes. -/
theorem Follows.of_same (follows : s.Follows o members lost line) (older : s.Older t)
    (same : ∀ x ∈ o :: line, t.scope x = s.scope x) : t.Follows o members lost line := by
  have sameObject := same o List.mem_cons_self
  have declares := follows.declares
  refine follows.later older ⟨?_, ?_, ?_, ?_⟩ (fun x mem name slot bound => ?_) fun x mem => ?_
  · exact Nat.lt_of_lt_of_le declares.inStore older.size_le
  · rw [sameObject]
    exact declares.binding
  · rw [sameObject]
    exact declares.procedures
  · rw [sameObject]
    exact declares.functions
  · rw [same x (List.mem_cons_of_mem _ mem)]
    exact bound
  · have same := same x (List.mem_cons_of_mem _ mem)
    exact .same (by rw [same]) (by rw [same]) (by rw [same])

/-- A scope that is made below the innermost one follows as well. -/
theorem Follows.addChild {x : ScopeId} {around : List ScopeId}
    (follows : s.Follows o members lost (x :: around)) :
    (s.addChild x).2.Follows o members lost ((s.addChild x).1 :: x :: around) := by
  have older := older_apply (.operation (.child x)) s
  have same : ∀ y ∈ o :: x :: around, (s.addChild x).2.scope y = s.scope y := fun y mem =>
    scope_addScope_of_lt s _ (follows.inStore y mem)
  have born := s.scope_addChild_self x
  refine .scope ?_ (fun mem => ?_) ⟨fun {name slot} bound kept clear => ?_, ?_, ?_⟩
    (follows.of_same older same)
  · exact congrArg Scope.parent born
  · exact Nat.lt_irrefl _ (follows.inStore _ mem)
  · have clear : ∀ y ∈ x :: around, (s.scope y).bindings.own[name]? = none := by
      intro y mem
      rw [← same y (List.mem_cons_of_mem _ mem)]
      exact clear y mem
    show ((s.addChild x).2.scope ⟨s.scopes.size⟩).bindings.inherited[name]? = some slot
    rw [born]
    exact (Table.getElem?_visible _ name).trans (follows.slot? bound kept clear)
  · show members.procedures.own ⊆ ((s.addChild x).2.scope ⟨s.scopes.size⟩).procedures.inherited
    rw [born]
    exact follows.overloads.1
  · show members.functions.own ⊆ ((s.addChild x).2.scope ⟨s.scopes.size⟩).functions.inherited
    rw [born]
    exact follows.overloads.2

-- ==================================================================== joins

/-- A part that joins some object takes away nothing that is declared, and
what is inherited then comes from parents. -/
theorem inherits_of_books {c : Change} {x : ScopeId}
    (books : (∃ target base, c = .merge target base) ∨ ∃ target, c = .noteSuper target) :
    s.Inherits (c.apply s) x := by
  have made := c.makes s x
  generalize after : (c.apply s).scope x = scope at made
  rcases books with ⟨target, base, rfl⟩ | ⟨target, rfl⟩
  · cases made with
    | same => exact .same (by rw [after]) (by rw [after]) (by rw [after])
    | merge => exact .same (by rw [after]; rfl) (by rw [after]; rfl) (by rw [after]; rfl)
    | introduce introduces => exact introduces.elim
  · cases made with
    | same | noted => exact .same (by rw [after]) (by rw [after]) (by rw [after])
    | introduce introduces => exact introduces.elim
    | inherit _ isParent =>
      exact .anew isParent (by rw [after]; rfl) (by rw [after]; rfl) (by rw [after]; rfl)

theorem own_merge_of_own {target base x : ScopeId} {name : String} {slot : SlotId}
    (bound : (s.scope x).bindings.own[name]? = some slot) :
    ((s.merge target base).scope x).bindings.own[name]? = some slot := by
  by_cases here : target = x
  · subst here
    exact (s.keepsOwn_merge target base).binding bound
  · rw [merge, s.scope_modifyScope_of_ne _ here]
    exact bound

theorem Declares.apply (declares : s.Declares members o) {c : Change}
    (own : ∀ {name : String} {slot : SlotId}, (s.scope o).bindings.own[name]? = some slot →
      ((c.apply s).scope o).bindings.own[name]? = some slot)
    (keeps : ∀ id name, c ≠ .operation (.remove id name))
    (undropped : ∀ name, c ≠ .dropCallables o name) : (c.apply s).Declares members o := by
  have kept := Change.extends_apply declares.inStore keeps undropped
  exact ⟨Nat.lt_of_lt_of_le declares.inStore (c.size_le_apply s),
    fun bound => own (declares.binding bound),
    fun d mem => kept.procedures.subset (declares.procedures mem),
    fun d mem => kept.functions.subset (declares.functions mem)⟩

/-- Scopes go on following an object whatever joins whichever object. -/
theorem Follows.join (follows : s.Follows o members lost line) (target base : ScopeId) :
    ((s.merge target base).noteSuper target).Follows o members lost line := by
  have merged : (s.merge target base).Follows o members lost line := by
    refine follows.later (older_apply (.merge target base) s)
      (follows.declares.apply (c := .merge target base) own_merge_of_own nofun nofun)
      (fun x _ name slot bound => own_merge_of_own bound) fun x _ => ?_
    exact inherits_of_books (c := .merge target base) (.inl ⟨_, _, rfl⟩)
  have noted : ∀ {x : ScopeId} {name : String} {slot : SlotId},
      ((s.merge target base).scope x).bindings.own[name]? = some slot →
      (((s.merge target base).noteSuper target).scope x).bindings.own[name]? = some slot := by
    intro x name slot bound
    rw [own_noteSuper]
    exact bound
  refine merged.later (older_apply (.noteSuper target) _)
    (merged.declares.apply (c := .noteSuper target) noted nofun nofun)
    (fun x _ name slot bound => noted bound) fun x _ => ?_
  exact inherits_of_books (c := .noteSuper target) (.inr ⟨_, rfl⟩)

end Store

-- ================================================================== lending

/-- Of what a scope has inherited, it has lost some variables at most. -/
structure Scope.Retains (before : Scope) (lost : Set String) (after : Scope) : Prop where
  binding : ∀ {name : String}, name ∉ lost →
    after.bindings.inherited[name]? = before.bindings.inherited[name]?
  procedures : after.procedures.inherited = before.procedures.inherited
  functions : after.functions.inherited = before.functions.inherited

theorem Scope.Retains.same {before after : Scope} {lost : Set String}
    (bindings : after.bindings.inherited = before.bindings.inherited)
    (procedures : after.procedures.inherited = before.procedures.inherited)
    (functions : after.functions.inherited = before.functions.inherited) :
    before.Retains lost after :=
  ⟨fun _ => by rw [bindings], procedures, functions⟩

theorem Store.retains_bindOwn (s : Store) (x : ScopeId) (name : String) (v : Value)
    (lost : Set String) : (s.scope x).Retains lost ((s.bindOwn x name v).scope x) := by
  rcases s.scope_bindOwn_or x name v x with same | ⟨-, bound⟩
  · rw [same]
    exact .same rfl rfl rfl
  · rw [bound]
    exact .same rfl rfl rfl

namespace Change.Local

variable {K : Set ScopeId} {x : ScopeId} {lost : Set String} {c : Change} {s : Store}

/-- A statement changes the scope where it is executed, and no other. -/
theorem scope_apply_of_ne (changes : c.Local K x lost) {key : ScopeId}
    (inStore : key.index < s.scopes.size) (other : x ≠ key) :
    (c.apply s).scope key = s.scope key := by
  refine Change.scope_apply_of_ne inStore (fun subject => other ?_) ?_
  · cases changes with
    | declareClass here =>
      cases subject
      exact here.symm
    | _ =>
      cases subject
      rfl
  · rintro id rfl
    cases changes

/-- What that scope has inherited it takes away only by deleting names. -/
theorem retains (changes : c.Local K x lost) (inStore : x.index < s.scopes.size) :
    (s.scope x).Retains lost ((c.apply s).scope x) := by
  cases changes with
  | @declare name v =>
    simp only [apply, Operation.perform]
    rcases s.declare_cases x name v with ⟨_, h⟩ | h <;> rw [h]
    · exact .same rfl rfl rfl
    · exact s.retains_bindOwn x name v lost
  | @assign name v =>
    simp only [apply, Operation.perform]
    rcases s.assign_cases x name v with ⟨_, h⟩ | h | ⟨slot, -, h⟩ <;> rw [h]
    · exact .same rfl rfl rfl
    · exact s.retains_bindOwn x name v lost
    · exact .same rfl rfl rfl
  | @remove name inLost =>
    simp only [apply, Operation.perform]
    rcases s.remove_cases x name with ⟨_, h⟩ | ⟨_, h⟩ | ⟨_, h⟩ <;> rw [h]
    · exact .same rfl rfl rfl
    · dsimp only
      rw [s.scope_modifyScope inStore, if_pos rfl]
      exact .same rfl rfl rfl
    · dsimp only
      rw [s.scope_modifyScope inStore, if_pos rfl]
      refine ⟨fun {other} notLost => ?_, rfl, rfl⟩
      have ne : name ≠ other := by
        rintro rfl
        exact notLost inLost
      rw [Std.TreeMap.getElem?_erase, if_neg]
      simpa using ne
  | define name params body =>
    have made := (Change.define x name params body).makes s x
    generalize ((Change.define x name params body).apply s).scope x = scope at made
    cases made with
    | same => exact .same rfl rfl rfl
    | introduce introduces => exact introduces.elim
    | define twice => rcases twice with rfl | rfl <;> exact .same rfl rfl rfl
  | @declareClass d here =>
    have made := (Change.declareClass d).makes s x
    generalize ((Change.declareClass d).apply s).scope x = scope at made
    cases made with
    | same | introduce => exact .same rfl rfl rfl

end Change.Local

namespace Store

variable {s t : Store} {o : ScopeId} {members : Scope} {lost : Set String} {line : List ScopeId}

/-- Scopes go on following an object whatever a statement does in the innermost
one. -/
theorem Follows.of_local {K : Set ScopeId} {x : ScopeId} {around : List ScopeId} {c : Change}
    (follows : s.Follows o members lost (x :: around)) (changes : c.Local K x lost) :
    (c.apply s).Follows o members lost (x :: around) := by
  have inStore := follows.inStore
  have older := older_apply c s
  cases follows with
  | scope isParent other shares follows =>
    have same : ∀ y ∈ o :: around, (c.apply s).scope y = s.scope y := by
      intro y mem
      refine changes.scope_apply_of_ne (follows.inStore y mem) ?_
      rintro rfl
      exact other mem
    have retains := changes.retains (s := s) (lt_of_parent isParent)
    refine .scope ((older.parent x (lt_of_parent isParent)).trans isParent) other
      ⟨fun {name slot} isSlot kept clear => ?_, ?_, ?_⟩ (follows.of_same older same)
    · rw [retains.binding kept]
      refine shares.binding isSlot kept fun y mem => ?_
      rw [← same y (List.mem_cons_of_mem _ mem)]
      exact clear y mem
    · rw [retains.procedures]
      exact shares.procedures
    · rw [retains.functions]
      exact shares.functions

end Store

-- =================================================================== regimes

/-- The regime of scopes that follow an object. Nobody holds them, or the
object, and scripts may do everything elsewhere. -/
def Regime.following (o : ScopeId) (members : Scope) (lost : Set String) (line : List ScopeId) :
    Regime where
  free s := s.others (o :: line)
  work s := s.others (o :: line)
  tied _ := ∅
  home _ := Set.univ
  free_of_work other := other
  home_of_free _ := trivial
  free_mono older _ other := ⟨Nat.lt_of_lt_of_le other.1 older.size_le, other.2⟩
  work_mono older _ other := ⟨Nat.lt_of_lt_of_le other.1 older.size_le, other.2⟩
  tied_mono _ _ none := none
  home_mono _ _ _ := trivial
  keeps s := s.Follows o members lost line
  born {s parent} _ follows _ := by
    refine ⟨?_, fun mem => Nat.lt_irrefl _ (follows.inStore _ mem)⟩
    show s.scopes.size < (s.scopes.push _).size
    rw [Array.size_push]
    exact Nat.lt_succ_self _
  bornTied _ _ none := none.elim
  change {s c} _ follows permitted := by
    refine follows.of_same (Store.older_apply c s) fun x mem => ?_
    refine permitted.scope_apply (follows.inStore x mem) ?_
    rintro (other | none)
    · exact other.2 mem
    · exact none
  join _ follows _ _ := follows.join _ _

namespace Regime

variable {s : Store} {o x : ScopeId} {members : Scope} {lost : Set String}
  {line around : List ScopeId}

theorem rules_following (knows : s.Knows (s.others (o :: line)))
    (follows : s.Follows o members lost line) : (following o members lost line).Rules s :=
  ⟨⟨knows, fun _ _ _ _ _ => trivial, fun _ _ _ => trivial⟩, follows⟩

/-- It lends the innermost scope. -/
theorem lends_following : (following o members lost (x :: around)).Lends x lost :=
  ⟨fun _ => rfl, fun _ follows changes => follows.of_local changes⟩

/-- A new scope below the innermost one can be put in front. -/
theorem Rules.enter (rules : (following o members lost (x :: around)).Rules s) :
    (following o members lost ((s.addChild x).1 :: x :: around)).Rules (s.addChild x).2 := by
  refine rules_following ((rules.holds.knows.addChild x).mono ?_)
    (Store.Follows.addChild rules.keeps)
  refine Store.others_subset_addChild fun y mem => ?_
  simp only [List.mem_cons] at mem ⊢
  grind

/-- The innermost scope can be left. -/
theorem Rules.leave (rules : (following o members lost (x :: line)).Rules s) :
    (following o members lost line).Rules s := by
  refine rules_following (rules.holds.knows.mono fun y other => ⟨other.1, fun mem => ?_⟩) ?_
  · refine other.2 ((List.mem_cons.1 mem).elim (fun same => same ▸ List.mem_cons_self) fun mem => ?_)
    exact List.mem_cons_of_mem _ (List.mem_cons_of_mem _ mem)
  · have follows : s.Follows o members lost (x :: line) := rules.keeps
    cases follows with
    | scope _ _ _ follows => exact follows

end Regime

-- =================================================================== moments

/-- The moments of a constructor after a call of `super` that has ended in
`t`: to what store it has come, and in which scopes it works, the innermost
one first. These are its frame, and the blocks that it has entered since.
Blocks that it had entered before are elsewhere. -/
inductive Store.Resumes (o frame : ScopeId) (lost : Set String) (t : Store) :
    List ScopeId → Store → Prop where
  | joined : Resumes o frame lost t [frame] t
  /-- It executes a statement, however that ends, which deletes no names there
  but those that are lost. -/
  | executes {x : ScopeId} {around : List ScopeId} {s : Store} (statement : Stmt) (levels : Nat)
      (context : Context) : (∀ name ∈ statement.dropped, name ∈ lost) →
      Resumes o frame lost t (x :: around) s →
      Resumes o frame lost t (x :: around)
        ((Below.upTo levels).execute levels x statement context s).2
  /-- It evaluates an expression within a statement, wherever that is. -/
  | evaluates {line : List ScopeId} {s : Store} (scope : ScopeId) (e : Expr) (levels : Nat)
      (context : Context) : Resumes o frame lost t line s →
      Resumes o frame lost t line ((Below.upTo levels).evaluate scope e context s).2
  /-- It enters a block. -/
  | enters {x : ScopeId} {around : List ScopeId} {s : Store} :
      Resumes o frame lost t (x :: around) s →
      Resumes o frame lost t ((s.addChild x).1 :: x :: around) (s.addChild x).2
  /-- It counts a round in the scope of a block. -/
  | counts {x : ScopeId} {around : List ScopeId} {s : Store} (name : String) (number : Float) :
      Resumes o frame lost t (x :: around) s →
      Resumes o frame lost t (x :: around) (s.declare x name (.number number)).2
  /-- It leaves a block. -/
  | leaves {x y : ScopeId} {around : List ScopeId} {s : Store} :
      Resumes o frame lost t (x :: y :: around) s → Resumes o frame lost t (y :: around) s
  /-- A statement is executed elsewhere. -/
  | executesElsewhere {line : List ScopeId} {s : Store} {scope : ScopeId} (statement : Stmt)
      (levels : Nat) (context : Context) : scope ∈ s.others (o :: line) →
      Resumes o frame lost t line s →
      Resumes o frame lost t line ((Below.upTo levels).execute levels scope statement context s).2
  /-- A block is entered elsewhere. -/
  | entersElsewhere {line : List ScopeId} {s : Store} (scope : ScopeId) :
      Resumes o frame lost t line s → Resumes o frame lost t line (s.addChild scope).2
  /-- A round is counted elsewhere. -/
  | countsElsewhere {line : List ScopeId} {s : Store} {scope : ScopeId} (name : String)
      (number : Float) : scope ∈ s.others (o :: line) → Resumes o frame lost t line s →
      Resumes o frame lost t line (s.declare scope name (.number number)).2

/-- A run keeps a store rooted. -/
theorem Store.Rooted.run {α : Type} {s : Store} {n : Nat} {run : Run α} (rooted : s.Rooted)
    (safe : Run.Safe Law.rooted (Pace.same _) n n run run) (context : Context) :
    (run context s).2.Rooted :=
  (safe context context s ⟨rfl, rfl⟩ (s.written_of_forall fun _ => rfl) rooted).inv

theorem Store.Rooted.execute {s : Store} (rooted : s.Rooted) (levels : Nat) (scope : ScopeId)
    (statement : Stmt) (context : Context) :
    ((Below.upTo levels).execute levels scope statement context s).2.Rooted :=
  rooted.run (Below.safe_execute (Below.lawful_upTo Law.rooted (Pace.same _) levels levels) scope
    statement (Stmt.everywhere_of_forall (fun _ => rfl) statement)) context

/-- If the frame follows the object in the beginning, the scopes in which the
constructor works follow it at every moment. -/
theorem Store.Resumes.rules {s t : Store} {o frame : ScopeId} {members : Scope} {lost : Set String}
    {line : List ScopeId} (start : (Regime.following o members lost [frame]).Rules t)
    (rooted : t.Rooted) (resumes : t.Resumes o frame lost line s) :
    (Regime.following o members lost line).Rules s ∧ s.Rooted := by
  induction resumes with
  | joined => exact ⟨start, rooted⟩
  | @executes x around s statement levels context deletes _ ih =>
    have lends : (Regime.following o members lost (x :: around)).Lends x lost :=
      Regime.lends_following
    have abides := Below.abides_execute_of_lends (Below.abiding_upTo _ levels) lends levels s
      statement deletes ih.1 context
    exact ⟨abides.2.1, ih.2.execute levels x statement context⟩
  | evaluates scope e levels context _ ih =>
    have abides := Below.abides_evaluate (Below.abiding_upTo _ levels) _ scope e ih.1 context
    have safe := Below.safe_evaluate (Below.lawful_upTo Law.rooted (Pace.same _) levels levels)
      scope e
    exact ⟨abides.2.1, ih.2.run safe context⟩
  | @enters x around s _ ih =>
    have made : (Change.operation (.child x)).Made (fun _ => true) fun _ => True := .child x
    exact ⟨ih.1.enter, ih.2.of_made made⟩
  | @counts x around s name number _ ih =>
    have made : (Change.operation (.declare x name (.number number))).Made (fun _ => true)
        fun _ => True := .declare x name _
    exact ⟨Regime.lends_following.rules (.declare name (within_number number)) ih.1,
      ih.2.of_made made⟩
  | leaves _ ih => exact ⟨ih.1.leave, ih.2⟩
  | @executesElsewhere line s scope statement levels context other _ ih =>
    have permits : (Regime.following o members lost line).Permits s scope
        (statement.everywhere Stmt.isPlain) := .inl other
    have abides := Below.abides_execute (Below.abiding_upTo _ levels) levels s scope statement
      permits.shelters (fun _ => permits) ih.1 context
    exact ⟨abides.2.1, ih.2.execute levels scope statement context⟩
  | @entersElsewhere line s scope _ ih =>
    have made : (Change.operation (.child scope)).Made (fun _ => true) fun _ => True := .child scope
    exact ⟨ih.1.permitted (.child (.inl trivial)), ih.2.of_made made⟩
  | @countsElsewhere line s scope name number other _ ih =>
    have made : (Change.operation (.declare scope name (.number number))).Made (fun _ => true)
        fun _ => True := .declare scope name _
    exact ⟨ih.1.permitted (.declare name (.inl other) (within_number number)), ih.2.of_made made⟩

end RoutineScript
