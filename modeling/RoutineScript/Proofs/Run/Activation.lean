/-
What calls leave alone of the activation that makes them.

An activation runs in a frame and in block scopes below it. Suppose that its
body neither defines anything nor starts a thread. Then no home is below its
frame, so whatever it calls runs apart from it, and so do all objects that
anybody holds (`Store.Apart`).

# Which slots are its own

A call may still write through slots that its scope has inherited, wherever
they are shared. What keeps the activation's own slots out of reach is an
invariant of the store: an own slot of a scope below the frame is bound in
scopes below the frame only (`Store.Sealed`). It holds at the beginning, when
nothing has been bound there. The activation keeps it, because new scopes
inherit from their parents; and so does everything apart from it, because what
is merged or inherited there comes from there.

# Two regimes

The activation itself keeps to a regime in which the scopes below its frame
are tied: nothing may be defined in them. What it calls keeps to a regime in
which they are not even that, and which preserves their own slots and the
values in these.
-/
import RoutineScript.Proofs.Run.Grounded
import RoutineScript.Proofs.Run.Supers
import RoutineScript.Proofs.Run.Coherence

namespace RoutineScript

open Mentions (within)

namespace Store

variable {s t : Store} {frame id : ScopeId}

-- =================================================================== apart

/-- A scope that is in the store, and is neither a frame nor below it. -/
inductive Apart (s : Store) (frame : ScopeId) : ScopeId → Prop where
  | intro {id : ScopeId} : id.index < s.scopes.size → id ≠ frame →
      (∀ parent, (s.scope id).parent = some parent → s.Apart frame parent) → Apart s frame id

theorem Apart.inStore (apart : s.Apart frame id) : id.index < s.scopes.size := by
  cases apart with
  | intro inStore => exact inStore

theorem Apart.mono (older : s.Older t) (apart : s.Apart frame id) : t.Apart frame id := by
  induction apart with
  | intro inStore other _ ih =>
    refine .intro (Nat.lt_of_lt_of_le inStore older.size_le) other fun parent isParent => ?_
    exact ih parent ((older.parent _ inStore).symm.trans isParent)

theorem Within.mono (older : s.Older t) (inside : s.Within frame id) : t.Within frame id := by
  induction inside with
  | self => exact .self
  | child isParent _ ih =>
    exact .child ((older.parent _ (lt_of_parent isParent)).trans isParent) ih

/-- No scope is moved below a frame. -/
theorem Within.of_older (older : s.Older t) (rising : s.Rising) (inside : t.Within frame id)
    (inStore : id.index < s.scopes.size) : s.Within frame id := by
  induction inside with
  | self => exact .self
  | child isParent _ ih =>
    rw [older.parent _ inStore] at isParent
    exact .child isParent (ih (Nat.lt_trans (rising isParent) inStore))

theorem Within.not_apart (inside : s.Within frame id) : ¬ s.Apart frame id := by
  induction inside with
  | self =>
    rintro ⟨-, other, -⟩
    exact other rfl
  | child isParent _ ih =>
    rintro ⟨-, -, above⟩
    exact ih (above _ isParent)

theorem Within.inStore (inside : s.Within frame id) (frameInStore : frame.index < s.scopes.size) :
    id.index < s.scopes.size := by
  cases inside with
  | self => exact frameInStore
  | child isParent => exact lt_of_parent isParent

/-- Whatever is older than a frame is apart from it. -/
theorem Rising.apart_of_lt (rising : s.Rising) (frameInStore : frame.index < s.scopes.size)
    (older : id.index < frame.index) : s.Apart frame id := by
  induction index : id.index using Nat.strong_induction_on generalizing id with
  | _ n ih =>
    refine .intro (Nat.lt_trans older frameInStore) (fun same => ?_) fun parent isParent => ?_
    · rw [same] at older
      exact Nat.lt_irrefl _ older
    · have above := rising isParent
      exact ih parent.index (index ▸ above) (Nat.lt_trans above older) rfl

theorem apart_addChild {parent : ScopeId} (apart : s.Apart frame parent)
    (frameInStore : frame.index < s.scopes.size) :
    (s.addChild parent).2.Apart frame (s.addChild parent).1 := by
  refine .intro (by simp [addChild, addScope]) ?_ fun above isParent => ?_
  · rintro rfl
    exact Nat.lt_irrefl _ frameInStore
  · rw [addChild, scope_addScope, if_pos rfl] at isParent
    cases isParent
    exact apart.mono (older_apply (.operation (.child parent)) s)

theorem within_addChild {parent : ScopeId} (inside : s.Within frame parent) :
    (s.addChild parent).2.Within frame (s.addChild parent).1 := by
  have isParent : ((s.addChild parent).2.scope (s.addChild parent).1).parent = some parent := by
    simp only [addChild, scope_addScope, if_true, Scope.below]
  exact .child isParent (inside.mono (older_apply (.operation (.child parent)) s))

-- ================================================================== sealed

/-- The slots that scopes below a frame have bound themselves are bound in
scopes below the frame only. -/
structure Sealed (frame : ScopeId) (s : Store) : Prop where
  tidy : s.Tidy
  rising : s.Rising
  inStore : frame.index < s.scopes.size
  slots : ∀ {key name slot}, s.Within frame key → s.Binds key .own name slot →
    ∀ {id half name'}, s.Binds id half name' slot → s.Within frame id

/-- A change keeps the slots sealed if it makes new scopes below scopes that
are there, and merges only what is apart into what is apart. -/
theorem Sealed.apply (sealed : Sealed frame s) {c : Change}
    (below : ∀ parent, c = .operation (.child parent) → parent.index < s.scopes.size)
    (merges : ∀ target base, c = .merge target base →
      s.Apart frame target ∧ s.Apart frame base) : Sealed frame (c.apply s) where
  tidy := Change.tidy_apply sealed.tidy
  rising := sealed.rising.apply below
  inStore := Nat.lt_of_lt_of_le sealed.inStore (c.size_le_apply s)
  slots {key name slot} inside own {id half name'} bound := by
    have older := older_apply c s
    rcases Change.binds_of_apply own with before | ⟨here, fresh⟩ | ⟨half, -⟩ | ⟨base, merge, -⟩
    · -- the slot was there before, and sealed
      have keyInside := inside.of_older older sealed.rising (lt_of_binds before)
      have sealedHere : ∀ {id half name'}, s.Binds id half name' slot → s.Within frame id :=
        sealed.slots keyInside before
      rcases Change.binds_of_apply bound with bound | ⟨-, fresh⟩ |
        ⟨-, parent, isParent, _, bound⟩ | ⟨base, merge, bound⟩
      · exact (sealedHere bound).mono older
      · exact absurd (sealed.tidy.exists_slot before) (Nat.not_lt.2 fresh)
      · exact .child isParent ((sealedHere bound).mono older)
      · exact absurd (merges _ _ merge).2 (sealedHere bound).not_apart
    · -- the slot is fresh, and bound in this scope only
      have notBound : ∀ {id half name'}, ¬ s.Binds id half name' slot := fun bound =>
        absurd (sealed.tidy.exists_slot bound) (Nat.not_lt.2 fresh)
      rcases Change.binds_of_apply bound with bound | ⟨there, -⟩ | ⟨-, _, -, _, bound⟩ | ⟨_, -, bound⟩
      · exact absurd bound notBound
      · rw [here] at there
        cases there
        exact inside
      · exact absurd bound notBound
      · exact absurd bound notBound
    · cases half
    · have apart := (merges _ _ merge).1
      exact absurd apart (inside.of_older older sealed.rising apart.inStore).not_apart

theorem Sealed.join (sealed : Sealed frame s) {target base : ScopeId}
    (targetApart : s.Apart frame target) (baseApart : s.Apart frame base) :
    Sealed frame ((s.merge target base).noteSuper target) := by
  have merged : Sealed frame (s.merge target base) :=
    sealed.apply (c := .merge target base) nofun fun _ _ same => by
      cases same
      exact ⟨targetApart, baseApart⟩
  exact merged.apply (c := .noteSuper target) nofun nofun

end Store

-- ================================================================= regimes

/-- What is apart from a frame is free; `tied` tells where the activation
itself works. -/
def Territory.beyond (frame : ScopeId) (tied : Store → Set ScopeId)
    (tied_mono : ∀ {s t : Store}, s.Older t → tied s ⊆ tied t) : Territory where
  free s := {id | s.Apart frame id}
  work s := {id | s.Apart frame id}
  tied := tied
  home s := {id | s.Apart frame id}
  free_of_work apart := apart
  home_of_free apart := apart
  free_mono older _ apart := apart.mono older
  work_mono older _ apart := apart.mono older
  tied_mono := tied_mono
  home_mono older _ apart := apart.mono older

/-- Permitted changes keep the slots sealed. -/
theorem Store.Sealed.permitted {frame : ScopeId} {s : Store} (sealed : Sealed frame s)
    {tied : Store → Set ScopeId} {tied_mono : ∀ {s t : Store}, s.Older t → tied s ⊆ tied t}
    (inStore : ∀ id ∈ tied s, id.index < s.scopes.size) {c : Change}
    (permitted : (Territory.beyond frame tied tied_mono).Permitted s c) :
    Sealed frame (c.apply s) := by
  refine sealed.apply ?_ ?_
  · rintro parent rfl
    cases permitted with
    | child shelters => exact shelters.elim Apart.inStore fun here => inStore parent here.1
  · rintro target base rfl
    cases permitted

/-- The regime that an activation keeps to: below its frame it may only do
what is plain. -/
def Regime.activation (frame : ScopeId) : Regime where
  toTerritory := .beyond frame (fun s => {id | s.Within frame id}) fun older _ inside =>
    inside.mono older
  keeps := Store.Sealed frame
  born _ sealed apart := Store.apart_addChild apart sealed.inStore
  bornTied _ _ inside := Store.within_addChild inside
  change _ sealed permitted :=
    sealed.permitted (fun _ inside => inside.inStore sealed.inStore) permitted
  join _ sealed target base := sealed.join target base

/-- In every scope of `s` that is below a frame, the own names still mean the
same slots, and these still have the same values. -/
def Store.Keeps (s : Store) (frame : ScopeId) (t : Store) : Prop :=
  ∀ key, s.Within frame key →
    (t.scope key).bindings.own = (s.scope key).bindings.own ∧
      ∀ name slot, s.Binds key .own name slot → t.value slot = s.value slot

namespace Store

variable {s t u : Store} {frame : ScopeId}

theorem Keeps.refl (s : Store) (frame : ScopeId) : s.Keeps frame s :=
  fun _ _ => ⟨rfl, fun _ _ _ => rfl⟩

theorem Keeps.trans (first : s.Keeps frame t) (older : s.Older t) (second : t.Keeps frame u) :
    s.Keeps frame u := by
  intro key inside
  obtain ⟨own, values⟩ := first key inside
  obtain ⟨own', values'⟩ := second key (inside.mono older)
  refine ⟨own'.trans own, fun name slot bound => ?_⟩
  have still : t.Binds key .own name slot := by
    unfold Binds Table.half at bound ⊢
    rw [own]
    exact bound
  exact (values' name slot still).trans (values name slot bound)

/-- A change keeps what a frame has, if it leaves own names below the frame
alone and writes through no slot that is bound there. -/
theorem keeps_apply (tidy : s.Tidy) {c : Change}
    (own : ∀ key, s.Within frame key →
      ((c.apply s).scope key).bindings.own = (s.scope key).bindings.own)
    (spares : ∀ key name slot, s.Within frame key → s.Binds key .own name slot →
      c.written? s slot = none) : s.Keeps frame (c.apply s) := by
  refine fun key inside => ⟨own key inside, fun name slot bound => ?_⟩
  rw [Change.value_apply (tidy.exists_slot bound), spares key name slot inside bound]
  rfl

/-- Whoever is apart from a frame writes through no slot of its own. -/
theorem Sealed.written?_eq_none (sealed : Sealed frame s) {key id : ScopeId} {name other : String}
    {slot : SlotId} (inside : s.Within frame key) (bound : s.Binds key .own name slot)
    (apart : s.Apart frame id) (v : Value) :
    (Change.operation (.assign id other v)).written? s slot = none := by
  unfold Change.written?
  dsimp only
  split
  · next through target =>
    have inherited : s.Binds id .inherited other through := (target_eq_shared_iff.1 target).2
    rw [if_neg]
    rintro rfl
    exact (sealed.slots inside bound inherited).not_apart apart
  · rfl
  · rfl

theorem Sealed.keeps_join (sealed : Sealed frame s) {target base : ScopeId}
    (apart : s.Apart frame target) : s.Keeps frame ((s.merge target base).noteSuper target) := by
  have merged : s.Keeps frame (s.merge target base) := by
    refine keeps_apply (c := .merge target base) sealed.tidy (fun key inside => ?_) fun _ _ _ _ _ => rfl
    have other : target ≠ key := by
      rintro rfl
      exact inside.not_apart apart
    exact congrArg (·.bindings.own) (s.scope_modifyScope_of_ne _ other)
  have tidy : (s.merge target base).Tidy := Change.tidy_apply (c := .merge target base) sealed.tidy
  have noted : (s.merge target base).Keeps frame ((s.merge target base).noteSuper target) :=
    keeps_apply (c := .noteSuper target) tidy (fun key _ => own_noteSuper _ target key)
      fun _ _ _ _ _ => rfl
  exact merged.trans (older_apply (.merge target base) s) noted

end Store

/-- The regime of what an activation calls when it has come to `s`. -/
def Regime.called (s : Store) (frame : ScopeId) : Regime where
  toTerritory := .beyond frame (fun _ => ∅) fun _ _ none => none
  keeps t := Store.Sealed frame t ∧ s.Older t ∧ s.Keeps frame t
  born _ keeps apart := Store.apart_addChild apart keeps.1.inStore
  bornTied _ _ none := none.elim
  change := by
    rintro t c _ ⟨sealed, older, kept⟩ permitted
    refine ⟨sealed.permitted (fun _ none => none.elim) permitted,
      older.trans (Store.older_apply c t), kept.trans older (Store.keeps_apply sealed.tidy ?_ ?_)⟩
    · intro key inside
      refine congrArg (·.bindings.own) (permitted.scope_apply (inside.inStore sealed.inStore) ?_)
      rintro (apart | none)
      · exact inside.not_apart apart
      · exact none
    · intro key name slot inside bound
      cases permitted with
      | assign _ mayBind =>
        have apart := mayBind.resolve_right fun none => none
        exact sealed.written?_eq_none inside bound apart _
      | _ => rfl
  join := by
    rintro t target base _ ⟨sealed, older, kept⟩ targetApart baseApart
    exact ⟨sealed.join targetApart baseApart, older.trans (Store.older_join t target base),
      kept.trans older (sealed.keeps_join targetApart)⟩

-- ============================================================= activations

/-- The moments of an activation of a definition that itself neither defines
anything nor starts a thread: to what store it has come, and in which scope it
works there. It begins in a grounded store, as all are in which runs begin and
to which their steps lead (`Regime.Rules.permitted`, `Regime.Rules.join`). -/
inductive Store.During (frame : ScopeId) : ScopeId → Store → Prop where
  /-- The frame is made, and the parameters are declared in it. -/
  | begins {s t : Store} {home : ScopeId} {params : List String} {args : List Value}
      {context : Context} :
      s.Grounded → home.index < s.scopes.size → within {id | id.index < s.scopes.size} args →
      Below.frame home params args context s = (.ok frame, t) → During frame frame t
  /-- The frame of a constructor is noted by the object. -/
  | noted {s : Store} {object : ScopeId} : (s.scope frame).parent = some object →
      During frame frame s → During frame frame (s.noteFrame object frame)
  /-- It executes a statement, however that ends. -/
  | executes {scope : ScopeId} {s : Store} (statement : Stmt) (levels patience : Nat)
      (context : Context) :
      statement.everywhere Stmt.isPlain = true → During frame scope s →
      During frame scope ((Below.upTo levels).execute patience scope statement context s).2
  /-- It evaluates an expression within a statement. -/
  | evaluates {scope : ScopeId} {s : Store} (e : Expr) (levels : Nat) (context : Context) :
      During frame scope s →
      During frame scope ((Below.upTo levels).evaluate scope e context s).2
  /-- It enters a block. -/
  | enters {scope : ScopeId} {s : Store} : During frame scope s →
      During frame (s.addChild scope).1 (s.addChild scope).2
  /-- It counts a round in the scope of a block. -/
  | counts {scope : ScopeId} {s : Store} (name : String) (x : Float) : During frame scope s →
      During frame scope (s.declare scope name (.number x)).2
  /-- It goes on in the scope around a block. -/
  | leaves {scope around : ScopeId} {s : Store} : scope ≠ frame →
      (s.scope scope).parent = some around → During frame scope s → During frame around s

namespace Store

variable {s t : Store} {frame scope : ScopeId}

/-- At the beginning, everything is apart from a frame, and nothing is bound
below it. -/
theorem Grounded.rules_addChild (grounded : s.Grounded) {home : ScopeId}
    (inStore : home.index < s.scopes.size) :
    (Regime.activation (s.addChild home).1).Rules (s.addChild home).2 := by
  have rising : (s.addChild home).2.Rising :=
    grounded.keeps.2.apply (c := .operation (.child home)) fun _ same => by
      cases same
      exact inStore
  have made : (s.addChild home).1.index < (s.addChild home).2.scopes.size := by
    simp [addChild, addScope]
  have apart : ∀ {id : ScopeId}, id.index < s.scopes.size →
      (s.addChild home).2.Apart (s.addChild home).1 id := rising.apart_of_lt made
  refine ⟨⟨?_, ?_, ?_⟩, Change.tidy_apply (c := .operation (.child home)) grounded.keeps.1,
    rising, made, ?_⟩
  · exact (grounded.holds.knows.addChild home).mono fun _ => apart
  · exact Change.forall_callable_apply
      (fun id d mem place atHome => apart (grounded.holds.callable id d mem place atHome))
      (.operation (.child home)) nofun
  · intro id name c found place atHome
    rcases Change.class_of_apply (c := .operation (.child home)) found with ⟨key, before⟩ | introduced
    · exact apart (grounded.holds.class before place atHome)
    · cases introduced
  · intro key name slot inside own
    rcases Change.binds_of_apply (c := .operation (.child home)) own with
      before | ⟨here, -⟩ | ⟨half, -⟩ | ⟨_, merge, -⟩
    · exact absurd (apart (lt_of_binds before)) inside.not_apart
    · cases here
    · cases half
    · cases merge

/-- An activation works below its frame, and keeps to its regime. -/
theorem During.rules (during : s.During frame scope) :
    (Regime.activation frame).Rules s ∧ s.Within frame scope := by
  induction during with
  | @begins s t home params args context grounded inStore known ran =>
    obtain ⟨rfl, bound⟩ := Below.bindParams_of_frame ran
    have rules := grounded.rules_addChild inStore
    have apart : {id | id.index < s.scopes.size} ⊆
        {id | (s.addChild home).2.Apart (s.addChild home).1 id} := fun id inStore =>
      rules.keeps.rising.apart_of_lt rules.keeps.inStore inStore
    have declares : Run.Abides (.activation (s.addChild home).1) (s.addChild home).2
        (Below.bindParams (s.addChild home).1 params args) :=
      Below.abides_bindParams (.inr .self) (Mentions.mono apart known)
    obtain ⟨-, ruled, -⟩ := declares rules context
    rw [bound] at ruled
    exact ⟨ruled, .self⟩
  | @noted s object _ _ ih =>
    have holds := ih.1.holds.apply (c := .noteFrame object frame) trivial nofun nofun
    have sealed := ih.1.keeps.apply (c := .noteFrame object frame) nofun nofun
    exact ⟨⟨holds, sealed⟩, .self⟩
  | executes statement levels patience context plain _ ih =>
    have permits : (Regime.activation frame).Permits _ _ (statement.everywhere Stmt.isPlain) :=
      .inr ⟨ih.2, plain⟩
    obtain ⟨older, rules, -⟩ := Below.abides_execute (Below.abiding_upTo _ levels) patience _ _
      statement permits.shelters (fun _ => permits) ih.1 context
    exact ⟨rules, ih.2.mono older⟩
  | evaluates e levels context _ ih =>
    obtain ⟨older, rules, -⟩ :=
      Below.abides_evaluate (Below.abiding_upTo _ levels) _ _ e ih.1 context
    exact ⟨rules, ih.2.mono older⟩
  | enters _ ih =>
    exact ⟨ih.1.permitted (c := .operation (.child _)) (.child (.inr ⟨ih.2, rfl⟩)),
      within_addChild ih.2⟩
  | @counts scope s name x _ ih =>
    refine ⟨ih.1.permitted (c := .operation (.declare scope name (.number x)))
      (.declare name (.inr ih.2) (within_number x)), ?_⟩
    exact ih.2.mono (older_apply (.operation (.declare scope name (.number x))) s)
  | leaves other isParent _ ih =>
    refine ⟨ih.1, ?_⟩
    cases ih.2 with
    | self => exact absurd rfl other
    | child isParent' inside =>
      rw [isParent] at isParent'
      cases isParent'
      exact inside

/-- What it calls keeps to a regime of its own. -/
theorem During.rules_called (during : s.During frame scope) : (Regime.called s frame).Rules s where
  holds :=
    { knows := during.rules.1.holds.knows
      callable := during.rules.1.holds.callable
      «class» := during.rules.1.holds.class }
  keeps := ⟨during.rules.1.keeps, .refl s, .refl s frame⟩

/-- **Activations are isolated.** At any moment of an activation, let it
evaluate an expression or make a call, whatever is called or constructed
meanwhile, and however that ends. Then in its frame and in all block scopes
below it, the own names mean the same slots as before, and these have the same
values. What is executed elsewhere, in a scope that is apart from the frame,
leaves them alone as well. -/
theorem During.isolated (during : s.During frame scope) (levels : Nat) (context : Context) :
    (∀ e, s.Keeps frame ((Below.upTo levels).evaluate scope e context s).2) ∧
      (∀ callee args,
        s.Keeps frame ((Below.upTo levels).callStatement scope callee args context s).2) ∧
      ∀ patience elsewhere statement, s.Apart frame elsewhere →
        s.Keeps frame ((Below.upTo levels).execute patience elsewhere statement context s).2 := by
  have rules := during.rules_called
  have abiding := Below.abiding_upTo (.called s frame) levels
  refine ⟨fun e => ?_, fun callee args => ?_, fun patience elsewhere statement apart => ?_⟩
  · exact (Below.abides_evaluate abiding s scope e rules context).2.1.keeps.2.2
  · exact (Below.abides_callStatement abiding callee args rules context).2.1.keeps.2.2
  · have permits : (Regime.called s frame).Permits s elsewhere
        (statement.everywhere Stmt.isPlain) := .inl apart
    exact (Below.abides_execute abiding patience s elsewhere statement permits.shelters
      (fun _ => permits) rules context).2.1.keeps.2.2

/-- An activation that calls its own definition finds its variable as it was,
though the inner activation has given a value to its own. -/
theorem isolated_of_recursive :
    let body : Block :=
      [⟨1, .assign (.name "x") (.name "n")⟩,
        ⟨2, .branch [(some (.name "n"), [⟨3, .call (.name "f") [.bool false]⟩])]⟩]
    let s := ((Request.execute ⟨0⟩ [⟨1, .define "f" ["n"] body⟩]).run 4 ⟨10, 0, [⟨0⟩]⟩
      empty.addRoot.2).2
    let t := (Below.frame ⟨0⟩ ["n"] [.boolean true] ⟨10, 1, [⟨0⟩]⟩ s).2
    let u := ((Below.upTo 4).execute 4 ⟨1⟩ (.assign (.name "x") (.name "n")) ⟨10, 1, [⟨0⟩, ⟨1⟩]⟩ t).2
    let v := ((Below.upTo 4).callStatement ⟨1⟩ (.name "f") [.bool false] ⟨10, 1, [⟨0⟩, ⟨1⟩]⟩ u).2
    u.During ⟨1⟩ ⟨1⟩ ∧ u.Apart ⟨1⟩ ⟨0⟩ ∧ u.Binds ⟨1⟩ .own "x" ⟨1⟩ ∧ v.Binds ⟨2⟩ .own "x" ⟨3⟩ ∧
      u.Keeps ⟨1⟩ v := by
  intro body s t u v
  have grounded : s.Grounded := by
    have root : (Operation.root.perform empty).2.Grounded :=
      grounded_empty.operate trivial nofun nofun
    let asked : Request := .execute ⟨0⟩ [⟨1, .define "f" ["n"] body⟩]
    have inStore : asked.place.index < empty.addRoot.2.scopes.size := Nat.zero_lt_one
    exact root.ask inStore trivial 4 ⟨10, 0, [⟨0⟩]⟩
  have ran : Below.frame ⟨0⟩ ["n"] [.boolean true] ⟨10, 1, [⟨0⟩]⟩ s = (.ok ⟨1⟩, t) := by
    have ended : (match (Below.frame ⟨0⟩ ["n"] [.boolean true] ⟨10, 1, [⟨0⟩]⟩ s).1 with
        | .ok frame => frame == ⟨1⟩
        | .error _ => false) = true := by decide +kernel
    refine Prod.ext ?_ rfl
    split at ended
    · next frame eq => rw [eq, eq_of_beq ended]
    · cases ended
  have begun : t.During ⟨1⟩ ⟨1⟩ := by
    refine .begins grounded (by decide +kernel) (fun v mem => ?_) ran
    rw [List.mem_singleton.1 mem]
    exact within_boolean true
  have during : u.During ⟨1⟩ ⟨1⟩ :=
    .executes (.assign (.name "x") (.name "n")) 4 4 ⟨10, 1, [⟨0⟩, ⟨1⟩]⟩ rfl begun
  have keeps := during.rules.1.keeps
  refine ⟨during, keeps.rising.apart_of_lt keeps.inStore Nat.zero_lt_one, ?_, ?_,
    (during.isolated 4 ⟨10, 1, [⟨0⟩, ⟨1⟩]⟩).2.1 (.name "f") [.bool false]⟩
  · unfold Binds
    decide +kernel
  · unfold Binds
    decide +kernel

end Store

end RoutineScript
