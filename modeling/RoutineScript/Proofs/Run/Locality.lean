/-
What a block leaves in the scope around it.

The bodies of branches, loops and threads run in scopes of their own. So
whatever they declare, remove, define or call, the scope around them keeps its
overloads and its classes; and where nobody holds it as an object, its names
go on meaning the same slots. The proof divides a store up into this one scope
and all others. Scripts work in the others, and the invariant of the run
(`Store.Spared`) says that this one stays as it was.

# Out of reach

A script reaches a scope by running there, or through an object that it holds.
The scopes in which scripts come to work are nobody's objects: each is made
for a program, a call, a block or an object under construction, and only a
finished object is handed out (`Store.Workplace`).

# Within reach

The scope of a finished object is none of these. No script runs there any
more, but a host can have a program executed in it, and then a block may reach
the scope around it through a handle to the object. So it may declare, rebind
and remove names there; no handle gets at the overloads or the classes.

# When a parent part joins

There is one way to change the scope from elsewhere. When `super` is called,
the parent part joins its object, and the frame of the constructor inherits
anew. A block in the body of the class or in the constructor can do that, so
what is shown holds as long as nothing joins the objects concerned
(`Store.Feeds`).
-/
import RoutineScript.Proofs.Run.Ruled
import RoutineScript.Proofs.Run.Host

namespace RoutineScript

-- ============================================================== workplaces

theorem Store.older_replay (changes : List Change) (s : Store) :
    s.Older (Change.replay changes s) := by
  induction changes generalizing s with
  | nil => exact .refl s
  | cons c changes ih => exact (older_apply c s).trans (ih (c.apply s))

namespace Activity

variable {K L : Set ScopeId} {s t : Store} {changes : List Change}

theorem older (activity : Activity K s changes L t) : s.Older t := by
  rw [activity.eq_replay]
  exact Store.older_replay changes s

theorem size_le (activity : Activity K s changes L t) : s.scopes.size ≤ t.scopes.size :=
  activity.older.size_le

/-- An object that comes to be known has been made meanwhile. -/
theorem known_or_new (activity : Activity K s changes L t) {o : ScopeId} (known : o ∈ L) :
    o ∈ K ∨ s.scopes.size ≤ o.index ∧ o.index < t.scopes.size := by
  have made : ∀ (s : Store) (home : ScopeId), (s.addChild home).1.index = s.scopes.size ∧
      (s.addChild home).2.scopes.size = s.scopes.size + 1 :=
    fun s home => ⟨rfl, by simp [Store.addChild, Store.addScope]⟩
  induction activity with
  | done => exact .inl known
  | @step K L s t c changes _ _ _ ih =>
    exact (ih known).imp_right fun new => ⟨Nat.le_trans (c.size_le_apply s) new.1, new.2⟩
  | @constructed K L M s t u home _ _ inner after ihInner ih =>
    obtain ⟨place, size⟩ := made s home
    have innerSize := inner.size_le
    have afterSize := after.size_le
    rcases ih known with (rfl | known) | new
    · exact .inr (by omega)
    · exact (ihInner known).imp_right fun new => by omega
    · exact .inr (by omega)
  | @merged K L M s t u home target _ _ inner after ihInner ih =>
    obtain ⟨-, size⟩ := made s home
    have innerSize := inner.size_le
    have mergedSize := (Change.merge target (s.addChild home).1).size_le_apply t
    have afterSize : (t.merge target (s.addChild home).1).scopes.size ≤ u.scopes.size := after.size_le
    have merged : t.scopes.size ≤ u.scopes.size := Nat.le_trans mergedSize afterSize
    rcases ih known with known | new
    · exact (ihInner known).imp_right fun new => by omega
    · have atLeast : t.scopes.size ≤ o.index := Nat.le_trans mergedSize new.1
      exact .inr (by omega)

end Activity

namespace Store

/-- All objects that a store mentions are in it. -/
abbrev KnowsOwn (s : Store) : Prop :=
  s.Knows {o | o.index < s.scopes.size}

theorem KnowsOwn.active {s t : Store} (known : s.KnowsOwn) {L : Set ScopeId}
    {changes : List Change} (activity : Activity {o | o.index < s.scopes.size} s changes L t) :
    t.KnowsOwn := by
  refine (activity.knows known).mono fun o mem => ?_
  rcases activity.known_or_new mem with inStore | new
  · exact Nat.lt_of_lt_of_le inStore activity.size_le
  · exact new.2

end Store

/-- With a host, all objects are in the store. -/
theorem Hosted.knowsOwn {handed : Set ScopeId} {s : Store} (hosted : Hosted handed s) :
    s.KnowsOwn := by
  obtain ⟨K, -, known, inStore⟩ := hosted.induct_activity
    (P := fun K s => ∀ o ∈ K, o.index < s.scopes.size) (fun _ mem => by cases mem) <| by
      intro K L s t changes inStore _ activity o mem
      rcases activity.known_or_new mem with known | new
      · exact Nat.lt_of_lt_of_le (inStore o known) activity.size_le
      · exact new.2
  exact known.mono inStore

namespace Store

/-- The stores in which scripts work in a scope. It was made at some moment,
by the host or by a run; and then anything may have happened, there or
elsewhere, as long as it was not handed out as an object. -/
inductive Workplace (id : ScopeId) : Store → Prop where
  | root {handed L : Set ScopeId} {s t : Store} {changes : List Change} : Hosted handed s →
      Activity {o | o.index < s.scopes.size} s changes L t → t.addRoot.1 = id →
      Workplace id t.addRoot.2
  | child {handed L : Set ScopeId} {s t : Store} {changes : List Change} {parent : ScopeId} :
      Hosted handed s → Activity {o | o.index < s.scopes.size} s changes L t →
      (t.addChild parent).1 = id → Workplace id (t.addChild parent).2
  | active {s t : Store} {L : Set ScopeId} {changes : List Change} : Workplace id s →
      Activity {o | o ≠ id} s changes L t → Workplace id t

variable {id : ScopeId} {s : Store}

/-- In a workplace nobody holds the scope as an object. Whoever holds an
object may bind names in its scope, so the scopes of finished objects are left
out, although a host can have programs executed there as well. -/
theorem Workplace.unheld (work : s.Workplace id) :
    id.index < s.scopes.size ∧ s.Knows {o | o ≠ id} := by
  have others : ∀ s : Store, {o : ScopeId | o.index < s.scopes.size} ⊆ {o | o ≠ ⟨s.scopes.size⟩} := by
    rintro s o inStore rfl
    exact Nat.lt_irrefl _ inStore
  induction work with
  | root hosted activity made =>
    subst made
    have known := hosted.knowsOwn.active activity
    exact ⟨by simp [addRoot, addScope], known.addRoot.mono (others _)⟩
  | child hosted activity made =>
    subst made
    have known := hosted.knowsOwn.active activity
    exact ⟨by simp [addChild, addScope], (known.addChild _).mono (others _)⟩
  | active _ activity ih =>
    refine ⟨Nat.lt_of_lt_of_le ih.1 activity.size_le, (activity.knows ih.2).mono fun o mem => ?_⟩
    · rcases activity.known_or_new mem with other | ⟨new, -⟩
      · exact other
      · rintro rfl
        exact Nat.lt_irrefl _ (Nat.lt_of_lt_of_le ih.1 new)

/-- It goes on being one, whatever is executed, there or elsewhere. -/
theorem Workplace.execute (work : s.Workplace id) (levels patience : Nat) (scope : ScopeId)
    (statement : Stmt) (context : Context) :
    ((Below.upTo levels).execute patience scope statement context s).2.Workplace id := by
  obtain ⟨changes, L, activity, -⟩ := Below.acts_execute (Below.acts_upTo levels) patience scope
    statement {o | o ≠ id} context s work.unheld.2
  exact work.active activity

end Store

-- ================================================================== sparing

namespace Store

/-- When a parent part joins an object, the scope gets what comes with it: it
is the object's own, or the one in which its constructor runs. -/
def Feeds (s : Store) (o id : ScopeId) : Prop :=
  o = id ∨ (s.scope o).construction.frame = some id

/-- A scope is as it was in `s`, but for the meaning of its names if it is one
of the objects in `K`, unless something has joined what feeds it. -/
structure Spared (s : Store) (id : ScopeId) (K : Set ScopeId) (t : Store) : Prop where
  inStore : id.index < t.scopes.size
  feeds : ∀ o, t.Feeds o id → s.Feeds o id
  joins : ∀ o, (s.scope o).bases.length ≤ (t.scope o).bases.length
  same : ((t.scope id).Rebinds (s.scope id) ∧ (id ∉ K → t.scope id = s.scope id)) ∨
    ∃ o, s.Feeds o id ∧ (s.scope o).bases.length < (t.scope o).bases.length

variable {s t : Store} {id : ScopeId} {K : Set ScopeId}

theorem Spared.refl (inStore : id.index < s.scopes.size) : s.Spared id K s :=
  ⟨inStore, fun _ feeds => feeds, fun _ => Nat.le_refl _, .inl ⟨.refl _, fun _ => rfl⟩⟩

/-- A scope is spared by a change that does not touch it, or only its names. -/
theorem Spared.apply (spared : s.Spared id K t) {c : Change} (frames : ∀ o, c ≠ .noteFrame o id)
    (rebinds : ((c.apply t).scope id).Rebinds (t.scope id))
    (same : id ∉ K → (c.apply t).scope id = t.scope id) : s.Spared id K (c.apply t) where
  inStore := Nat.lt_of_lt_of_le spared.inStore (c.size_le_apply t)
  feeds o feeds := by
    rcases feeds with rfl | isFrame
    · exact .inl rfl
    · rcases Change.frame_of_apply isFrame with before | noted
      · exact spared.feeds o (.inr before)
      · exact absurd noted (frames o)
  joins o := Nat.le_trans (spared.joins o) (c.bases_length_le_apply t o)
  same := by
    rcases spared.same with ⟨rebound, kept⟩ | ⟨o, feeds, joined⟩
    · exact .inl ⟨rebinds.trans rebound, fun unheld => (same unheld).trans (kept unheld)⟩
    · exact .inr ⟨o, feeds, Nat.lt_of_lt_of_le joined (c.bases_length_le_apply t o)⟩

/-- So it is when a parent part joins an object elsewhere; and if it joins what
feeds the scope, nothing more is said. -/
theorem Spared.join (spared : s.Spared id K t) (target base : ScopeId) :
    s.Spared id K ((t.merge target base).noteSuper target) := by
  have larger := Change.bases_length_le_apply (.noteSuper target) (t.merge target base)
  have joins : ∀ o, (t.scope o).bases.length ≤
      (((t.merge target base).noteSuper target).scope o).bases.length := fun o =>
    Nat.le_trans (Change.bases_length_le_apply (.merge target base) t o) (larger o)
  refine ⟨?_, fun o feeds => ?_, fun o => Nat.le_trans (spared.joins o) (joins o), ?_⟩
  · exact Nat.lt_of_lt_of_le spared.inStore (older_join t target base).size_le
  · rcases feeds with rfl | isFrame
    · exact .inl rfl
    · rw [frame_noteSuper] at isFrame
      rcases Change.frame_of_apply (c := .merge target base) isFrame with before | noted
      · exact spared.feeds o (.inr before)
      · cases noted
  · by_cases feeds : t.Feeds target id
    · have inStore : target.index < t.scopes.size := by
        rcases feeds with rfl | isFrame
        · exact spared.inStore
        · exact lt_of_frame isFrame
      have joined := Nat.lt_of_lt_of_le (Change.bases_length_lt_merge inStore base) (larger target)
      exact .inr ⟨target, spared.feeds target feeds, Nat.lt_of_le_of_lt (spared.joins target) joined⟩
    · rcases spared.same with kept | ⟨o, feeds, joined⟩
      · rw [t.scope_join_of_ne base (fun same => feeds (.inl same)) fun isFrame =>
          feeds (.inr isFrame)]
        exact .inl kept
      · exact .inr ⟨o, feeds, Nat.lt_of_lt_of_le joined (joins o)⟩

/-- If nothing has joined what feeds it, it is as it was. -/
theorem Spared.kept (spared : s.Spared id K t)
    (unjoined : ∀ o, s.Feeds o id → (t.scope o).bases = (s.scope o).bases) :
    (t.scope id).Rebinds (s.scope id) ∧ (id ∉ K → t.scope id = s.scope id) := by
  rcases spared.same with kept | ⟨o, feeds, joined⟩
  · exact kept
  · rw [unjoined o feeds] at joined
    exact absurd joined (Nat.lt_irrefl _)

end Store

/-- The regime that spares a scope. Scripts work everywhere else, and may use
the objects in `K`, of which it may be one. -/
def Regime.sparing (s : Store) (id : ScopeId) (K : Set ScopeId) : Regime where
  free _ := {o | o ≠ id ∨ o ∈ K}
  work _ := {o | o ≠ id}
  tied _ := ∅
  home _ := Set.univ
  free_of_work other := .inl other
  home_of_free _ := trivial
  free_mono _ _ free := free
  work_mono _ _ other := other
  tied_mono _ _ none := none
  home_mono _ _ _ := trivial
  keeps := s.Spared id K
  born _ spared _ := by
    rintro rfl
    exact Nat.lt_irrefl _ spared.inStore
  bornTied _ _ none := none.elim
  change _ spared permitted := by
    refine spared.apply (fun o => ?_) ?_ fun unheld => permitted.scope_apply spared.inStore ?_
    · rintro rfl
      cases permitted with
      | noteFrame _ other => exact other rfl
    · exact permitted.rebinds spared.inStore fun other => other rfl
    · rintro ((other | held) | none)
      · exact other rfl
      · exact unheld held
      · exact none
  join _ spared _ _ := spared.join _ _

-- ================================================================ the result

section

variable {s : Store} {id : ScopeId} {K : Set ScopeId} {statement : Stmt}

/-- A block spares the scope around it. -/
theorem Store.Knows.spared_execute (known : s.Knows K) (inStore : id.index < s.scopes.size)
    (block : statement.isBlock = true) (levels patience : Nat) (context : Context) :
    s.Spared id K ((Below.upTo levels).execute patience id statement context s).2 := by
  let R := Regime.sparing s id K
  have rules : R.Rules s :=
    ⟨⟨known.mono fun _ held => .inr held, fun _ _ _ _ _ => trivial, fun _ _ _ => trivial⟩,
      .refl inStore⟩
  have abides : Run.Abides R s ((Below.upTo levels).execute patience id statement) := by
    refine Below.abides_execute (Below.abiding_upTo R levels) patience s id statement
      (.inl trivial) fun simple => ?_
    rw [block] at simple
    cases simple
  exact (abides rules context).2.1.keeps

/-- **A block is local.** Let a branch, a loop or a thread be executed in a
scope, however it ends, and let nobody hold any objects but those in `K`. What
is held then was held before, or has been made meanwhile; and where scripts
work they still do. Unless a parent part has joined an object that feeds the
scope, which only a call of `super` does, the scope has the same overloads and
the same classes, and nothing has changed there but what its names mean. Not
even that has changed if nobody holds it as an object, as where scripts work:
all names, its own and inherited ones, mean the slots that they meant. -/
theorem Store.block_local (known : s.Knows K) (inStore : id.index < s.scopes.size)
    (block : statement.isBlock = true) (levels patience : Nat) (context : Context) :
    let t := ((Below.upTo levels).execute patience id statement context s).2
    t.Knows {o | o ∈ K ∨ s.scopes.size ≤ o.index} ∧ (s.Workplace id → t.Workplace id) ∧
      ((∀ o, s.Feeds o id → (t.scope o).bases = (s.scope o).bases) →
        (t.scope id).Rebinds (s.scope id) ∧
          (id ∉ K ∨ s.Workplace id → t.scope id = s.scope id)) := by
  intro t
  refine ⟨?_, fun work => work.execute levels patience id statement context, fun unjoined => ?_⟩
  · obtain ⟨changes, L, activity, -⟩ :=
      Below.acts_execute (Below.acts_upTo levels) patience id statement K context s known
    exact (activity.knows known).mono fun o mem => (activity.known_or_new mem).imp_right And.left
  · have spared : s.Spared id K t := known.spared_execute inStore block levels patience context
    obtain ⟨rebinds, same⟩ := spared.kept unjoined
    refine ⟨rebinds, fun apart => ?_⟩
    cases apart with
    | inl unheld => exact same unheld
    | inr work =>
      have spared : s.Spared id {o | o ≠ id} t :=
        work.unheld.2.spared_execute inStore block levels patience context
      exact (spared.kept unjoined).2 fun other => other rfl

end

/-- A branch that takes a name away, declares a class and then fails leaves the
scope of the program as it was. -/
theorem block_local_of_failing :
    let program : Block := [⟨1, .assign (.name "x") (.bool true)⟩]
    let body : Block :=
      [⟨3, .delete (.name "x")⟩, ⟨4, .declareClass "C" none []⟩, ⟨5, .call (.name "g") []⟩]
    let s := ((Request.execute ⟨0⟩ program).run 4 ⟨10, 0, [⟨0⟩]⟩ Store.empty.addRoot.2).2
    let t := ((Below.upTo 4).execute 4 ⟨0⟩ (.branch [(none, body)]) ⟨10, 0, [⟨0⟩]⟩ s).2
    s.Workplace ⟨0⟩ ∧ s.Knows {o | o ≠ ⟨0⟩} ∧ 0 < s.scopes.size ∧
      (Stmt.branch [(none, body)]).isBlock = true ∧
      (∀ o, s.Feeds o ⟨0⟩ → (t.scope o).bases = (s.scope o).bases) ∧
      t.scopes.size = 2 ∧ t.scope ⟨0⟩ = s.scope ⟨0⟩ := by
  intro program body s t
  have begun : Store.empty.addRoot.2.Workplace ⟨0⟩ := .root .start .done rfl
  have work : s.Workplace ⟨0⟩ := by
    let asked : Request := .execute ⟨0⟩ program
    have acts : Run.Acts {o | o ≠ ⟨0⟩} (asked.run 4) := Request.acts_run 4 trivial
    obtain ⟨changes, L, activity, -⟩ := acts ⟨10, 0, [⟨0⟩]⟩ Store.empty.addRoot.2 begun.unheld.2
    exact begun.active activity
  have unjoined : ∀ o, s.Feeds o ⟨0⟩ → (t.scope o).bases = (s.scope o).bases := by
    have single : s.scopes.size = 1 := by decide +kernel
    rintro ⟨index⟩ (same | isFrame)
    · cases same
      decide +kernel
    · -- there is no object, and no constructor has run in the scope
      have unframed : (s.scope ⟨0⟩).construction.frame = none := by decide +kernel
      obtain rfl : index = 0 := Nat.lt_one_iff.1 (single ▸ Store.lt_of_frame isFrame)
      rw [unframed] at isFrame
      cases isFrame
  obtain ⟨inStore, others⟩ := work.unheld
  have block : (Stmt.branch [(none, body)]).isBlock = true := rfl
  obtain ⟨-, -, kept⟩ := Store.block_local others inStore block 4 4 ⟨10, 0, [⟨0⟩]⟩
  exact ⟨work, others, inStore, block, unjoined, by decide +kernel, (kept unjoined).2 (.inr work)⟩

/-- An object whose member `me` holds the object itself. A branch that the
host has executed in its scope declares another member, `k`, through `me`. No
parent part joins anything. -/
theorem name_declared_around_block :
    let program : Block :=
      [⟨1, .declareClass "A" none []⟩, ⟨2, .assign (.name "o") (.new "A" [])⟩,
        ⟨3, .assign (.member (.name "o") "me") (.name "o")⟩]
    let block : Stmt :=
      .branch [(some (.bool true), [⟨4, .assign (.member (.name "me") "k") (.bool true)⟩])]
    let s := ((Request.execute ⟨0⟩ program).run 6 ⟨10, 0, [⟨0⟩]⟩ Store.empty.addRoot.2).2
    let ended := (Request.execute ⟨1⟩ [⟨4, block⟩]).run 6 ⟨10, 0, [⟨0⟩, ⟨1⟩]⟩ s
    (s.get? ⟨0⟩ "o").map Value.objects = some [⟨1⟩] ∧ block.isBlock = true ∧
      ended.1.toOption.isSome = true ∧
      (ended.2.scopes.all fun scope => scope.bases.isEmpty) = true ∧
      (s.scope ⟨1⟩).bindings.own.keys = ["me"] ∧
      (ended.2.scope ⟨1⟩).bindings.own.keys = ["k", "me"] := by
  intro program block s ended
  refine ⟨?_, rfl, ?_, ?_, ?_, ?_⟩ <;> decide +kernel

end RoutineScript
