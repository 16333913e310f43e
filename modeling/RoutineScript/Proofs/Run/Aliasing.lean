/-
Which scopes share slots.

# The discipline

A slot is never bound under two names (`Tidy`). Own halves share a slot only
where an object has taken over its parent part: then a way of merged bases
leads from one to the other (`linked`). And a parent part is in nobody's
hands (`apart`), so two objects that are share nothing.

# Why it is kept

All but a merge binds own names to fresh slots only (`Grows`), and a merge
adds a base that nothing has been merged from before: it was constructed for
this merge. This is where the brackets of an activity matter: while an object
is under construction, nothing comes to know it and nothing merges it, since
all that come to be known or merged then are younger (`Spares`).
-/
import RoutineScript.Proofs.Run.Host
import Mathlib.Logic.Relation

namespace RoutineScript

open Mentions (within)

namespace Store

/-- A way of merged bases leads from one scope to another. -/
def Reaches (s : Store) : ScopeId → ScopeId → Prop :=
  Relation.ReflTransGen fun id base => base ∈ (s.scope id).bases

/-- Scopes that are no base of any other are reached from themselves only. -/
theorem Reaches.eq_of_not_base {s : Store} {i j : ScopeId} (reached : s.Reaches i j)
    (free : ∀ id, j ∉ (s.scope id).bases) : i = j := by
  rcases Relation.ReflTransGen.cases_tail reached with same | ⟨k, -, base⟩
  · exact same.symm
  · exact absurd base (free k)

theorem Reaches.mono {s t : Store} {i j : ScopeId}
    (sub : ∀ id, (s.scope id).bases ⊆ (t.scope id).bases) (reached : s.Reaches i j) :
    t.Reaches i j :=
  Relation.ReflTransGen.mono (fun id _ base => sub id base) _ _ reached

-- ================================================================= sparing

/-- On the way from `s` to `t`, nothing that `s` has without knowing it has
come to be known or merged. -/
structure Spares (K : Set ScopeId) (s : Store) (L : Set ScopeId) (t : Store) : Prop where
  size_le : s.scopes.size ≤ t.scopes.size
  known : ∀ id ∈ L, id ∈ K ∨ s.scopes.size ≤ id.index
  bases : ∀ {id base}, base ∈ (t.scope id).bases →
    base ∈ (s.scope id).bases ∨ s.scopes.size ≤ base.index

theorem Spares.refl (K : Set ScopeId) (s : Store) : Spares K s K s :=
  ⟨Nat.le_refl _, fun _ mem => Or.inl mem, Or.inl⟩

theorem Spares.trans {K L M : Set ScopeId} {s t u : Store} (first : Spares K s L t)
    (second : Spares L t M u) : Spares K s M u where
  size_le := Nat.le_trans first.size_le second.size_le
  known id mem := by
    rcases second.known id mem with mem | young
    · exact first.known id mem
    · exact Or.inr (Nat.le_trans first.size_le young)
  bases := by
    intro id base mem
    rcases second.bases mem with mem | young
    · exact first.bases mem
    · exact Or.inr (Nat.le_trans first.size_le young)

theorem Grows.spares {s t : Store} {subject : Option ScopeId} (grows : s.Grows t subject)
    (K : Set ScopeId) : Spares K s K t :=
  ⟨grows.size_le, fun _ mem => Or.inl mem, fun {id _} mem => Or.inl (grows.bases id ▸ mem)⟩

/-- A merge adds the base and nothing else. -/
theorem mem_bases_merge {s : Store} {target base id b : ScopeId} :
    b ∈ ((s.merge target base).scope id).bases →
      b ∈ (s.scope id).bases ∨ (id = target ∧ b = base) := by
  intro mem
  unfold merge at mem
  rcases scope_modifyScope_or s target (fun scope => scope.merge (s.scope base) base) id
    with same | ⟨rfl, changed⟩
  · rw [same] at mem
    exact Or.inl mem
  · rw [changed] at mem
    rcases List.mem_append.1 mem with old | new
    · exact Or.inl old
    · exact Or.inr ⟨rfl, List.mem_singleton.1 new⟩

theorem bases_subset_merge (s : Store) (target base id : ScopeId) :
    (s.scope id).bases ⊆ ((s.merge target base).scope id).bases := by
  unfold merge
  rcases scope_modifyScope_or s target (fun scope => scope.merge (s.scope base) base) id
    with same | ⟨rfl, changed⟩
  · rw [same]
    exact List.Subset.refl _
  · rw [changed]
    exact List.subset_append_left _ _

theorem scopes_size_merge (s : Store) (target base : ScopeId) :
    (s.merge target base).scopes.size = s.scopes.size :=
  s.scopes_size_modifyScope target _

end Store

open Store

theorem Activity.spares {K L : Set ScopeId} {s t : Store} {changes : List Change}
    (activity : Activity K s changes L t) : Spares K s L t := by
  induction activity with
  | done => exact .refl _ _
  | @step K _ s _ c _ plain _ _ ih =>
    obtain ⟨subject, grows⟩ := Change.grows_apply plain s
    exact (grows.spares K).trans ih
  | @constructed K L _ s t _ home _ _ _ _ inner ih =>
    have constructed : Spares K s L t := ((s.grows_addChild home).spares K).trans inner
    refine Spares.trans ⟨constructed.size_le, ?_, constructed.bases⟩ ih
    rintro id (rfl | mem)
    · exact Or.inr (Nat.le_refl _)
    · exact constructed.known id mem
  | @merged K L _ s t _ home target _ _ _ _ inner ih =>
    have constructed : Spares K s L t := ((s.grows_addChild home).spares K).trans inner
    refine Spares.trans ⟨?_, constructed.known, ?_⟩ ih
    · rw [scopes_size_merge]
      exact constructed.size_le
    · intro id b mem
      rcases mem_bases_merge mem with old | ⟨-, rfl⟩
      · exact constructed.bases old
      · exact Or.inr (Nat.le_refl _)

-- ============================================================= discipline

/-- The invariant: every known object and every base exists, no base is
known, and whoever shares an own slot is linked by merged bases. -/
structure Store.Disciplined (K : Set ScopeId) (s : Store) : Prop where
  tidy : s.Tidy
  known_lt : ∀ id ∈ K, id.index < s.scopes.size
  base_lt : ∀ {id base}, base ∈ (s.scope id).bases → base.index < s.scopes.size
  apart : ∀ {id base}, base ∈ (s.scope id).bases → base ∉ K
  linked : ∀ {i j name name' slot}, s.Binds i .own name slot → s.Binds j .own name' slot →
    s.Reaches i j ∨ s.Reaches j i

namespace Store

theorem disciplined_empty : Disciplined ∅ .empty where
  tidy := tidy_empty
  known_lt _ mem := by cases mem
  base_lt {id base} mem := by simp [scope, empty, default, Scope.root] at mem
  apart _ mem := by cases mem
  linked bound := absurd bound not_binds_empty

/-- Steps without a merge keep the discipline. -/
theorem Disciplined.of_grows {K : Set ScopeId} {s t : Store} {subject : Option ScopeId}
    (disciplined : Disciplined K s) (tidy : t.Tidy) (grows : s.Grows t subject) :
    Disciplined K t where
  tidy := tidy
  known_lt id mem := Nat.lt_of_lt_of_le (disciplined.known_lt id mem) grows.size_le
  base_lt {id base} mem := by
    rw [grows.bases] at mem
    exact Nat.lt_of_lt_of_le (disciplined.base_lt mem) grows.size_le
  apart {id base} mem := by
    rw [grows.bases] at mem
    exact disciplined.apart mem
  linked {i j name name' slot} first second := by
    have kept : ∀ id, (s.scope id).bases ⊆ (t.scope id).bases := fun id => by
      rw [grows.bases]
      exact List.Subset.refl _
    rcases grows.own first with old | ⟨isSubject, fresh⟩
    · rcases grows.own second with old' | ⟨-, fresh'⟩
      · exact (disciplined.linked old old').imp (Reaches.mono kept) (Reaches.mono kept)
      · exact absurd (disciplined.tidy.exists_slot old) (Nat.not_lt.2 fresh')
    · rcases grows.own second with old' | ⟨isSubject', -⟩
      · exact absurd (disciplined.tidy.exists_slot old') (Nat.not_lt.2 fresh)
      · -- a fresh slot is in one scope only
        have same : i = j := Option.some.inj (isSubject.symm.trans isSubject')
        subst same
        exact Or.inl .refl

/-- An own binding after a merge was one before, of the scope itself or of
its new base. -/
theorem own_merge {s : Store} {target base id : ScopeId} {name : String} {slot : SlotId}
    (bound : (s.merge target base).Binds id .own name slot) :
    s.Binds id .own name slot ∨
      s.Binds base .own name slot ∧ id = target ∧
        base ∈ ((s.merge target base).scope id).bases := by
  have merged := scope_modifyScope_or s target (fun scope => scope.merge (s.scope base) base) id
  rw [Binds] at bound
  unfold merge at bound ⊢
  rcases merged with same | ⟨rfl, changed⟩
  · rw [same] at bound
    exact Or.inl bound
  · rw [changed] at bound ⊢
    simp only [Table.half, Scope.merge] at bound
    rw [Table.getElem?_own_merge] at bound
    cases own : (s.scope id).bindings.own[name]? with
    | some _ =>
      rw [own] at bound
      exact Or.inl (own.trans bound)
    | none =>
      rw [own] at bound
      exact Or.inr ⟨bound, rfl, List.mem_append_right _ (List.mem_singleton_self _)⟩

/-- A merge keeps the discipline if its base exists, is unknown and is a base
of nothing yet. -/
theorem Disciplined.merge {K : Set ScopeId} {s : Store} {target base : ScopeId}
    (disciplined : Disciplined K s) (exists_base : base.index < s.scopes.size)
    (unknown : base ∉ K) (free : ∀ id, base ∉ (s.scope id).bases) :
    Disciplined K (s.merge target base) where
  tidy := disciplined.tidy.of_derives (s.derives_merge target base)
  known_lt id mem := by
    rw [scopes_size_merge]
    exact disciplined.known_lt id mem
  base_lt {id b} mem := by
    rw [scopes_size_merge]
    rcases mem_bases_merge mem with old | ⟨-, rfl⟩
    · exact disciplined.base_lt old
    · exact exists_base
  apart {id b} mem := by
    rcases mem_bases_merge mem with old | ⟨-, rfl⟩
    · exact disciplined.apart old
    · exact unknown
  linked {i j name name' slot} first second := by
    have kept := Reaches.mono (s.bases_subset_merge target base) (i := i) (j := j)
    have kept' := Reaches.mono (s.bases_subset_merge target base) (i := j) (j := i)
    -- who shares a slot of the base is the base, or is reached from it
    have below : ∀ {k name'}, s.Binds base .own name slot → s.Binds k .own name' slot →
        (s.merge target base).Reaches base k := by
      intro k name' ofBase ofOther
      rcases disciplined.linked ofBase ofOther with down | up
      · exact down.mono (s.bases_subset_merge target base)
      · rw [up.eq_of_not_base free]
        exact .refl
    rcases own_merge first with old | ⟨taken, atTarget, isBase⟩
    · rcases own_merge second with old' | ⟨taken', -, isBase'⟩
      · exact (disciplined.linked old old').imp kept kept'
      · have same : name = name' := disciplined.tidy.one_name old taken'
        subst same
        exact Or.inr (.head isBase' (below taken' old))
    · rcases own_merge second with old' | ⟨-, atTarget', -⟩
      · exact Or.inl (.head isBase (below taken old'))
      · rw [atTarget, atTarget']
        exact Or.inl .refl

end Store

theorem Store.Disciplined.addChild {K : Set ScopeId} {s : Store}
    (disciplined : Disciplined K s) (home : ScopeId) : Disciplined K (s.addChild home).2 := by
  have tidy : (s.addChild home).2.Tidy := disciplined.tidy.of_derives (s.derives_addChild home)
  exact disciplined.of_grows tidy (s.grows_addChild home)

/-- When the construction of an object is done, the object is there, but it
has not come to be known, nor has it been merged. -/
theorem Activity.fresh_object {K L : Set ScopeId} {s t : Store} {home : ScopeId}
    {inner : List Change} (activity : Activity K (s.addChild home).2 inner L t)
    (disciplined : Disciplined K s) :
    (s.addChild home).1.index < t.scopes.size ∧ (s.addChild home).1 ∉ L ∧
      ∀ id, (s.addChild home).1 ∉ (t.scope id).bases := by
  have size : (s.addChild home).2.scopes.size = s.scopes.size + 1 := by simp [addChild, addScope]
  have index : (s.addChild home).1.index = s.scopes.size := rfl
  have spares := activity.spares
  have size_le := spares.size_le
  refine ⟨by omega, fun mem => ?_, fun id mem => ?_⟩
  · rcases spares.known _ mem with known | young
    · exact absurd (disciplined.known_lt _ known) (by omega)
    · omega
  · rcases spares.bases mem with old | young
    · rw [(s.grows_addChild home).bases] at old
      exact absurd (disciplined.base_lt old) (by omega)
    · omega

/-- Every activity keeps the discipline. -/
theorem Activity.disciplined {K L : Set ScopeId} {s t : Store} {changes : List Change}
    (activity : Activity K s changes L t) (disciplined : Disciplined K s) : Disciplined L t := by
  induction activity with
  | done => exact disciplined
  | step plain _ _ ih =>
    obtain ⟨subject, grows⟩ := Change.grows_apply plain _
    exact ih (disciplined.of_grows (Change.tidy_apply disciplined.tidy) grows)
  | @constructed K L _ s t _ home _ _ inner _ disciplined_inner ih =>
    have built := disciplined_inner (disciplined.addChild home)
    obtain ⟨exists_object, -, free⟩ := inner.fresh_object disciplined
    refine ih ⟨built.tidy, ?_, built.base_lt, ?_, built.linked⟩
    · rintro id (rfl | mem)
      · exact exists_object
      · exact built.known_lt id mem
    · rintro id base mem (rfl | known)
      · exact free id mem
      · exact built.apart mem known
  | @merged K L _ s t _ home target _ _ inner _ disciplined_inner ih =>
    have built := disciplined_inner (disciplined.addChild home)
    obtain ⟨exists_object, unknown, free⟩ := inner.fresh_object disciplined
    exact ih (built.merge exists_object unknown free)

-- ============================================================= assignments

namespace Store

/-- An assignment binds no other name. -/
theorem half_assign_of_ne (s : Store) (id : ScopeId) {name other : String} (v : Value)
    (ne : other ≠ name) (key : ScopeId) (half : Half) :
    (((s.assign id name v).2.scope key).bindings.half half)[other]? =
      ((s.scope key).bindings.half half)[other]? := by
  rcases s.assign_cases id name v with ⟨_, h⟩ | h | ⟨slot, -, h⟩ <;> rw [h]
  · exact s.half_bindOwn_of_ne v half fun same => ne same.2.symm
  · rfl

/-- An assignment leaves the values of other names alone, in every scope and
in both halves. -/
theorem value_assign_of_ne {s : Store} (tidy : s.Tidy) {id key : ScopeId} {half : Half}
    {name other : String} {slot : SlotId} (v : Value) (ne : other ≠ name)
    (bound : s.Binds key half other slot) : (s.assign id name v).2.value slot = s.value slot := by
  have spared : ∀ name' w, ¬ (Operation.assign id name v).WritesThrough s name' slot w := by
    rintro name' w ⟨id', assigned, -, inherited⟩
    cases assigned
    have written : s.Binds id .inherited name slot := inherited
    exact ne (tidy.one_name bound written)
  exact Operation.value_perform_of_not (tidy.exists_slot bound) spared

/-- What is read of another name stays the same under an assignment. -/
theorem reads_assign_of_ne {s : Store} (tidy : s.Tidy) (id : ScopeId) {name other : String}
    (v : Value) (ne : other ≠ name) (key : ScopeId) :
    (s.assign id name v).2.get? key other = s.get? key other ∧
      (s.assign id name v).2.lookupOwn key other = s.lookupOwn key other ∧
      (s.assign id name v).2.lookupInherited key other = s.lookupInherited key other := by
  have own : ((s.assign id name v).2.scope key).bindings.own[other]? = _ :=
    s.half_assign_of_ne id v ne key .own
  have inherited : ((s.assign id name v).2.scope key).bindings.inherited[other]? = _ :=
    s.half_assign_of_ne id v ne key .inherited
  have value : ∀ {half slot}, s.Binds key half other slot →
      (s.assign id name v).2.value slot = s.value slot := value_assign_of_ne tidy v ne
  refine ⟨?_, ?_, ?_⟩
  · unfold get? Table.get?
    rw [own, inherited]
    cases found : (s.scope key).bindings.get? other with
    | none =>
      unfold Table.get? at found
      simp only [Table.half, found, Option.map_none]
    | some slot =>
      obtain ⟨half, bound⟩ := binds_of_get? found
      unfold Table.get? at found
      simp only [Table.half, found, Option.map_some, value bound]
  · unfold lookupOwn
    rw [own]
    cases found : (s.scope key).bindings.own[other]? with
    | none => simp only [Table.half, found]
    | some slot =>
      have bound : s.Binds key .own other slot := found
      simp only [Table.half, found, value bound]
  · unfold lookupInherited
    rw [inherited]
    cases found : (s.scope key).bindings.inherited[other]? with
    | none => simp only [Table.half, found]
    | some slot =>
      have bound : s.Binds key .inherited other slot := found
      simp only [Table.half, found, value bound]

end Store

/-- Whatever a host has done and its scripts have run: no slot is bound under
two names; who shares an own slot is linked by merged bases; two objects that
a script or the host can hold share none; and to assign a name changes what
is read of no other name, in no scope. -/
theorem aliasing_discipline {handed : Set ScopeId} {s : Store} (hosted : Hosted handed s) :
    (∀ {id half name slot id' half' name'},
      s.Binds id half name slot → s.Binds id' half' name' slot → name = name') ∧
    (∀ {i j name name' slot}, s.Binds i .own name slot → s.Binds j .own name' slot →
      s.Reaches i j ∨ s.Reaches j i) ∧
    (∀ {i j name name' slot}, i ∈ s.holdable handed → j ∈ s.holdable handed → i ≠ j →
      s.Binds i .own name slot → ¬ s.Binds j .own name' slot) ∧
    ∀ (id : ScopeId) (name : String) (v : Value) (key : ScopeId) (other : String), other ≠ name →
      (s.assign id name v).2.get? key other = s.get? key other ∧
      (s.assign id name v).2.lookupOwn key other = s.lookupOwn key other ∧
      (s.assign id name v).2.lookupInherited key other = s.lookupInherited key other := by
  obtain ⟨K, handedKnown, known, disciplined⟩ := hosted.induct_activity disciplined_empty
    fun holds _ activity => activity.disciplined holds
  refine ⟨disciplined.tidy.one_name, disciplined.linked, ?_, ?_⟩
  · intro i j name name' slot held held' ne bound bound'
    have unbased : ∀ {k}, k ∈ s.holdable handed → ∀ id, k ∉ (s.scope id).bases :=
      fun held id mem => disciplined.apart mem (known.holdable_subset handedKnown held)
    rcases disciplined.linked bound bound' with down | up
    · exact ne (down.eq_of_not_base (unbased held'))
    · exact ne (up.eq_of_not_base (unbased held)).symm
  · intro id name v key other ne
    exact reads_assign_of_ne disciplined.tidy id v ne key

/-- Two objects of one class have a slot each for their member. -/
theorem aliasing_discipline_of_twins :
    let program : Block :=
      [⟨1, .declareClass "A" none [⟨1, .assign (.name "m") (.bool true)⟩]⟩,
        ⟨2, .assign (.name "a") (.new "A" [])⟩, ⟨3, .assign (.name "b") (.new "A" [])⟩]
    let s := ((Request.execute ⟨0⟩ program).run 6 ⟨10, 0, [⟨0⟩]⟩ Store.empty.addRoot.2).2
    s.Binds ⟨1⟩ .own "m" ⟨0⟩ ∧ ¬ s.Binds ⟨3⟩ .own "m" ⟨0⟩ := by
  intro program s
  have hosted : Hosted _ s :=
    .ask 6 _ (.operate (o := .root) .start trivial) trivial
  have first : (⟨1⟩ : ScopeId) ∈ (s.value ⟨1⟩).objects := by decide +kernel
  have second : (⟨3⟩ : ScopeId) ∈ (s.value ⟨3⟩).objects := by decide +kernel
  have bound : s.Binds ⟨1⟩ .own "m" ⟨0⟩ := by
    unfold Store.Binds
    decide +kernel
  obtain ⟨-, -, apart, -⟩ := aliasing_discipline hosted
  exact ⟨bound, apart (Or.inr (Or.inl ⟨_, first⟩)) (Or.inr (Or.inl ⟨_, second⟩)) (by decide) bound⟩

end RoutineScript
