/-
Who lives along with a living scope.

The living are what is left when, again and again, those are taken away to
whom no living scope refers. Each round takes away nobody to whom somebody
that stays refers, so the living are closed under references (`Closed`),
however many rounds there are. In particular a way of parents and merged
bases (`LeadsTo`) never leaves the living, and the shortcut of `isLive` along
such ways tells nothing new.
-/
import RoutineScript.Run
import Mathlib.Logic.Relation

namespace RoutineScript

-- ==================================================================== marks

section

variable {marks : Array Bool} {ids : List ScopeId} {id : ScopeId}

/-- A scope is marked. -/
def Marked (marks : Array Bool) (id : ScopeId) : Prop :=
  marks[id.index]? = some true

theorem Marked.lt (marked : Marked marks id) : id.index < marks.size :=
  (Array.getElem?_eq_some_iff.1 marked).1

/-- What marks more than others, and has as many places. -/
structure Covers (more marks : Array Bool) : Prop where
  size : more.size = marks.size
  marked : ∀ {id}, Marked marks id → Marked more id

theorem Covers.refl (marks : Array Bool) : Covers marks marks :=
  ⟨rfl, id⟩

theorem Covers.trans {a b c : Array Bool} (outer : Covers a b) (inner : Covers b c) : Covers a c :=
  ⟨outer.size.trans inner.size, outer.marked ∘ inner.marked⟩

/-- What adds marks one after the other covers what it began with, and what
each step has added. -/
theorem covers_foldl {α : Type} {f : Array Bool → α → Array Bool}
    (adds : ∀ marks a, Covers (f marks a) marks) (as : List α) (marks : Array Bool) :
    Covers (as.foldl f marks) marks ∧
      ∀ a ∈ as, ∃ between, Covers between marks ∧ Covers (as.foldl f marks) (f between a) := by
  induction as generalizing marks with
  | nil => exact ⟨.refl marks, nofun⟩
  | cons first rest ih =>
    obtain ⟨covers, each⟩ := ih (f marks first)
    refine ⟨covers.trans (adds marks first), fun a mem => ?_⟩
    rcases List.mem_cons.1 mem with rfl | mem
    · exact ⟨marks, .refl marks, covers⟩
    · obtain ⟨between, sinceFirst, after⟩ := each a mem
      exact ⟨between, sinceFirst.trans (adds marks first), after⟩

theorem covers_setIfInBounds (marks : Array Bool) (id : ScopeId) :
    Covers (marks.setIfInBounds id.index true) marks where
  size := Array.size_setIfInBounds
  marked := by
    intro key marked
    rw [Marked, Array.getElem?_setIfInBounds]
    split
    · next same => rw [if_pos (same ▸ marked.lt)]
    · exact marked

theorem covers_mark (marks : Array Bool) (ids : List ScopeId) :
    Covers (Store.mark marks ids) marks :=
  (covers_foldl covers_setIfInBounds ids marks).1

theorem marked_mark (mem : id ∈ ids) (inRange : id.index < marks.size) :
    Marked (Store.mark marks ids) id := by
  obtain ⟨between, since, after⟩ := (covers_foldl covers_setIfInBounds ids marks).2 id mem
  refine after.marked ?_
  rw [Marked, Array.getElem?_setIfInBounds, if_pos rfl, if_pos (since.size ▸ inRange)]

theorem getElem?_mark (marks : Array Bool) (ids : List ScopeId) (i : Nat) :
    (Store.mark marks ids)[i]? = if ⟨i⟩ ∈ ids ∧ i < marks.size then some true else marks[i]? := by
  induction ids generalizing marks with
  | nil => rw [if_neg (fun h => nomatch h.1)]; rfl
  | cons id ids ih =>
    rw [Store.mark, List.foldl_cons]
    refine (ih _).trans ?_
    rw [Array.size_setIfInBounds, Array.getElem?_setIfInBounds]
    by_cases here : id.index = i
    · subst here
      by_cases inRange : id.index < marks.size <;> simp [inRange]
    · have other : (⟨i⟩ : ScopeId) ≠ id := fun same => here (congrArg ScopeId.index same).symm
      simp [here, other]

/-- Who is marked depends on who is in the list only. -/
theorem mark_congr {ids' : List ScopeId} (same : ∀ id, id ∈ ids ↔ id ∈ ids') (marks : Array Bool) :
    Store.mark marks ids = Store.mark marks ids' := by
  refine Array.ext_getElem? fun i => ?_
  simp only [getElem?_mark, same]

end

namespace Store

variable {s : Store} {held : List ScopeId} {alive : Array Bool} {id next : ScopeId}

-- =================================================================== closed

/-- What all rounds leave true: those who are worked with are alive, and so
is everyone to whom somebody alive refers. -/
structure Closed (s : Store) (held : List ScopeId) (alive : Array Bool) : Prop where
  size : alive.size = s.scopes.size
  held : ∀ {id}, id ∈ held → id.index < s.scopes.size → Marked alive id
  reference : ∀ {id next}, Marked alive id → next ∈ s.references (s.scope id) →
    next.index < s.scopes.size → Marked alive next

theorem closed_replicate (s : Store) (held : List ScopeId) :
    s.Closed held (Array.replicate s.scopes.size true) := by
  have all : ∀ {id : ScopeId}, id.index < s.scopes.size →
      Marked (Array.replicate s.scopes.size true) id := fun inStore => by
    rw [Marked, Array.getElem?_replicate, if_pos inStore]
  exact ⟨Array.size_replicate, fun _ => all, fun _ _ => all⟩

/-- What supports a scope: those who work with it, and the living that refer
to it. -/
theorem supported_spec (s : Store) (held : List ScopeId) (size : alive.size = s.scopes.size) :
    (s.supported held alive).size = s.scopes.size ∧
      (∀ {id}, id ∈ held → id.index < s.scopes.size → Marked (s.supported held alive) id) ∧
      ∀ {id next}, Marked alive id → next ∈ s.references (s.scope id) →
        next.index < s.scopes.size → Marked (s.supported held alive) next := by
  let start := mark (Array.replicate s.scopes.size false) held
  have began : start.size = s.scopes.size :=
    (covers_mark _ held).size.trans Array.size_replicate
  have adds : ∀ marks (pair : Scope × Bool),
      Covers (if pair.2 then mark marks (s.references pair.1) else marks) marks := by
    intro marks pair
    split
    · exact covers_mark marks _
    · exact .refl marks
  obtain ⟨covers, each⟩ := covers_foldl adds (s.scopes.zip alive).toList start
  rw [Array.foldl_toList] at covers each
  refine ⟨covers.size.trans began, fun mem inStore => ?_, fun {id next} lives mem inStore => ?_⟩
  · exact covers.marked (marked_mark mem (Array.size_replicate ▸ inStore))
  · have there : id.index < s.scopes.size := size ▸ lives.lt
    have pair : (s.scope id, true) ∈ (s.scopes.zip alive).toList := by
      rw [Array.mem_toList_iff, Array.mem_iff_getElem?]
      refine ⟨id.index, ?_⟩
      have here : s.scopes[id.index]? = some (s.scope id) := by
        rw [scope, Array.getD_eq_getD_getElem?, Array.getElem?_eq_getElem there]
        rfl
      rw [Array.zip, Array.getElem?_zipWith, here, lives]
    obtain ⟨between, since, after⟩ := each _ pair
    refine after.marked ?_
    rw [if_pos rfl]
    exact marked_mark mem (by rw [since.size, began]; exact inStore)

/-- A round keeps those who are supported. -/
theorem Closed.round (closed : s.Closed held alive) :
    s.Closed held ((alive.zip (s.supported held alive)).map fun (lives, kept) => lives && kept) := by
  obtain ⟨size, worked, reference⟩ := s.supported_spec held closed.size
  have marked_iff : ∀ {id}, Marked
      ((alive.zip (s.supported held alive)).map fun (lives, kept) => lives && kept) id ↔
        Marked alive id ∧ Marked (s.supported held alive) id := by
    intro id
    simp only [Marked, Array.getElem?_map, Array.zip, Array.getElem?_zipWith]
    cases alive[id.index]? <;> cases (s.supported held alive)[id.index]? <;> simp
  refine ⟨?_, fun mem inStore => ?_, fun lives mem inStore => ?_⟩
  · rw [Array.size_map, Array.size_zip, size, closed.size, Nat.min_self]
  · exact marked_iff.2 ⟨closed.held mem inStore, worked mem inStore⟩
  · have lives := (marked_iff.1 lives).1
    exact marked_iff.2 ⟨closed.reference lives mem inStore, reference lives mem inStore⟩

theorem Closed.settle (closed : s.Closed held alive) (rounds : Nat) :
    s.Closed held (s.settle held alive rounds) := by
  induction rounds generalizing alive with
  | zero => exact closed
  | succ rounds ih =>
    unfold Store.settle
    dsimp only
    split
    · exact closed
    · exact ih closed.round

theorem closed_living (s : Store) (held : List ScopeId) : s.Closed held (s.living held) :=
  (s.closed_replicate held).settle _

-- ===================================================================== ways

/-- A way of parents and merged bases leads from one scope to another. -/
def LeadsTo (s : Store) : ScopeId → ScopeId → Prop :=
  Relation.ReflTransGen fun id next => next ∈ (s.scope id).kin

theorem lt_of_mem_kin (kin : next ∈ (s.scope id).kin) : id.index < s.scopes.size := by
  refine Nat.lt_of_not_le fun absent => ?_
  rw [scope, Array.getD_eq_getD_getElem?, Array.getElem?_eq_none absent] at kin
  simp [default, Scope.root, Scope.kin] at kin

theorem Closed.leadsTo (closed : s.Closed held alive) (lives : Marked alive id)
    (leads : s.LeadsTo id next) (inStore : next.index < s.scopes.size) : Marked alive next := by
  induction leads with
  | refl => exact lives
  | @tail id next _ kin ih =>
    have referred : next ∈ s.references (s.scope id) :=
      List.mem_append_left _ (List.mem_append_left _ kin)
    exact closed.reference (ih (lt_of_mem_kin kin)) referred inStore

/-- What is met on the way lies on a way. -/
theorem exists_of_meets {steps : Nat} {ids : List ScopeId}
    (met : s.meets next steps ids = true) : ∃ id ∈ ids, s.LeadsTo id next := by
  induction steps generalizing ids with
  | zero => simp [meets] at met
  | succ steps ih =>
    cases ids with
    | nil => simp [meets] at met
    | cons id ids =>
      simp only [meets, Bool.or_eq_true] at met
      rcases met with here | met
      · exact ⟨next, List.contains_iff_mem.1 here, .refl⟩
      · obtain ⟨above, mem, leads⟩ := ih met
        obtain ⟨below, mem, kin⟩ := List.mem_flatMap.1 mem
        exact ⟨below, mem, .head kin leads⟩

/-- The shortcut meets only the living. -/
theorem isLive_iff (inStore : id.index < s.scopes.size) :
    s.isLive held id = true ↔ Marked (s.living held) id := by
  have closed := s.closed_living held
  have marked : (s.living held).getD id.index false = true ↔ Marked (s.living held) id := by
    rw [Array.getD_eq_getD_getElem?, Marked]
    cases (s.living held)[id.index]? <;> simp
  rw [isLive, Bool.or_eq_true, marked, or_iff_right_iff_imp, List.any_eq_true]
  rintro ⟨h, mem, met⟩
  obtain ⟨_, same, leads⟩ := exists_of_meets met
  cases List.mem_singleton.1 same
  have there : h.index < s.scopes.size := by
    rcases Relation.ReflTransGen.cases_head leads with rfl | ⟨_, kin, -⟩
    · exact inStore
    · exact lt_of_mem_kin kin
  exact closed.leadsTo (closed.held mem there) leads inStore

/-- Who is worked with is alive. -/
theorem isLive_of_mem (mem : id ∈ held) (inStore : id.index < s.scopes.size) :
    s.isLive held id = true :=
  (isLive_iff inStore).2 ((s.closed_living held).held mem inStore)

/-- A living scope keeps alive what a way leads to. -/
theorem isLive_of_leadsTo (lives : s.isLive held id = true) (leads : s.LeadsTo id next)
    (inStore : next.index < s.scopes.size) : s.isLive held next = true := by
  rcases Relation.ReflTransGen.cases_head leads with rfl | ⟨_, kin, -⟩
  · exact lives
  · have marked := (isLive_iff (lt_of_mem_kin kin)).1 lives
    exact (isLive_iff inStore).2 ((s.closed_living held).leadsTo marked leads inStore)

/-- Who is alive depends on who is worked with, but not on the order. -/
theorem isLive_congr {held' : List ScopeId} (same : ∀ id, id ∈ held ↔ id ∈ held') :
    s.isLive held id = s.isLive held' id := by
  have supported : s.supported held = s.supported held' := by
    funext alive
    rw [Store.supported, Store.supported, mark_congr same]
  have settled : ∀ rounds alive, s.settle held alive rounds = s.settle held' alive rounds := by
    intro rounds
    induction rounds with
    | zero => exact fun _ => rfl
    | succ rounds ih =>
      intro alive
      simp only [settle, supported, ih]
  have near : held.any (fun h => s.meets id s.scopes.size [h]) =
      held'.any fun h => s.meets id s.scopes.size [h] := by
    rw [Bool.eq_iff_iff]
    simp only [List.any_eq_true, same]
  rw [isLive, isLive, living, living, settled, near]

end Store

namespace Run

/-- Looking for a living scope does not stop a run. -/
theorem requireLive_eq {id : ScopeId} {name : String} {context : Context} {s : Store}
    (lives : s.isLive context.held id = true) :
    requireLive id name context s = (.ok (), s) :=
  if_pos lives

end Run

end RoutineScript
