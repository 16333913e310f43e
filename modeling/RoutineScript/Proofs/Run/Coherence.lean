/-
What is read of a member, through its object or by its bare name.

# Bindings

A member is a name that an object has declared itself, and a bare name means
the slot that a scope sees under it. Reads agree where these slots are the
same: everyone who sees a slot reads the value most recently written through
it (`value_replay`). So what remains to be told is who sees the slot of a
member, and for how long.

- A new scope sees the slots of the scope it is created below: a call sees
  those of the scope that its definition belongs to, apart from parameters,
  and a block those of the scope around it.
- An object sees the slots of its parent part for the members it has not
  declared itself, and so does its constructor when `super` is done.
- A slot is seen until its name is bound anew in the scope (`Rebinds`). To
  assign a name that the scope has inherited is no such thing, but to assign
  an own one is: it takes a fresh slot, and whoever has seen the old one goes
  on seeing that.
-/
import RoutineScript.Proofs.Run.Host

namespace RoutineScript

/-- The slot that a bare name means in a scope. -/
def Store.slot? (s : Store) (id : ScopeId) (name : String) : Option SlotId :=
  (s.scope id).bindings.get? name

namespace Store

variable {s : Store}

/-- An own name means its own slot. -/
theorem slot?_of_own {id : ScopeId} {name : String} {slot : SlotId}
    (bound : s.Binds id .own name slot) : s.slot? id name = some slot := by
  have own : (s.scope id).bindings.own[name]? = some slot := bound
  rw [slot?, Table.get?, own]
  rfl

/-- A name that is not own means its inherited slot. -/
theorem slot?_of_not_own {id : ScopeId} {name : String}
    (notOwn : (s.scope id).bindings.own[name]? = none) :
    s.slot? id name = (s.scope id).bindings.inherited[name]? := by
  rw [slot?, Table.get?, notOwn]
  rfl

/-- A read is of the value in the slot. -/
theorem lookup_of_slot? {id : ScopeId} {name : String} {slot : SlotId}
    (seen : s.slot? id name = some slot) : s.lookup id name = .ok (s.value slot) := by
  rw [slot?] at seen
  rw [lookup, get?, seen]
  rfl

theorem lookup_of_slot?_eq_none {id : ScopeId} {name : String} (unseen : s.slot? id name = none) :
    s.lookup id name = .error (Cause.notFound name) := by
  rw [slot?] at unseen
  rw [lookup, get?, unseen]
  rfl

/-- Where a name is seen, there is a scope. -/
theorem lt_of_slot? {id : ScopeId} {name : String} {slot : SlotId}
    (seen : s.slot? id name = some slot) : id.index < s.scopes.size := by
  refine Nat.lt_of_not_le fun absent => ?_
  have default : s.scope id = .root := by
    rw [scope, Array.getD_eq_getD_getElem?, Array.getElem?_eq_none absent]
    rfl
  rw [slot?, default] at seen
  simp [Table.get?, Scope.root, Table.empty] at seen

-- --------------------------------------------------------- inheriting anew

/-- Noting the parent part leaves own bindings alone. -/
theorem own_noteSuper (s : Store) (id key : ScopeId) :
    ((s.noteSuper id).scope key).bindings.own = (s.scope key).bindings.own := by
  have same := s.bindings_noted id key
  rw [noteSuper_eq]
  split
  · rw [same]
  · next frame _ =>
    rcases (s.modifyScope id Scope.noted).scope_inheritAnew_or frame key with
      h | ⟨rfl, parent, -, h⟩ <;> rw [h]
    · rw [same]
    · show ((s.modifyScope id Scope.noted).scope key).bindings.own = _
      rw [same]

/-- Noting the parent part changes the bindings of the constructor's frame
only. -/
theorem bindings_noteSuper_of_ne (s : Store) {id key : ScopeId}
    (other : (s.scope id).construction.frame ≠ some key) :
    ((s.noteSuper id).scope key).bindings = (s.scope key).bindings := by
  have same := s.bindings_noted id key
  rw [noteSuper_eq]
  split
  · exact same
  · next frame isFrame =>
    rcases (s.modifyScope id Scope.noted).scope_inheritAnew_or frame key with h | ⟨rfl, -⟩
    · rw [h, same]
    · exact absurd isFrame other

/-- When the parent part has been noted, the constructor's frame sees what its
parent sees, but for what it has declared itself. -/
theorem slot?_noteSuper (s : Store) {id frame parent : ScopeId} {name : String}
    (inStore : frame.index < s.scopes.size)
    (isFrame : (s.scope id).construction.frame = some frame)
    (isParent : (s.scope frame).parent = some parent)
    (notOwn : (s.scope frame).bindings.own[name]? = none) :
    (s.noteSuper id).slot? frame name = s.slot? parent name := by
  rw [noteSuper_eq, isFrame]
  generalize noted : s.modifyScope id Scope.noted = t
  have inherited : (t.inheritAnew frame).scope frame = (t.scope frame).inherit (t.scope parent) := by
    unfold inheritAnew
    rw [← noted, parent_noted, isParent]
    dsimp only
    rw [scope_modifyScope _ (s.scopes_size_modifyScope id _ ▸ inStore), if_pos rfl]
  rw [slot?, inherited]
  show ((t.scope frame).bindings.inherit (t.scope parent).bindings).get? name = _
  rw [← noted, bindings_noted, bindings_noted]
  show ((s.scope frame).bindings.own[name]? <|> (s.scope parent).bindings.visible[name]?) = _
  rw [notOwn, Table.getElem?_visible]
  rfl

end Store

namespace Change

-- ================================================================= writing

/-- The value that a change writes through a slot. -/
def written? (c : Change) (s : Store) (slot : SlotId) : Option Value :=
  match c with
  | .operation (.assign id name v) =>
    match s.target id name with
    | .shared through => if through = slot then some v else none
    | .own | .unknown => none
  | _ => none

/-- The value that was most recently written through a slot, or `v` if none
has been. -/
def latest (slot : SlotId) : List Change → Store → Value → Value
  | [], _, v => v
  | c :: changes, s, v => latest slot changes (c.apply s) ((c.written? s slot).getD v)

/-- A change puts into a slot what it writes through it. -/
theorem value_apply {c : Change} {s : Store} {slot : SlotId} (inRange : slot.index < s.slots.size) :
    (c.apply s).value slot = (c.written? s slot).getD (s.value slot) := by
  cases c with
  | operation op =>
    by_cases writes : ∃ name v, op.WritesThrough s name slot v
    · obtain ⟨name, v, writes⟩ := writes
      have value := Operation.value_perform_of_writesThrough inRange writes
      obtain ⟨id, rfl, notOwn, inherited⟩ := writes
      have target := Store.target_eq_shared_iff.2 ⟨notOwn, inherited⟩
      have written : (operation (.assign id name v)).written? s slot = some v := by
        simp only [written?, target, if_true]
      rw [written]
      exact value
    · have spared : ∀ name v, ¬ op.WritesThrough s name slot v :=
        fun name v wt => writes ⟨name, v, wt⟩
      have written : (operation op).written? s slot = none := by
        unfold written?
        split
        · next id name v eq =>
          cases eq
          split
          · next through target =>
            obtain ⟨notOwn, inherited⟩ := Store.target_eq_shared_iff.1 target
            rw [if_neg]
            intro same
            subst same
            exact spared name v ⟨id, rfl, notOwn, inherited⟩
          · rfl
          · rfl
        · rfl
      rw [written]
      exact Operation.value_perform_of_not inRange spared
  | host | declareClass | offer | dropCallables | noteFrame | merge => rfl
  | define id name params body =>
    simp only [apply]
    rcases s.define_cases id name params body with ⟨_, h⟩ | h <;> rw [h]
    · rfl
    · dsimp only
      split <;> rfl
  | noteSuper id =>
    simp only [apply]
    unfold Store.noteSuper Store.inheritAnew
    dsimp only
    split
    · rfl
    · split <;> rfl

/-- Slots are never given up. -/
theorem slots_size_le_apply (c : Change) (s : Store) : s.slots.size ≤ (c.apply s).slots.size := by
  obtain ⟨fresh, derives⟩ := derives_apply c s
  exact derives.size_le

/-- A slot holds the value that was most recently written through it. -/
theorem value_replay {changes : List Change} {s : Store} {slot : SlotId}
    (inRange : slot.index < s.slots.size) :
    (replay changes s).value slot = latest slot changes s (s.value slot) := by
  induction changes generalizing s with
  | nil => rfl
  | cons c changes ih =>
    have inRange' := Nat.lt_of_lt_of_le inRange (c.slots_size_le_apply s)
    show (replay changes (c.apply s)).value slot = latest slot changes (c.apply s) _
    rw [ih inRange', value_apply inRange]

-- ================================================================= lasting

/-- The change may bind a name of a scope anew: it declares, assigns or
removes it there, but for an assignment that is written through; it merges
something into the scope that has not declared the name; or it lets the scope
inherit anew, in which a constructor has called `super`. -/
def Rebinds (c : Change) (s : Store) (id : ScopeId) (name : String) : Prop :=
  match c with
  | .operation (.declare id' name' _) | .operation (.declareInherited id' name' _)
  | .operation (.remove id' name') => id' = id ∧ name' = name
  | .operation (.assign id' name' _) =>
    id' = id ∧ name' = name ∧ (s.scope id).bindings.own[name]? ≠ none
  | .merge target _ => target = id ∧ (s.scope id).bindings.own[name]? = none
  | .noteSuper object =>
    (s.scope object).construction.frame = some id ∧ (s.scope id).bindings.own[name]? = none
  | _ => False

/-- None of the changes binds a name of a scope anew. -/
def Keep (id : ScopeId) (name : String) : List Change → Store → Prop
  | [], _ => True
  | c :: changes, s => ¬ c.Rebinds s id name ∧ Keep id name changes (c.apply s)

variable {s : Store} {id : ScopeId} {name : String} {slot : SlotId}

/-- Operations leave the bindings of a name alone unless they bind it anew. -/
theorem half_operation (op : Operation) (seen : s.slot? id name = some slot)
    (kept : ¬ (operation op).Rebinds s id name) (half : Half) :
    (((op.perform s).2.scope id).bindings.half half)[name]? =
      ((s.scope id).bindings.half half)[name]? := by
  have inStore := Store.lt_of_slot? seen
  cases op with
  | root => rw [show ((Operation.root.perform s).2.scope id) = s.scope id from
      s.scope_addScope_of_lt _ inStore]
  | child parent => rw [show (((Operation.child parent).perform s).2.scope id) = s.scope id from
      s.scope_addScope_of_lt _ inStore]
  | declare id' name' v =>
    simp only [Operation.perform]
    rcases s.declare_cases id' name' v with ⟨_, h⟩ | h <;> rw [h]
    exact s.half_bindOwn_of_ne v half kept
  | declareInherited id' name' v =>
    simp only [Operation.perform]
    rcases s.declareInherited_cases id' name' v with ⟨_, h⟩ | h <;> rw [h]
    exact s.half_bindInherited_of_ne v half kept
  | assign id' name' v =>
    simp only [Operation.perform]
    by_cases here : id' = id ∧ name' = name
    · -- an inherited name, for an own one would be bound anew
      obtain ⟨rfl, rfl⟩ := here
      have notOwn : (s.scope id').bindings.own[name']? = none := by
        by_contra own
        exact kept ⟨rfl, rfl, own⟩
      rw [Store.slot?_of_not_own notOwn] at seen
      unfold Store.assign
      rw [Store.target_eq_shared_iff.2 ⟨notOwn, seen⟩]
      rfl
    · rcases s.assign_cases id' name' v with ⟨_, h⟩ | h | ⟨_, -, h⟩ <;> rw [h]
      · exact s.half_bindOwn_of_ne v half here
      · rfl
  | remove id' name' =>
    simp only [Operation.perform]
    exact s.half_remove_of_ne half kept
  | register id' name' signature returning function =>
    simp only [Operation.perform]
    rcases s.register_cases id' name' signature returning function with ⟨_, h⟩ | h <;> rw [h]
    cases returning <;> exact s.half_modifyScope_of_eq id' rfl id half
  | declareClass id' name' parent body =>
    simp only [Operation.perform]
    rcases s.introduceClass_cases id' name' parent body with ⟨_, h⟩ | ⟨c, rfl, h⟩ <;> rw [h]
    exact s.half_modifyScope_of_eq c.home rfl id half

/-- An own binding lasts until its name is bound anew. -/
theorem own_apply {c : Change} (bound : s.Binds id .own name slot)
    (kept : ¬ c.Rebinds s id name) : (c.apply s).Binds id .own name slot := by
  have own : (s.scope id).bindings.own[name]? = some slot := bound
  refine Eq.trans ?_ own
  cases c with
  | operation op => exact half_operation op (Store.slot?_of_own bound) kept .own
  | host state => rfl
  | define id' name' params body => exact s.half_define id' name' params body id .own
  | declareClass c => exact s.half_modifyScope_of_eq c.home rfl id .own
  | offer id' c => exact s.half_modifyScope_of_eq id' rfl id .own
  | dropCallables id' name' => exact s.half_modifyScope_of_eq id' rfl id .own
  | noteFrame id' frame => exact s.half_modifyScope_of_eq id' rfl id .own
  | noteSuper id' => exact congrArg (fun table => table[name]?) (s.own_noteSuper id' id)
  | merge target base =>
    rcases s.scope_modifyScope_or target (fun scope => scope.merge (s.scope base) base) id
      with same | ⟨rfl, merged⟩
    · exact congrArg (fun scope => (scope.bindings.half .own)[name]?) same
    · refine (congrArg (fun scope => (scope.bindings.half .own)[name]?) merged).trans ?_
      show ((s.scope id).bindings.merge (s.scope base).bindings).own[name]? = _
      rw [Table.getElem?_own_merge, own]
      rfl

/-- An inherited binding lasts until its name is bound anew. -/
theorem inherited_apply {c : Change} (notOwn : (s.scope id).bindings.own[name]? = none)
    (bound : s.Binds id .inherited name slot) (kept : ¬ c.Rebinds s id name) :
    ((c.apply s).scope id).bindings.own[name]? = none ∧
      (c.apply s).Binds id .inherited name slot := by
  have seen : s.slot? id name = some slot := (Store.slot?_of_not_own notOwn).trans bound
  suffices same : ∀ half, (((c.apply s).scope id).bindings.half half)[name]? =
      ((s.scope id).bindings.half half)[name]? from
    ⟨(same .own).trans notOwn, (same .inherited).trans bound⟩
  intro half
  cases c with
  | operation op => exact half_operation op seen kept half
  | host state => rfl
  | define id' name' params body => exact s.half_define id' name' params body id half
  | declareClass c => exact s.half_modifyScope_of_eq c.home rfl id half
  | offer id' c => exact s.half_modifyScope_of_eq id' rfl id half
  | dropCallables id' name' => exact s.half_modifyScope_of_eq id' rfl id half
  | noteFrame id' frame => exact s.half_modifyScope_of_eq id' rfl id half
  | noteSuper object =>
    have other : (s.scope object).construction.frame ≠ some id :=
      fun isFrame => kept ⟨isFrame, notOwn⟩
    exact congrArg (fun table => (table.half half)[name]?) (s.bindings_noteSuper_of_ne other)
  | merge target base =>
    have other : target ≠ id := fun here => kept ⟨here, notOwn⟩
    exact congrArg (fun scope => (scope.bindings.half half)[name]?)
      (s.scope_modifyScope_of_ne _ other)

/-- A slot is seen until its name is bound anew. -/
theorem slot?_apply {c : Change} (seen : s.slot? id name = some slot)
    (kept : ¬ c.Rebinds s id name) : (c.apply s).slot? id name = some slot := by
  cases own : (s.scope id).bindings.own[name]? with
  | some _ =>
    have same := (Store.slot?_of_own own).symm.trans seen
    rw [same] at own
    exact Store.slot?_of_own (own_apply own kept)
  | none =>
    obtain ⟨notOwn, bound⟩ := inherited_apply own ((Store.slot?_of_not_own own).symm.trans seen) kept
    exact (Store.slot?_of_not_own notOwn).trans bound

theorem slot?_replay {changes : List Change} (seen : s.slot? id name = some slot)
    (kept : Keep id name changes s) : (replay changes s).slot? id name = some slot := by
  induction changes generalizing s with
  | nil => exact seen
  | cons c changes ih => exact ih (slot?_apply seen kept.1) kept.2

end Change

-- ================================================================= sharing

/-- A new scope sees the slots of its parent. -/
theorem Store.slot?_addChild (s : Store) (parent : ScopeId) (name : String) :
    (s.addChild parent).2.slot? (s.addChild parent).1 name = s.slot? parent name := by
  rw [slot?, addChild, scope_addScope, if_pos rfl]
  exact Table.get?_snapshot _ name

namespace Below

/-- The scope of a call: a new one below the scope that the definition
belongs to, with the parameters. -/
def frame (home : ScopeId) (params : List String) (args : List Value) : Run ScopeId := do
  let frame ← Run.newChild home
  bindParams frame params args
  return frame

/-- The body of a definition is executed in the scope of the call. -/
theorem invokeWith_script (below : Below) (onFrame : ScopeId → Run Unit) {c : Callable}
    {params : List String} {body : Block} {home : ScopeId} (h : c.body = .script params body home)
    (args : List Value) (wanted : Bool) :
    below.invokeWith onFrame c args wanted = (do
      Run.requireLive home c.name
      let frame ← frame home params args
      onFrame frame
      outcome c.name wanted (← Run.deeper (below.enter frame body))) := by
  unfold invokeWith frame
  rw [h]
  simp only [bind_assoc, pure_bind]

/-- The frame of a call is a new scope, in which parameters are declared. -/
theorem bindParams_of_frame {home frame : ScopeId} {params : List String} {args : List Value}
    {context : Context} {s t : Store}
    (ran : Below.frame home params args context s = (.ok frame, t)) :
    frame = (s.addChild home).1 ∧
      bindParams frame params args context (s.addChild home).2 = (.ok (), t) := by
  have ran : (bindParams (s.addChild home).1 params args >>= fun _ =>
      pure (s.addChild home).1) context (s.addChild home).2 = (.ok frame, t) := ran
  rw [Run.bind_apply] at ran
  cases outcome : bindParams (s.addChild home).1 params args context (s.addChild home).2 with
  | mk r u =>
    rw [outcome] at ran
    cases r with
    | error halt => cases ran
    | ok =>
      cases ran
      exact ⟨rfl, outcome⟩

/-- Declaring parameters leaves other names alone. -/
theorem slot?_bindParams {id : ScopeId} {params : List String} {args : List Value}
    {context : Context} {s t : Store} {name : String} (other : name ∉ params)
    (ran : bindParams id params args context s = (.ok (), t)) :
    t.slot? id name = s.slot? id name := by
  induction params generalizing args s with
  | nil =>
    cases ran
    rfl
  | cons param params ih =>
    cases args with
    | nil =>
      cases ran
      rfl
    | cons arg args =>
      rw [List.mem_cons, not_or] at other
      unfold bindParams at ran
      rw [Run.bind_apply, Run.attempt] at ran
      rcases s.declare_cases id param arg with ⟨_, h⟩ | h
      · rw [h] at ran
        cases ran
      · rw [h] at ran
        have same : ∀ half, (((s.bindOwn id param arg).scope id).bindings.half half)[name]? =
            ((s.scope id).bindings.half half)[name]? :=
          fun half => s.half_bindOwn_of_ne arg half fun here => other.1 here.2.symm
        refine (ih other.2 ran).trans ?_
        unfold Store.slot? Table.get?
        exact congrArg₂ (· <|> ·) (same .own) (same .inherited)

/-- The scope of a call sees what the scope of its definition sees, apart from
parameters. -/
theorem slot?_frame {home id : ScopeId} {params : List String} {args : List Value}
    {context : Context} {s t : Store} {name : String} (other : name ∉ params)
    (ran : frame home params args context s = (.ok id, t)) :
    t.slot? id name = s.slot? home name := by
  obtain ⟨rfl, bound⟩ := bindParams_of_frame ran
  exact (slot?_bindParams other bound).trans (s.slot?_addChild home name)

end Below

/-- When a parent part has been merged, the object sees the slots of the
members that it has not declared itself. -/
theorem Store.slot?_merge {s : Store} {target base : ScopeId} {name : String} {slot : SlotId}
    (inStore : target.index < s.scopes.size)
    (notOwn : (s.scope target).bindings.own[name]? = none)
    (bound : s.Binds base .own name slot) : (s.merge target base).Binds target .own name slot := by
  have merged : (s.merge target base).scope target = (s.scope target).merge (s.scope base) base := by
    rw [merge, scope_modifyScope s inStore, if_pos rfl]
  rw [Binds, merged]
  show ((s.scope target).bindings.merge (s.scope base).bindings).own[name]? = some slot
  rw [Table.getElem?_own_merge, notOwn]
  exact bound

-- ================================================================= writing

/-- To assign an inherited name is to write through its slot. -/
theorem Store.assign_of_not_own {s : Store} {id : ScopeId} {name : String} {slot : SlotId}
    (v : Value) (notOwn : (s.scope id).bindings.own[name]? = none)
    (seen : s.slot? id name = some slot) : s.assign id name v = (.ok (), s.write slot v) := by
  rw [slot?_of_not_own notOwn] at seen
  unfold assign
  rw [target_eq_shared_iff.2 ⟨notOwn, seen⟩]

/-- To assign an own name is to bind it to a fresh slot. -/
theorem Store.assign_of_own {s : Store} {id : ScopeId} {name : String} {slot : SlotId}
    (v : Value) (bound : s.Binds id .own name slot) :
    s.assign id name v = (.ok (), s.bindOwn id name v) := by
  have own : (s.scope id).bindings.own[name]? = some slot := bound
  have target : s.target id name = .own := by
    unfold target
    simp only [Std.TreeMap.contains_eq_isSome_getElem?, own, Option.isSome_some, if_true]
  unfold assign
  rw [target]

theorem Store.binds_bindOwn {s : Store} {id : ScopeId} (name : String) (v : Value)
    (inStore : id.index < s.scopes.size) :
    (s.bindOwn id name v).Binds id .own name ⟨s.slots.size⟩ := by
  have bound : (s.bindOwn id name v).scope id =
      { s.scope id with bindings := (s.scope id).bindings.insertOwn name ⟨s.slots.size⟩ } :=
    (scope_modifyScope (s.addSlot v).2 inStore _ id).trans (if_pos rfl)
  rw [Binds, bound]
  simp [Table.half, Table.insertOwn]

/-- An assignment through an object is read by the object, and all other
scopes see what they have seen. -/
theorem Store.assign_through_object {s : Store} (tidy : s.Tidy) {o : ScopeId} {m : String}
    {slot : SlotId} (bound : s.Binds o .own m slot) (v : Value) :
    (s.assign o m v).1 = .ok () ∧ (s.assign o m v).2.lookup o m = .ok v ∧
      (∃ fresh, fresh ≠ slot ∧ (s.assign o m v).2.Binds o .own m fresh) ∧
      ∀ f, f ≠ o → (s.assign o m v).2.slot? f m = s.slot? f m ∧
        (s.assign o m v).2.lookup f m = s.lookup f m := by
  rw [assign_of_own v bound]
  have inRange := tidy.exists_slot bound
  have fresh := binds_bindOwn m v (lt_of_slot? (slot?_of_own bound))
  refine ⟨rfl, ?_, ⟨⟨s.slots.size⟩, ?_, fresh⟩, fun f other => ?_⟩
  · have value : (s.bindOwn o m v).value ⟨s.slots.size⟩ = v :=
      (s.value_addSlot v _).trans (if_pos rfl)
    rw [lookup_of_slot? (slot?_of_own fresh), value]
  · intro same
    subst same
    exact Nat.lt_irrefl _ inRange
  · have slots : (s.bindOwn o m v).slot? f m = s.slot? f m := by
      rcases s.scope_bindOwn_or o m v f with same | ⟨here, -⟩
      · rw [slot?, slot?, same]
      · exact absurd here other
    refine ⟨slots, ?_⟩
    cases seen : s.slot? f m with
    | none =>
      rw [seen] at slots
      rw [lookup_of_slot?_eq_none slots, lookup_of_slot?_eq_none seen]
    | some slot' =>
      rw [seen] at slots
      obtain ⟨half, bound⟩ := binds_of_get? seen
      rw [lookup_of_slot? slots, lookup_of_slot? seen,
        s.value_bindOwn_of_lt o m v (tidy.exists_slot bound)]

-- ================================================================ coherence

/-- Every store that comes about with a host is one that changes have led
to. -/
theorem Hosted.exists_replay {handed : Set ScopeId} {s : Store} (hosted : Hosted handed s) :
    ∃ past, s = Change.replay past .empty := by
  have active : ∀ {K L : Set ScopeId} {s t : Store} {changes : List Change},
      (∃ past, s = Change.replay past .empty) → s.Knows K → Activity K s changes L t →
      ∃ past, t = Change.replay past .empty := by
    rintro _ _ _ _ changes ⟨past, rfl⟩ _ activity
    refine ⟨past ++ changes, ?_⟩
    rw [Change.replay_append]
    exact activity.eq_replay
  obtain ⟨_, -, -, past, eq⟩ := hosted.induct_activity ⟨[], rfl⟩ active
  exact ⟨past, eq⟩

/-- A member `m` of an object `o`, at any moment of any run, and its slot.

Whoever sees this slot then or later, by the bare name or through the object,
reads the value most recently written through it, and it is seen until the
name is bound anew where it is seen. The scopes of calls and of blocks see it
when they are created below a scope that does; so does an object that has not
declared the name and into which this one is merged as its parent part, and
the constructor that has called `super` for it. A bare assignment in a scope
that has inherited the slot is read by all who see it. An assignment through
the object is read by the object and puts its member into another slot, while
all other scopes go on seeing the slots they have seen, with their values. -/
theorem member_coherence :
    (∀ {handed : Set ScopeId} {s : Store}, Hosted handed s →
      ∃ past, s = Change.replay past .empty) ∧
    ∀ (past : List Change) (o : ScopeId) (m : String) (slot : SlotId),
      let s := Change.replay past .empty
      s.Binds o .own m slot →
      s.slot? o m = some slot ∧
      (∀ (future : List Change) (f : ScopeId), (Change.replay future s).slot? f m = some slot →
        (Change.replay future s).lookup f m =
          .ok (Change.latest slot future s (s.value slot))) ∧
      (∀ (future : List Change) (f : ScopeId), s.slot? f m = some slot →
        Change.Keep f m future s → (Change.replay future s).slot? f m = some slot) ∧
      (∀ (home f : ScopeId) (params : List String) (args : List Value) (context : Context)
        (t : Store), s.slot? home m = some slot → m ∉ params →
        Below.frame home params args context s = (.ok f, t) → t.slot? f m = some slot) ∧
      (∀ (target : ScopeId), target.index < s.scopes.size →
        (s.scope target).bindings.own[m]? = none →
        let t := s.merge target o
        t.Binds target .own m slot ∧
        ∀ frame, (t.scope target).construction.frame = some frame →
          frame.index < t.scopes.size → (t.scope frame).parent = some target →
          (t.scope frame).bindings.own[m]? = none → (t.noteSuper target).slot? frame m = some slot) ∧
      (∀ (f : ScopeId) (v : Value), (s.scope f).bindings.own[m]? = none →
        s.slot? f m = some slot → (s.assign f m v).1 = .ok () ∧
        ∀ key, s.slot? key m = some slot → (s.assign f m v).2.lookup key m = .ok v) ∧
      ∀ (v : Value), (s.assign o m v).1 = .ok () ∧ (s.assign o m v).2.lookup o m = .ok v ∧
        (∃ fresh, fresh ≠ slot ∧ (s.assign o m v).2.Binds o .own m fresh) ∧
        ∀ f, f ≠ o → (s.assign o m v).2.slot? f m = s.slot? f m ∧
          (s.assign o m v).2.lookup f m = s.lookup f m := by
  refine ⟨Hosted.exists_replay, fun past o m slot => ?_⟩
  intro s bound
  have tidy : s.Tidy := Change.tidy_replay Store.tidy_empty
  have inRange := tidy.exists_slot bound
  have seen : s.slot? o m = some slot := Store.slot?_of_own bound
  refine ⟨seen, ?_, fun _ _ => Change.slot?_replay, ?_, ?_, ?_, ?_⟩
  · intro future f seen
    rw [Store.lookup_of_slot? seen, Change.value_replay inRange]
  · intro home f params args context t seen other ran
    exact (Below.slot?_frame other ran).trans seen
  · intro target inStore notOwn t
    have taken : t.Binds target .own m slot := Store.slot?_merge inStore notOwn bound
    refine ⟨taken, fun frame isFrame inStore isParent notOwn => ?_⟩
    exact (t.slot?_noteSuper inStore isFrame isParent notOwn).trans (Store.slot?_of_own taken)
  · intro f v notOwn seen
    rw [Store.assign_of_not_own v notOwn seen]
    refine ⟨rfl, fun key seen => ?_⟩
    have seen : (s.write slot v).slot? key m = some slot := seen
    rw [Store.lookup_of_slot? seen, Store.value_write s inRange, if_pos rfl]
  · exact fun v => Store.assign_through_object tidy bound v

/-- A call that goes on below an object sees what it assigns read through the
object. -/
theorem member_coherence_of_call :
    let s := Change.replay [.operation .root, .operation (.child ⟨0⟩),
      .operation (.declare ⟨1⟩ "m" (.boolean false))] .empty
    let future : List Change := [.operation (.child ⟨1⟩),
      .operation (.assign ⟨2⟩ "m" (.boolean true))]
    s.Binds ⟨1⟩ .own "m" ⟨0⟩ ∧ s.lookup ⟨1⟩ "m" = .ok (.boolean false) ∧
      (Change.replay future s).lookup ⟨1⟩ "m" = .ok (.boolean true) ∧
      (Change.replay future s).lookup ⟨2⟩ "m" = .ok (.boolean true) := by
  intro s future
  have bound : s.Binds ⟨1⟩ .own "m" ⟨0⟩ := rfl
  obtain ⟨-, read, -⟩ := member_coherence.2 _ ⟨1⟩ "m" ⟨0⟩ bound
  exact ⟨bound, read [] ⟨1⟩ rfl, read future ⟨1⟩ rfl, read future ⟨2⟩ rfl⟩

/-- What an object says to be the truth value of its member. -/
theorem Store.lookup_boolean {s : Store} {id : ScopeId} {name : String} {slot : SlotId} {b : Bool}
    (seen : s.slot? id name = some slot) (value : (s.value slot).equals (.boolean b) = true) :
    s.lookup id name = .ok (.boolean b) := by
  rw [lookup_of_slot? seen]
  cases h : s.value slot with
  | boolean a =>
    rw [h, Value.equals, beq_iff_eq] at value
    rw [value]
  | number | string | list | null | object =>
    rw [h] at value
    simp [Value.equals] at value

/-- A member that was taken over from a parent part and has then been assigned
through the object reads differently in an inherited method. -/
theorem inherited_method_keeps_slot :
    let program : Block :=
      [⟨1, .declareClass "A" none [⟨1, .assign (.name "m") (.bool false)⟩,
          ⟨1, .define "get" [] [⟨1, .return (some (.name "m"))⟩]⟩]⟩,
        ⟨2, .declareClass "B" (some (.name "A")) []⟩,
        ⟨3, .assign (.name "b") (.new "B" [])⟩,
        ⟨4, .assign (.member (.name "b") "m") (.bool true)⟩,
        ⟨5, .assign (.name "r") (.methodCall (.name "b") "get" [])⟩]
    let s := ((Request.execute ⟨0⟩ program).run 8 ⟨10, 0, [⟨0⟩]⟩ Store.empty.addRoot.2).2
    (∃ slot, s.slot? ⟨0⟩ "b" = some slot ∧ (s.value slot).objects = [⟨1⟩]) ∧
      (∃ slot, s.Binds ⟨1⟩ .own "m" slot) ∧ s.lookup ⟨1⟩ "m" = .ok (.boolean true) ∧
      s.lookup ⟨0⟩ "r" = .ok (.boolean false) := by
  intro program s
  have member : s.Binds ⟨1⟩ .own "m" ⟨2⟩ := by
    unfold Store.Binds
    decide +kernel
  have result : s.slot? ⟨0⟩ "r" = some ⟨3⟩ := by decide +kernel
  refine ⟨⟨⟨1⟩, by decide +kernel, by decide +kernel⟩, ⟨⟨2⟩, member⟩, ?_, ?_⟩
  · exact Store.lookup_boolean (Store.slot?_of_own member) (by decide +kernel)
  · exact Store.lookup_boolean result (by decide +kernel)

end RoutineScript
