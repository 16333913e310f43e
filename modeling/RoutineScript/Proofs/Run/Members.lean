/-
What it does to set a member of an object.

To set a member is to assign its name in the scope of the object. A name that
the object has declared, or that it does not see at all, becomes a member with
a slot of its own, and nobody else sees any difference. But an object has also
inherited the variables of its surroundings, as any scope has. A name that it
has only borrowed from there (`Borrows`) is no member of the object, and to
set it writes through the slot that they share: whoever sees this slot reads
the new value, and the object declares nothing.
-/
import RoutineScript.Proofs.Run.Aliasing
import RoutineScript.Proofs.Run.Coherence
import RoutineScript.Proofs.Run.Grounded
import RoutineScript.Proofs.Run.Locality
import RoutineScript.Proofs.Run.Returning

namespace RoutineScript

open Mentions (within)

-- =================================================================== stores

/-- The law that no slot is bound under two names. -/
def Law.tidy : Law fun _ => true where
  inv := Store.Tidy
  isNew _ := True
  change _ _ tidy := Change.tidy_apply tidy
  born _ := .intro
  join _ _ _ _ _ _ tidy := tidy.join _ _

theorem Store.Arises.tidy {s : Store} (arises : s.Arises) : s.Tidy :=
  arises.keeps Law.tidy tidy_empty (fun _ => trivial) fun op _ tidy =>
    Change.tidy_apply (c := .operation op) tidy

/-- A store that comes about, and whose objects are all there. Those that a
host leaves behind are of this kind, and so is what runs make of them. -/
structure Store.Regular (s : Store) : Prop where
  arises : s.Arises
  knows : s.KnowsOwn

theorem Hosted.regular {handed : Set ScopeId} {s : Store} (hosted : Hosted handed s) : s.Regular :=
  ⟨.hosted hosted, hosted.knowsOwn⟩

/-- A program that starts in a root scope of its own leaves a regular store. -/
theorem Store.regular_of_program (levels : Nat) (program : Block) (context : Context) :
    ((Request.execute ⟨0⟩ program).run levels context Store.empty.addRoot.2).2.Regular :=
  Hosted.regular (.ask levels context (.operate (o := .root) .start trivial) trivial)

/-- A run that keeps to the laws and makes up no objects goes from regular
stores to regular ones, and the objects it ends with are there. -/
theorem Store.Regular.run {α : Type} [Mentions α] {s : Store} (regular : s.Regular) {n : Nat}
    {run : Run α} (safe : Run.Safe Law.arises (Pace.same _) n n run run)
    (acts : Run.Acts {o | o.index < s.scopes.size} run) (context : Context) :
    (run context s).2.Regular ∧ s.scopes.size ≤ (run context s).2.scopes.size ∧
      ∀ a, (run context s).1 = .ok a → within {o | o.index < (run context s).2.scopes.size} a := by
  have written : s.Written fun _ => true := s.written_of_forall fun _ => rfl
  obtain ⟨changes, L, activity, known⟩ := acts context s regular.knows
  have inStore : L ⊆ {o | o.index < (run context s).2.scopes.size} := fun o mem =>
    (activity.known_or_new mem).elim (fun old => Nat.lt_of_lt_of_le old activity.size_le) And.right
  exact ⟨⟨(safe context context s ⟨rfl, rfl⟩ written regular.arises).inv,
    regular.knows.active activity⟩, activity.size_le, fun a eq => Mentions.mono inStore (known a eq)⟩

-- ================================================================== setting

namespace Store

variable {s t : Store} {o : ScopeId} {m : String} {v : Value}

/-- A scope sees a name that it has inherited and not declared itself. -/
def Borrows (s : Store) (id : ScopeId) (name : String) : Prop :=
  (s.scope id).bindings.own[name]? = none ∧ (s.scope id).bindings.inherited[name]? ≠ none

instance (s : Store) (id : ScopeId) (name : String) : Decidable (s.Borrows id name) :=
  inferInstanceAs (Decidable (_ ∧ _ ≠ none))

/-- An object has a member of its own with this value, and apart from that
nothing is different. -/
structure Sets (s : Store) (o : ScopeId) (m : String) (v : Value) (t : Store) : Prop where
  declared : t.lookupOwn o m = .ok v
  read : t.lookup o m = .ok v
  elsewhere : ∀ key, key ≠ o → t.scope key = s.scope key
  same : ∀ key name, (key, name) ≠ (o, m) → t.get? key name = s.get? key name

/-- What sees a slot reads this value, and apart from that nothing is
different. -/
structure WritesTo (s : Store) (slot : SlotId) (v : Value) (t : Store) : Prop where
  scopes : ∀ key, t.scope key = s.scope key
  read : ∀ key name, t.get? key name = if s.slot? key name = some slot then some v
    else s.get? key name

/-- A name that is not borrowed is bound to a fresh slot, if it may be. -/
theorem assign_of_not_borrows (unborrowed : ¬ s.Borrows o m)
    (done : (s.assign o m v).1 = .ok ()) : s.assign o m v = (.ok (), s.bindOwn o m v) := by
  rcases s.assign_cases o m v with ⟨fault, refused⟩ | bound | ⟨slot, shared, -⟩
  · rw [refused] at done
    cases done
  · exact bound
  · obtain ⟨notOwn, inherited⟩ := target_eq_shared_iff.1 shared
    refine absurd ⟨notOwn, ?_⟩ unborrowed
    rw [inherited]
    exact Option.some_ne_none slot

theorem lookupOwn_of_binds {slot : SlotId} (bound : s.Binds o .own m slot) :
    s.lookupOwn o m = .ok (s.value slot) := by
  have own : (s.scope o).bindings.own[m]? = some slot := bound
  rw [lookupOwn, own]

theorem sets_bindOwn (tidy : s.Tidy) (inStore : o.index < s.scopes.size) (m : String) (v : Value) :
    s.Sets o m v (s.bindOwn o m v) := by
  have bound := binds_bindOwn m v inStore
  have value : (s.bindOwn o m v).value ⟨s.slots.size⟩ = v :=
    (s.value_addSlot v _).trans (if_pos rfl)
  have elsewhere : ∀ key, key ≠ o → (s.bindOwn o m v).scope key = s.scope key := fun key other =>
    (s.scope_bindOwn_or o m v key).resolve_right fun here => other here.1
  refine ⟨?_, ?_, elsewhere, fun key name other => ?_⟩
  · rw [lookupOwn_of_binds bound, value]
  · rw [lookup_of_slot? (slot?_of_own bound), value]
  · have slots : (s.bindOwn o m v).slot? key name = s.slot? key name := by
      have half : ∀ half, (((s.bindOwn o m v).scope key).bindings.half half)[name]? =
          ((s.scope key).bindings.half half)[name]? := fun half =>
        s.half_bindOwn_of_ne v half fun ⟨isKey, isName⟩ => other (by rw [isKey, isName])
      have own := half .own
      have inherited := half .inherited
      simp only [Table.half] at own inherited
      rw [slot?, slot?, Table.get?, Table.get?, own, inherited]
    unfold slot? at slots
    rw [get?, get?, slots]
    cases seen : (s.scope key).bindings.get? name with
    | none => rfl
    | some slot =>
      obtain ⟨half, bound⟩ := binds_of_get? seen
      rw [Option.map_some, Option.map_some, s.value_bindOwn_of_lt o m v (tidy.exists_slot bound)]

theorem writesTo_write {slot : SlotId} (inRange : slot.index < s.slots.size) (v : Value) :
    s.WritesTo slot v (s.write slot v) := by
  refine ⟨fun key => s.scope_write slot v key, fun key name => ?_⟩
  rw [get?, get?, scope_write, slot?]
  cases (s.scope key).bindings.get? name with
  | none => rfl
  | some seen =>
    rw [Option.map_some, Option.map_some, value_write s inRange]
    by_cases same : slot = seen
    · rw [if_pos same, if_pos (congrArg some same.symm)]
    · rw [if_neg same, if_neg fun eq => same (Option.some.inj eq).symm]

/-- A name that is not borrowed becomes a member, if it may be one. -/
theorem sets_assign (tidy : s.Tidy) (inStore : o.index < s.scopes.size)
    (done : (s.assign o m v).1 = .ok ()) (unborrowed : ¬ s.Borrows o m) :
    s.Sets o m v (s.assign o m v).2 := by
  rw [assign_of_not_borrows unborrowed done]
  exact sets_bindOwn tidy inStore m v

/-- A borrowed name stays borrowed, and its slot is written. -/
theorem writesTo_assign (tidy : s.Tidy) (borrows : s.Borrows o m) (v : Value) :
    ∃ slot, s.slot? o m = some slot ∧ s.WritesTo slot v (s.assign o m v).2 := by
  obtain ⟨notOwn, inherited⟩ := borrows
  obtain ⟨slot, isSlot⟩ := Option.ne_none_iff_exists'.1 inherited
  have seen : s.slot? o m = some slot := (slot?_of_not_own notOwn).trans isSlot
  have bound : s.Binds o .inherited m slot := isSlot
  rw [assign_of_not_own v notOwn seen]
  exact ⟨slot, seen, writesTo_write (tidy.exists_slot bound) v⟩

/-- In any case the object reads the value. -/
theorem lookup_assign (tidy : s.Tidy) (inStore : o.index < s.scopes.size)
    (done : (s.assign o m v).1 = .ok ()) : (s.assign o m v).2.lookup o m = .ok v := by
  by_cases borrows : s.Borrows o m
  · obtain ⟨slot, seen, writes⟩ := writesTo_assign tidy borrows v
    rw [lookup, writes.read, if_pos seen]
  · exact (sets_assign tidy inStore done borrows).read

end Store

-- ================================================================ statements

namespace Below

open Run

variable {below : Below} {scope : ScopeId} {context : Context} {s t : Store} {e value : Expr}
  {m : String} {v : Value}

/-- An assignment to a member finds the object first, and keeps the value
alive meanwhile. -/
theorem assignPlace_member_eq_ok_iff :
    below.assignPlace scope v (.member e m) context s = (.ok (), t) ↔
      ∃ o u, holdingValues [v] (below.evaluateObject scope e) context s = (.ok o, u) ∧
        u.assign o.scope m v = (.ok (), t) := by
  simp only [assignPlace, bind_eq_ok_iff, attempt_eq_ok_iff]

/-- A statement that sets a member evaluates the value before the object. -/
theorem execute_assign_member_eq_ok_iff {patience : Nat} {flow : Flow} :
    below.execute patience scope (.assign (.member e m) value) context s = (.ok flow, t) ↔
      flow = .finished ∧ ∃ v u o w, below.evaluate scope value context s = (.ok v, u) ∧
        holdingValues [v] (below.evaluateObject scope e) context u = (.ok o, w) ∧
        w.assign o.scope m v = (.ok (), t) := by
  rw [execute, bind_eq_ok_iff]
  constructor
  · rintro ⟨v, u, evaluated, rest⟩
    obtain ⟨⟨⟩, _, assigned, ended⟩ := bind_eq_ok_iff.1 rest
    cases ended
    obtain ⟨o, w, found, set⟩ := assignPlace_member_eq_ok_iff.1 assigned
    exact ⟨rfl, v, u, o, w, evaluated, found, set⟩
  · rintro ⟨rfl, v, u, o, w, evaluated, found, set⟩
    refine ⟨v, u, evaluated, bind_eq_ok_iff.2 ⟨(), t, ?_, rfl⟩⟩
    exact assignPlace_member_eq_ok_iff.2 ⟨o, w, found, set⟩

end Below

-- ================================================================ the result

/-- The object that an expression finds is there, in a store that is regular
again. -/
theorem Store.Regular.evaluateObject {s u : Store} (regular : s.Regular) {levels : Nat}
    {scope : ScopeId} {e : Expr} {context : Context} {o : Object}
    (found : (Below.upTo levels).evaluateObject scope e context s = (.ok o, u)) :
    u.Regular ∧ o.scope.index < u.scopes.size := by
  have lawful := Below.lawful_upTo Law.arises (Pace.same _) levels levels
  obtain ⟨later, -, inStore⟩ := regular.run (Below.safe_evaluateObject lawful scope e)
    (Below.acts_evaluateObject (Below.acts_upTo levels) scope e) context
  rw [found] at later inStore
  exact ⟨later, inStore o rfl⟩

theorem Store.Regular.evaluate {s u : Store} (regular : s.Regular) {levels : Nat} {scope : ScopeId}
    {e : Expr} {context : Context} {v : Value}
    (evaluated : (Below.upTo levels).evaluate scope e context s = (.ok v, u)) : u.Regular := by
  have lawful := Below.lawful_upTo Law.arises (Pace.same _) levels levels
  obtain ⟨later, -, -⟩ := regular.run (Below.safe_evaluate lawful scope e)
    (Below.acts_evaluate (Below.acts_upTo levels) scope e _) context
  rwa [evaluated] at later

/-- **Setting a member touches the object only**, as long as the object has not
just borrowed the name from its surroundings. Then it has declared the member
afterwards, with this value; all other scopes are the same, and no other
variable, whatever scope it is seen from, has another value. If the name is
borrowed, the object declares nothing, and the value is read by all who see
the slot that they share with it. The statement that sets a member does the
same to the object that its expression evaluates to. -/
theorem Store.Regular.set_member {s : Store} (regular : s.Regular) :
    (∀ {o : ScopeId} {m : String} {v : Value}, o.index < s.scopes.size →
      (s.assign o m v).1 = .ok () →
      (¬ s.Borrows o m → s.Sets o m v (s.assign o m v).2) ∧
      (s.Borrows o m → ∃ slot, s.slot? o m = some slot ∧
        s.WritesTo slot v (s.assign o m v).2)) ∧
    ∀ {levels patience : Nat} {scope : ScopeId} {e value : Expr} {m : String}
      {context : Context} {flow : Flow} {t : Store},
      (Below.upTo levels).execute patience scope (.assign (.member e m) value) context s =
        (.ok flow, t) →
      ∃ v u o w, (Below.upTo levels).evaluate scope value context s = (.ok v, u) ∧
        Run.holdingValues [v] ((Below.upTo levels).evaluateObject scope e) context u = (.ok o, w) ∧
        w.Regular ∧ w.assign o.scope m v = (.ok (), t) ∧
        (¬ w.Borrows o.scope m → w.Sets o.scope m v t) := by
  have tidy := regular.arises.tidy
  refine ⟨fun {o m v} inStore done => ⟨sets_assign tidy inStore done, fun borrows => ?_⟩, ?_⟩
  · exact writesTo_assign tidy borrows v
  · intro levels patience scope e value m context flow t executed
    obtain ⟨-, v, u, o, w, evaluated, found, assigned⟩ :=
      Below.execute_assign_member_eq_ok_iff.1 executed
    obtain ⟨later, inStore⟩ := (regular.evaluate evaluated).evaluateObject found
    refine ⟨v, u, o, w, evaluated, found, later, assigned, fun unborrowed => ?_⟩
    have set := sets_assign later.arises.tidy inStore (congrArg Prod.fst assigned) unborrowed
    rwa [assigned] at set

/-- An object whose class has declared the member, and a program that has a
variable of the same name. -/
theorem Store.Regular.set_member_of_declared :
    let program : Block :=
      [⟨1, .declareClass "A" none [⟨1, .assign (.name "m") (.bool false)⟩]⟩,
        ⟨2, .assign (.name "o") (.new "A" [])⟩, ⟨3, .assign (.name "m") (.bool false)⟩]
    let s := ((Request.execute ⟨0⟩ program).run 6 ⟨10, 0, [⟨0⟩]⟩ Store.empty.addRoot.2).2
    let t := (s.assign ⟨1⟩ "m" (.boolean true)).2
    s.Regular ∧ (1 : Nat) < s.scopes.size ∧ ¬ s.Borrows ⟨1⟩ "m" ∧
      t.lookupOwn ⟨1⟩ "m" = .ok (.boolean true) ∧ t.get? ⟨0⟩ "m" = s.get? ⟨0⟩ "m" := by
  intro program s t
  have regular : s.Regular := Store.regular_of_program 6 program ⟨10, 0, [⟨0⟩]⟩
  have inStore : (1 : Nat) < s.scopes.size := by decide +kernel
  have unborrowed : ¬ s.Borrows ⟨1⟩ "m" := by decide +kernel
  have own : (s.scope ⟨1⟩).bindings.own.contains "m" = true := by decide +kernel
  have done : (s.assign ⟨1⟩ "m" (.boolean true)).1 = .ok () := by
    rw [assign, target, own]
    rfl
  have set := (regular.set_member.1 inStore done).1 unborrowed
  exact ⟨regular, inStore, unborrowed, set.declared, set.same ⟨0⟩ "m" (by decide)⟩

/-- A member that is set without being declared by the object goes to the
program's variable of that name. -/
theorem set_member_leaks :
    let program : Block :=
      [⟨1, .assign (.name "m") (.bool false)⟩, ⟨2, .declareClass "A" none []⟩,
        ⟨3, .assign (.name "o") (.new "A" [])⟩]
    let s := ((Request.execute ⟨0⟩ program).run 6 ⟨10, 0, [⟨0⟩]⟩ Store.empty.addRoot.2).2
    let set := (Below.upTo 6).execute 6 ⟨0⟩ (.assign (.member (.name "o") "m") (.bool true))
      ⟨10, 0, [⟨0⟩]⟩ s
    s.lookup ⟨0⟩ "m" = .ok (.boolean false) ∧ set.1.toOption.isSome = true ∧
      set.2.lookup ⟨0⟩ "m" = .ok (.boolean true) ∧
      (set.2.scope ⟨1⟩).bindings.own["m"]? = none := by
  intro program s set
  have before : s.slot? ⟨0⟩ "m" = some ⟨0⟩ := by decide +kernel
  have after : set.2.slot? ⟨0⟩ "m" = some ⟨0⟩ := by decide +kernel
  refine ⟨?_, by decide +kernel, ?_, by decide +kernel⟩
  · exact Store.lookup_boolean before (by decide +kernel)
  · exact Store.lookup_boolean after (by decide +kernel)

end RoutineScript
