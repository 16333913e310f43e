/-
What a constructor sees after a call of `super`.

A constructor runs in its frame, which lies below the object, and blocks in
it run in scopes below the frame. When a call of `super` completes, wherever
it stands, the parent part joins the object, and the frame inherits anew. From
then on every statement that the constructor executes in its frame, or in a
block that it enters from there, finds the members of the parent part in the
object, and can call its methods.

# What has to be known before

Up to the call anything may have happened. That the frame lies below the
object, and that the object knows its frame, is a law (`Law.running`). That
nobody holds the object or the frame is shown by activities: a run gets hold
of an object only if it knew it before or has made it (`Store.Hides`).

# What is left open

Only the frame inherits anew. The scope of a block in which `super` is called,
directly or further inside, has inherited when it was made, and stays as it
was. To the end of that block, the constructor does not see what has joined.
-/
import RoutineScript.Proofs.Run.Following

namespace RoutineScript

open Mentions (within)

-- ================================================================== hidden

namespace Store

/-- These scopes are in the store, and nobody holds them as objects. -/
structure Hides (s : Store) (ids : List ScopeId) : Prop where
  inStore : ∀ x ∈ ids, x.index < s.scopes.size
  knows : s.Knows (s.others ids)

variable {s : Store} {ids : List ScopeId}

/-- A run that knows nothing of them gets no hold of them. -/
theorem Hides.run {α : Type} [Mentions α] {run : Run α} (hides : s.Hides ids)
    (acts : Run.Acts (s.others ids) run) (context : Context) :
    (run context s).2.Hides ids ∧ s.Older (run context s).2 ∧
      ∀ a, (run context s).1 = .ok a → within ((run context s).2.others ids) a := by
  obtain ⟨changes, L, activity, result⟩ := acts context s hides.knows
  have older : s.Older (run context s).2 := activity.older
  have sub : L ⊆ (run context s).2.others ids := by
    intro y mem
    rcases activity.known_or_new mem with before | new
    · exact ⟨Nat.lt_of_lt_of_le before.1 older.size_le, before.2⟩
    · exact ⟨new.2, fun hidden => absurd (hides.inStore y hidden) (Nat.not_lt.2 new.1)⟩
  exact ⟨⟨fun x mem => Nat.lt_of_lt_of_le (hides.inStore x mem) older.size_le,
    (activity.knows hides.knows).mono sub⟩, older, fun a eq => Mentions.mono sub (result a eq)⟩

/-- A scope that has just been made is not held by anybody. -/
theorem Hides.addChild (hides : s.Hides ids) (parent : ScopeId) {ids' : List ScopeId}
    (known : ∀ y ∈ ids', y = (s.addChild parent).1 ∨ y ∈ ids) :
    (s.addChild parent).2.Hides ids' where
  inStore y mem := by
    have older := older_apply (.operation (.child parent)) s
    rcases known y mem with rfl | there
    · show s.scopes.size < (s.scopes.push _).size
      rw [Array.size_push]
      exact Nat.lt_succ_self _
    · exact Nat.lt_of_lt_of_le (hides.inStore y there) older.size_le
  knows := (hides.knows.addChild parent).mono (others_subset_addChild known)

theorem Hides.apply (hides : s.Hides ids) {c : Change} (uses : c.Uses (s.others ids)) :
    (c.apply s).Hides ids := by
  have older := older_apply c s
  refine ⟨fun x mem => Nat.lt_of_lt_of_le (hides.inStore x mem) older.size_le, ?_⟩
  exact (Change.knows_apply hides.knows uses).mono fun y other =>
    ⟨Nat.lt_of_lt_of_le other.1 older.size_le, other.2⟩

theorem Knows.prepare {K : Set ScopeId} (known : s.Knows K) (c : Class) :
    (c.prepare s).Knows K := by
  have born := known.addChild c.home
  unfold Class.prepare
  cases c.parent with
  | none => exact born
  | some parent =>
    dsimp only
    generalize (s.addChild c.home).2 = t at born
    induction parent.superArities generalizing t with
    | nil => exact born
    | cons arity arities ih => exact ih _ (born.addProcedure _ (within_ofSuper arity parent _))

/-- Nobody holds an object that has just been prepared. -/
theorem KnowsOwn.hides_prepare (known : s.KnowsOwn) (c : Class) :
    (c.prepare s).Hides [⟨s.scopes.size⟩] := by
  have grown := c.size_lt_prepare s
  refine ⟨fun x mem => ?_, (known.prepare c).mono fun y inStore => ⟨?_, fun mem => ?_⟩⟩
  · rw [List.mem_singleton.1 mem]
    exact grown
  · exact Nat.lt_trans inStore grown
  · rw [List.mem_singleton.1 mem] at inStore
    exact Nat.lt_irrefl _ inStore

end Store

-- ================================================================= running

/-- An object has noted the frame of its constructor, which lies below it. -/
structure Store.Frames (s : Store) (o frame : ScopeId) : Prop where
  other : frame ≠ o
  isParent : (s.scope frame).parent = some o
  isFrame : (s.scope o).construction.frame = some frame

/-- The frame of a constructor stays noted. -/
theorem Store.Frames.apply {c : Change} {s : Store} {o frame : ScopeId} (frames : s.Frames o frame)
    (noted : ∀ place, c ≠ .noteFrame o place) : (c.apply s).Frames o frame where
  other := frames.other
  isParent := Change.parent_apply frames.isParent
  isFrame := by
    have isFrame := frames.isFrame
    by_cases notes : ∃ id, c = .noteSuper id
    · obtain ⟨id, rfl⟩ := notes
      exact (s.frame_noteSuper id o).trans isFrame
    · have inStore := lt_of_frame isFrame
      have made := c.makes s o
      generalize (c.apply s).scope o = scope at made
      cases made with
      | root absent | child absent => exact absurd inStore (Nat.not_lt.2 absent)
      | frame => exact absurd rfl (noted _)
      | noted | inherit => exact absurd ⟨_, rfl⟩ notes
      | _ => exact isFrame

/-- A store that comes about while a constructor is running in its frame. -/
structure Store.Runs (s : Store) (o frame : ScopeId) : Prop where
  arises : s.Arises
  frames : s.Frames o frame

/-- The law of a constructor that is running. -/
def Law.running (o frame : ScopeId) : Law fun _ => true where
  inv s := s.Runs o frame
  isNew id := id ≠ o
  change made _ runs := by
    refine ⟨.change (made.mono fun _ _ => .intro) runs.arises, runs.frames.apply fun place => ?_⟩
    rintro rfl
    cases made with
    | noteFrame new => exact new rfl
  born runs := by
    rintro rfl
    exact Nat.lt_irrefl _ (Store.lt_of_frame runs.frames.isFrame)
  join {_ _ u _ _ _ target base} before mem body _ during constructs after := by
    have merged : (u.merge target base.scope).Frames o frame :=
      after.frames.apply (c := .merge target base.scope) nofun
    exact ⟨.join before.arises mem body during.arises constructs after.arises,
      merged.apply (c := .noteSuper target) nofun⟩

namespace Store

variable {s t u : Store} {o frame : ScopeId}

/-- When a parent part is noted, the frame inherits what the object has then. -/
theorem Frames.scope_noteSuper (frames : s.Frames o frame) :
    (s.noteSuper o).scope frame = (s.scope frame).inherit ((s.noteSuper o).scope o) := by
  have atObject : (s.modifyScope o Scope.noted).scope o = (s.scope o).noted := by
    rw [s.scope_modifyScope (lt_of_frame frames.isFrame), if_pos rfl]
  have atFrame : (s.modifyScope o Scope.noted).scope frame = s.scope frame :=
    s.scope_modifyScope_of_ne Scope.noted (Ne.symm frames.other)
  have inherits : s.noteSuper o = (s.modifyScope o Scope.noted).modifyScope frame
      fun scope => scope.inherit (s.scope o).noted := by
    rw [noteSuper_eq, frames.isFrame]
    dsimp only
    rw [inheritAnew, parent_noted, frames.isParent]
    dsimp only
    rw [atObject]
  have inStore : frame.index < (s.modifyScope o Scope.noted).scopes.size := by
    rw [scopes_size_modifyScope]
    exact lt_of_parent frames.isParent
  rw [inherits, scope_modifyScope _ inStore, if_pos rfl, atFrame,
    scope_modifyScope_of_ne _ _ frames.other, atObject]

/-- So the frame follows the object then. -/
theorem Frames.follows_noteSuper (frames : s.Frames o frame) (lost : Set String) :
    (s.noteSuper o).Follows o ((s.noteSuper o).scope o) lost [frame] := by
  have inherits := frames.scope_noteSuper
  have inStore : o.index < (s.noteSuper o).scopes.size :=
    Nat.lt_of_lt_of_le (lt_of_frame frames.isFrame) (Change.size_le_apply (.noteSuper o) s)
  refine .scope (Change.parent_apply (c := .noteSuper o) frames.isParent) (fun mem => ?_)
    ⟨fun {name slot} bound _ _ => ?_, ?_, ?_⟩
    (.object ⟨inStore, id, List.Subset.refl _, List.Subset.refl _⟩)
  · exact frames.other (List.mem_singleton.1 mem)
  · rw [inherits]
    refine (Table.getElem?_visible _ name).trans ?_
    rw [Table.get?, bound]
    rfl
  · rw [inherits]
    exact List.subset_append_left _ _
  · rw [inherits]
    exact List.subset_append_left _ _

end Store

-- =================================================================== moments

/-- The moments of a constructor that has been defined by the body of its
class, from the beginning on: to what store it has come. -/
inductive Store.Constructing (o frame : ScopeId) : Store → Prop where
  /-- An object of a class is prepared and the body of the class is executed;
  then the frame of a constructor is made, with its parameters, and noted. -/
  | begins {s u t : Store} {c : Class} {levels : Nat} {context context' : Context} {flow : Flow}
      {d : Callable} {params : List String} {body : Block} {args : List Value} :
      s.Regular → within {id | id.index < s.scopes.size} args → o = ⟨s.scopes.size⟩ →
      (Below.upTo levels).executeBlock levels o c.body context (c.prepare s) = (.ok flow, u) →
      d ∈ (u.scope o).procedures.own → d.name = constructorName → d.body = .script params body o →
      Below.frame o params args context' u = (.ok frame, t) →
      Constructing o frame (t.noteFrame o frame)
  /-- A statement is executed, however that ends. -/
  | executes {s : Store} (scope : ScopeId) (statement : Stmt) (levels : Nat) (context : Context) :
      Constructing o frame s →
      Constructing o frame ((Below.upTo levels).execute levels scope statement context s).2
  /-- An expression is evaluated within a statement. -/
  | evaluates {s : Store} (scope : ScopeId) (e : Expr) (levels : Nat) (context : Context) :
      Constructing o frame s →
      Constructing o frame ((Below.upTo levels).evaluate scope e context s).2
  /-- A block is entered. -/
  | enters {s : Store} (scope : ScopeId) : Constructing o frame s →
      Constructing o frame (s.addChild scope).2
  /-- A round is counted in the scope of a block. -/
  | counts {s : Store} (scope : ScopeId) (name : String) (number : Float) :
      Constructing o frame s → Constructing o frame (s.declare scope name (.number number)).2

namespace Store

variable {s t u : Store} {o frame : ScopeId}

/-- A run goes on with a constructor running, and nobody gets hold of its
object or its frame. -/
theorem Runs.run {α : Type} [Mentions α] {n : Nat} {run : Run α} (runs : s.Runs o frame)
    (hides : s.Hides [o, frame]) (safe : Run.Safe (Law.running o frame) (Pace.same _) n n run run)
    (acts : Run.Acts (s.others [o, frame]) run) (context : Context) :
    (run context s).2.Runs o frame ∧ (run context s).2.Hides [o, frame] ∧
      ∀ a, (run context s).1 = .ok a → within ((run context s).2.others [o, frame]) a :=
  have kept := (safe context context s ⟨rfl, rfl⟩ (s.written_of_forall fun _ => rfl) runs).inv
  have hidden := hides.run acts context
  ⟨kept, hidden.1, hidden.2.2⟩

/-- When the body of its class has been executed, nobody holds the object. -/
theorem Regular.hides_executeBlock {c : Class} {levels : Nat} {context : Context} {flow : Flow}
    (regular : s.Regular)
    (executed : (Below.upTo levels).executeBlock levels ⟨s.scopes.size⟩ c.body context
      (c.prepare s) = (.ok flow, u)) :
    u.Arises ∧ u.Hides [⟨s.scopes.size⟩] := by
  have lawful := Below.lawful_upTo Law.arises (Pace.same _) levels levels
  have all := Stmt.blockEverywhere_of_forall (p := fun _ => true) (fun _ => rfl) c.body
  have arises := (Below.safe_executeBlock lawful ⟨s.scopes.size⟩ c.body all).keeps executed
    (Store.written_of_forall (fun _ => rfl) _) (Class.prepare_arises regular.arises)
  obtain ⟨hides, -, -⟩ := (regular.knows.hides_prepare c).run
    (Below.acts_executeBlock (Below.acts_upTo levels) levels ⟨s.scopes.size⟩ c.body _) context
  rw [executed] at hides
  exact ⟨arises.2, hides⟩

/-- When the frame of its constructor has been made and noted, the constructor
is running, and nobody holds the frame either. -/
theorem Hides.runs_frame {context : Context} {params : List String} {args : List Value}
    (hides : u.Hides [o]) (arises : u.Arises) (known : within (u.others [o]) args)
    (framed : Below.frame o params args context u = (.ok frame, t)) :
    (t.noteFrame o frame).Runs o frame ∧ (t.noteFrame o frame).Hides [o, frame] := by
  obtain ⟨rfl, bound⟩ := Below.bindParams_of_frame framed
  have there := hides.inStore o List.mem_cons_self
  have born : ∀ y ∈ [o, (u.addChild o).1], y = (u.addChild o).1 ∨ y ∈ [o] := by
    intro y mem
    rcases List.mem_cons.1 mem with rfl | mem
    · exact .inr List.mem_cons_self
    · exact .inl (List.mem_singleton.1 mem)
  have safe : Run.Safe Law.arises (Pace.same _) 0 0
      (Below.bindParams (u.addChild o).1 params args) _ := Below.safe_bindParams
  have arises := (safe.keeps bound (Store.written_of_forall (fun _ => rfl) _)
    (.change (.child o) arises)).2
  have begun := hides.addChild o born
  obtain ⟨hides, older, -⟩ := begun.run
    (Below.acts_bindParams (Mentions.mono (others_subset_addChild born) known)) context
  rw [bound] at hides older
  have isParent : (t.scope (u.addChild o).1).parent = some o := by
    have inStore := begun.inStore _ (List.mem_cons_of_mem _ List.mem_cons_self)
    exact (older.parent _ inStore).trans (congrArg Scope.parent (u.scope_addChild_self o))
  have other : (u.addChild o).1 ≠ o := fun same => Nat.lt_irrefl _ (same ▸ there)
  refine ⟨⟨.change (.noteFrame .intro _) arises, other,
    Change.parent_apply (c := .noteFrame o (u.addChild o).1) isParent, ?_⟩,
    hides.apply (c := .noteFrame o (u.addChild o).1) trivial⟩
  rw [noteFrame, t.scope_modifyScope (hides.inStore o List.mem_cons_self), if_pos rfl]

/-- At every moment the constructor is running, and nobody holds its object or
its frame. -/
theorem Constructing.runs (constructing : s.Constructing o frame) :
    s.Runs o frame ∧ s.Hides [o, frame] := by
  induction constructing with
  | begins regular known here executed _ _ _ framed =>
    subst here
    obtain ⟨arises, hides⟩ := regular.hides_executeBlock executed
    have there := hides.inStore _ List.mem_cons_self
    refine hides.runs_frame arises (Mentions.mono (fun y inStore => ?_) known) framed
    refine ⟨Nat.lt_trans inStore there, fun mem => ?_⟩
    rw [List.mem_singleton.1 mem] at inStore
    exact Nat.lt_irrefl _ inStore
  | executes scope statement levels context _ ih =>
    have lawful := Below.lawful_upTo (Law.running o frame) (Pace.same _) levels levels
    have ran := ih.1.run ih.2 (Below.safe_execute lawful scope statement
      (Stmt.everywhere_of_forall (fun _ => rfl) statement))
      (Below.acts_execute (Below.acts_upTo levels) levels scope statement _) context
    exact ⟨ran.1, ran.2.1⟩
  | evaluates scope e levels context _ ih =>
    have lawful := Below.lawful_upTo (Law.running o frame) (Pace.same _) levels levels
    have ran := ih.1.run ih.2 (Below.safe_evaluate lawful scope e)
      (Below.acts_evaluate (Below.acts_upTo levels) scope e _) context
    exact ⟨ran.1, ran.2.1⟩
  | @enters s scope _ ih =>
    have made : (Change.operation (.child scope)).Made (fun _ => true) (Law.running o frame).isNew :=
      .child scope
    exact ⟨(Law.running o frame).change made (s.written_of_forall fun _ => rfl) ih.1,
      ih.2.apply (c := .operation (.child scope)) trivial⟩
  | @counts s scope name number _ ih =>
    have made : (Change.operation (.declare scope name (.number number))).Made (fun _ => true)
        (Law.running o frame).isNew := .declare scope name _
    exact ⟨(Law.running o frame).change made (s.written_of_forall fun _ => rfl) ih.1,
      ih.2.apply (c := .operation (.declare scope name (.number number))) (within_number number)⟩

end Store

-- ================================================================ the result

namespace Store

/-- The innermost of some scopes sees the members of an object. A variable is
the object's, for reading and for writing, unless the name is lost, or
declared in one of the scopes. The overloads can be called. -/
structure Sees (s : Store) (o : ScopeId) (members : Scope) (lost : Set String) (x : ScopeId)
    (around : List ScopeId) : Prop where
  binding : ∀ {m : String} {slot : SlotId}, members.bindings.own[m]? = some slot → m ∉ lost →
    (∀ y ∈ x :: around, (s.scope y).bindings.own[m]? = none) →
    s.Binds o .own m slot ∧ s.slot? x m = some slot ∧
      ∀ v, s.assign x m v = (.ok (), s.write slot v)
  procedure : ∀ e ∈ members.procedures.own, ∀ args, e.signature.accepts args = true →
    ∀ levels context, x ∈ context.held → ∃ d, Callable.Found (s.overloads x e.name) args context s d ∧
      (Below.upTo levels).callProcedure x e.name args context s =
        (Below.upTo levels).invoke d args false context s
  function : ∀ e ∈ members.functions.own, ∀ args, e.signature.accepts args = true →
    ∀ levels context, x ∈ context.held →
      ∃ d, Callable.Found ((s.scope x).functions.named e.name) args context s d ∧
        (Below.upTo levels).callFunction x e.name args context s =
          (Below.upTo levels).invoke d args true context s

variable {s t u w : Store} {o frame : ScopeId}

theorem Follows.sees {members : Scope} {lost : Set String} {x : ScopeId} {around : List ScopeId}
    (follows : s.Follows o members lost (x :: around)) (rooted : s.Rooted) :
    s.Sees o members lost x around where
  binding bound kept unshadowed := by
    have seen := follows.slot? bound kept unshadowed
    exact ⟨follows.declares.binding bound, seen, fun v =>
      assign_of_not_own v (unshadowed x List.mem_cons_self) seen⟩
  procedure _ mem _ accepts _ _ held :=
    Below.callProcedure_finds rooted held (follows.overloads.1 mem) accepts
  function _ mem _ accepts _ _ held :=
    Below.callFunction_finds rooted held (follows.overloads.2 mem) accepts

/-- An object that a part has joined has declared all that the part had. -/
theorem contains_join {part : ScopeId} (inStore : o.index < w.scopes.size) :
    (((w.merge o part).noteSuper o).scope o).Contains (w.scope part) := by
  have merged : (w.merge o part).scope o = (w.scope o).merge (w.scope part) part := by
    rw [merge, w.scope_modifyScope inStore, if_pos rfl]
  have still := Nat.lt_of_lt_of_le inStore (Change.size_le_apply (.merge o part) w)
  have kept : (((w.merge o part).noteSuper o).scope o).Extends ((w.merge o part).scope o) := by
    refine Change.extends_apply (c := .noteSuper o) still (fun _ _ same => ?_) fun _ same => ?_
    · cases same
    · cases same
  rw [merged] at kept
  exact ⟨fun name mem => kept.binding name (Table.mem_own_merge.2 (.inr mem)),
    fun name mem => kept.class name (Table.mem_own_merge.2 (.inr mem)),
    fun d mem => kept.procedures.subset (List.mem_append_right _ mem),
    fun d mem => kept.functions.subset (List.mem_append_right _ mem)⟩

/-- **After `super`, the frame sees the members of the parent part.** Let a
constructor be running, and let it call a `super` of its object, from wherever
it stands, in whatever blocks. If the call completes, an object of the parent
class has been constructed, the new object has all that it had, and no other
scope has changed by that but the frame. From then on, whatever the constructor
executes in its frame, or in blocks that it enters from there, sees the members
of the object. -/
theorem Constructing.sees_members (constructing : s.Constructing o frame) {levels : Nat}
    {scope key : ScopeId} {es : List Expr} {context context' : Context} {args : List Value}
    {d : Callable} {parent : Class} {wanted : Bool} {v : Value}
    (evaluated : (Below.upTo levels).evaluateAll scope es context s = (.ok args, u))
    (seen : d ∈ (u.scope key).callables) (isSuper : d.body = .super parent o)
    (called : (Below.upTo levels).invoke d args wanted context' u = (.ok v, t)) :
    (∃ base w, parent.Constructs u base w ∧ (t.scope o).Contains (w.scope base.scope) ∧
      ∀ y, y ≠ o → y ≠ frame → t.scope y = w.scope y) ∧
    ∀ lost x around r, t.Resumes o frame lost (x :: around) r →
      r.Sees o (t.scope o) lost x around := by
  have written : ∀ u : Store, u.Written fun _ => true := fun u => u.written_of_forall fun _ => rfl
  have lawful := Below.lawful_upTo (Law.running o frame) (Pace.same _) levels levels
  -- the arguments
  obtain ⟨runs, hides⟩ := constructing.runs
  obtain ⟨runs, hides, known⟩ := runs.run hides (Below.safe_evaluateAll lawful scope es)
    (Below.acts_evaluateAll (Below.acts_upTo levels) scope es _) context
  rw [evaluated] at runs hides known
  -- the parent part
  obtain ⟨base, w, constructs, joined⟩ := Below.exists_of_invoke_super isSuper called
  have during : w.Runs o frame := (constructs.keeps (Law.running o frame)
    (parent.written_of_forall fun _ => rfl) (written u) runs).2
  refine ⟨⟨base, w, constructs, ?_, fun y notObject notFrame => ?_⟩, fun lost x around r resumes => ?_⟩
  · rw [joined]
    exact contains_join (lt_of_frame during.frames.isFrame)
  · rw [joined]
    refine w.scope_join_of_ne base.scope (Ne.symm notObject) fun isFrame => notFrame ?_
    rw [during.frames.isFrame] at isFrame
    exact (Option.some.inj isFrame).symm
  · -- the object has been joined
    have sees : (Law.running o frame).Sees d := Law.sees_of_mem key (written u) runs seen
    obtain ⟨after, hidden, -⟩ := runs.run hides (Below.safe_invoke lawful sees)
      (Below.acts_invoke (Below.acts_upTo levels) (hides.knows.callable key d seen)
        (known args rfl)) context'
    rw [called] at after hidden
    have merged : (w.merge o base.scope).Frames o frame :=
      during.frames.apply (c := .merge o base.scope) nofun
    have follows : t.Follows o (t.scope o) lost [frame] := by
      rw [joined]
      exact merged.follows_noteSuper lost
    obtain ⟨rules, rooted⟩ := resumes.rules (Regime.rules_following hidden.knows follows)
      after.arises.rooted
    exact Follows.sees rules.keeps rooted

/-- A constructor that calls `super` in a block, and goes on behind it. -/
theorem Constructing.sees_members_of_block :
    let parent : Class := ⟨"P", none, [⟨1, .assign (.name "x") (.bool true)⟩], ⟨0⟩, []⟩
    let body : Block := [⟨2, .branch [(none, [⟨2, .call (.name "super") []⟩])]⟩,
      ⟨3, .assign (.name "y") (.name "x")⟩]
    let c : Class := ⟨"D", some parent, [⟨2, .define "construct" [] body⟩], ⟨0⟩, [0]⟩
    let d : Callable := .ofSuper 0 parent ⟨1⟩
    let held : List ScopeId := [⟨3⟩, ⟨2⟩, ⟨1⟩, ⟨0⟩]
    let u := ((Below.upTo 4).executeBlock 4 ⟨1⟩ c.body ⟨10, 1, held⟩
      (c.prepare empty.addRoot.2)).2
    let begun := (Below.frame ⟨1⟩ [] [] ⟨10, 1, held⟩ u).2.noteFrame ⟨1⟩ ⟨2⟩
    let s := (begun.addChild ⟨2⟩).2
    let t := ((Below.upTo 4).invoke d [] false ⟨10, 2, held⟩ s).2
    let r := ((Below.upTo 4).execute 4 ⟨2⟩ (.assign (.name "y") (.name "x")) ⟨10, 2, held⟩ t).2
    s.Constructing ⟨1⟩ ⟨2⟩ ∧ d ∈ (s.scope ⟨3⟩).callables ∧ t.Resumes ⟨1⟩ ⟨2⟩ ∅ [⟨2⟩] r ∧
      (t.scope ⟨1⟩).bindings.own["x"]? = some ⟨0⟩ ∧ r.Binds ⟨1⟩ .own "x" ⟨0⟩ ∧
      r.slot? ⟨2⟩ "x" = some ⟨0⟩ ∧ r.slot? ⟨3⟩ "x" = none := by
  intro parent body c d held u begun s t r
  have regular : empty.addRoot.2.Regular :=
    Hosted.regular (.operate (o := .root) .start trivial)
  have begins : begun.Constructing ⟨1⟩ ⟨2⟩ := by
    obtain ⟨flow, executed⟩ : ∃ flow, (Below.upTo 4).executeBlock 4 ⟨1⟩ c.body ⟨10, 1, held⟩
        (c.prepare empty.addRoot.2) = (.ok flow, u) := Run.exists_ok (by decide +kernel)
    have defined : (u.scope ⟨1⟩).procedures.own = [d, .ofScript constructorName [] body ⟨1⟩] := by
      with_unfolding_all rfl
    have constructor : Callable.ofScript constructorName [] body ⟨1⟩ ∈
        (u.scope ⟨1⟩).procedures.own := by
      rw [defined]
      exact List.mem_cons_of_mem _ List.mem_cons_self
    have known : within {id | id.index < empty.addRoot.2.scopes.size} ([] : List Value) :=
      fun v mem => absurd mem List.not_mem_nil
    have framed : Below.frame ⟨1⟩ [] [] ⟨10, 1, held⟩ u =
        (.ok ⟨2⟩, (Below.frame ⟨1⟩ [] [] ⟨10, 1, held⟩ u).2) := by with_unfolding_all rfl
    exact .begins regular known rfl executed constructor rfl rfl framed
  have constructing : s.Constructing ⟨1⟩ ⟨2⟩ := .enters ⟨2⟩ begins
  have seen : d ∈ (s.scope ⟨3⟩).callables := by
    have inherited : (s.scope ⟨3⟩).procedures.inherited =
        [d, .ofScript constructorName [] body ⟨1⟩] := by with_unfolding_all rfl
    refine List.mem_append_left _ (List.mem_append_right _ ?_)
    rw [inherited]
    exact List.mem_cons_self
  have evaluated : (Below.upTo 4).evaluateAll ⟨3⟩ [] ⟨10, 2, held⟩ s = (.ok [], s) := by
    rw [Below.evaluateAll]
    rfl
  obtain ⟨v, called⟩ : ∃ v, (Below.upTo 4).invoke d [] false ⟨10, 2, held⟩ s = (.ok v, t) :=
    Run.exists_ok (by decide +kernel)
  have dropped : ∀ name ∈ (Stmt.assign (.name "y") (.name "x")).dropped, name ∈ (∅ : Set String) :=
    fun name mem => absurd mem List.not_mem_nil
  have resumes : t.Resumes ⟨1⟩ ⟨2⟩ ∅ [⟨2⟩] r := .executes _ 4 ⟨10, 2, held⟩ dropped .joined
  have own : (t.scope ⟨1⟩).bindings.own["x"]? = some ⟨0⟩ := by decide +kernel
  have sees := (constructing.sees_members evaluated seen rfl called).2 ∅ ⟨2⟩ [] r resumes
  have unshadowed : ∀ y ∈ [(⟨2⟩ : ScopeId)], (r.scope y).bindings.own["x"]? = none := by
    decide +kernel
  obtain ⟨bound, slot, -⟩ := sees.binding own (Set.notMem_empty "x") unshadowed
  exact ⟨constructing, seen, resumes, own, bound, slot, by decide +kernel⟩

end Store

/-- In the block where it calls `super`, the constructor does not find what has
joined; behind the block, it does. -/
theorem open_block_misses_members :
    let parent : Located Stmt :=
      ⟨1, .declareClass "P" none [⟨1, .assign (.name "x") (.bool true)⟩]⟩
    let program : Block → Block := fun body =>
      [parent, ⟨2, .declareClass "D" (some (.name "P")) [⟨2, .define "construct" [] body⟩]⟩,
        ⟨5, .assign (.name "o") (.new "D" [])⟩]
    let run : Block → Except Halt Value × Store := fun body =>
      (Request.execute ⟨0⟩ (program body)).run 8 ⟨10, 0, [⟨0⟩]⟩ Store.empty.addRoot.2
    let super : Located Stmt := ⟨3, .call (.name "super") []⟩
    let reads : Located Stmt := ⟨4, .assign (.name "y") (.name "x")⟩
    (run [⟨3, .branch [(none, [super, reads])]⟩]).1 =
        .error (.fault (Fault.atLine (Cause.notFound "x") 4)) ∧
      (run [⟨3, .branch [(none, [super])]⟩, reads]).1.toOption.isSome = true := by
  intro parent program run super reads
  exact ⟨Run.eq_error_of_fault? (by decide +kernel), by decide +kernel⟩

end RoutineScript
