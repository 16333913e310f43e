/-
What a class defines itself comes before what it inherits.

An overload is looked for among those that an object has declared, in the
order in which they got there: those of its class's body first, and behind
them those of the parent part, which joins the object when the body has been
executed, unless the body itself asks for it. Nothing but `super` and the
constructors is ever taken out again, so that order stays (`Scope.Leads`).

# Two tables

A definition can always be called as a statement, and is found among the
procedures. For its value it can be called only if it mentions `return`, and
is found among the functions then. So the order says who is called wherever
a call looks into a table that holds the definition of the class.

# What is left open

A call for a value looks among the functions only, and so does a host, unless
there are none. A definition of the class that returns nothing is not there,
and does not hide what the parent defined.
-/
import RoutineScript.Proofs.Run.Coherence
import RoutineScript.Proofs.Run.Homes
import RoutineScript.Proofs.Run.Inheritance

namespace RoutineScript

-- ================================================================== overloads

namespace Callable

variable {front candidates : List Callable} {args : List Value} {d : Callable}

/-- What is selected among the first overloads is selected. -/
theorem select?_of_prefix (first : front <+: candidates) (selected : select? front args = some d) :
    select? candidates args = some d := by
  obtain ⟨rest, rfl⟩ := first
  rw [select?, List.find?_append]
  rw [select?] at selected
  rw [selected]
  rfl

/-- Where an overload takes the arguments, one is selected. -/
theorem exists_select? (mem : d ∈ candidates) (accepts : d.signature.accepts args = true) :
    ∃ e ∈ candidates, select? candidates args = some e := by
  have isSome : (select? candidates args).isSome = true :=
    List.find?_isSome.2 ⟨d, mem, accepts⟩
  obtain ⟨e, selected⟩ := Option.isSome_iff_exists.1 isSome
  exact ⟨e, List.mem_of_find?_eq_some selected, selected⟩

end Callable

theorem Overloads.ownNamed_prefix_named (o : Overloads) (name : String) :
    o.ownNamed name <+: o.named name := by
  rw [named, all, List.filter_append]
  exact List.prefix_append _ _

/-- The overloads of a name that one scope has declared come first among those
that another one has declared. -/
structure Scope.Leads (front scope : Scope) (name : String) : Prop where
  procedures : front.procedures.ownNamed name <+: scope.procedures.ownNamed name
  functions : front.functions.ownNamed name <+: scope.functions.ownNamed name

theorem Scope.leads_self (scope : Scope) (name : String) : scope.Leads scope name :=
  ⟨List.prefix_rfl, List.prefix_rfl⟩

theorem Scope.Leads.trans {a b c : Scope} {name : String} (first : a.Leads b name)
    (second : b.Leads c name) : a.Leads c name :=
  ⟨first.procedures.trans second.procedures, first.functions.trans second.functions⟩

-- ==================================================================== calls

/-- The three ways to call a method: as a statement, for its value in an
expression, and from the host. -/
inductive CallForm where
  | statement
  | value
  | host

namespace Below

/-- Calls a method of an object. -/
def callMethod (below : Below) : CallForm → ScopeId → String → List Value → Run Value
  | .statement => below.callProcedure
  | .value => below.callFunction
  | .host => below.callMember

/-- A call of a method calls this overload; or it asks for a value that nothing
of its name has, and calls nothing. -/
def CallsOnly (form : CallForm) (v : Store) (id : ScopeId) (name : String) (args : List Value)
    (d : Callable) : Prop :=
  ∀ (below : Below) (context : Context),
    (∃ wanted, below.callMethod form id name args context v = below.invoke d args wanted context v) ∨
      form = .value ∧ below.callMethod form id name args context v =
        (.error (.fault (Cause.noValueReturned name)), v)

variable {below : Below} {id : ScopeId} {name : String} {args : List Value} {context : Context}
  {front : Scope} {s : Store} {d : Callable}

theorem dispatch_eq (below : Below) (name : String) (wanted : Bool) {candidates : List Callable}
    (selected : Callable.select? candidates args = some d) :
    candidates.isEmpty = false ∧
      below.dispatch name candidates args wanted = below.invoke d args wanted := by
  have some : candidates.isEmpty = false := by
    cases candidates with
    | nil => cases selected
    | cons => rfl
  refine ⟨some, ?_⟩
  rw [dispatch, some, selected]
  rfl

/-- A statement calls what is selected among the first procedures. -/
theorem callProcedure_eq (leads : front.Leads (s.scope id) name)
    (selected : Callable.select? (front.procedures.ownNamed name) args = some d) :
    below.callProcedure id name args context s = below.invoke d args false context s := by
  have first := leads.procedures.trans (Overloads.ownNamed_prefix_named _ name)
  have selected := Callable.select?_of_prefix (first.trans (List.prefix_append _
    ((s.scope id).functions.named name))) selected
  rw [callProcedure, Run.bind_apply]
  dsimp only [Run.look]
  rw [(below.dispatch_eq name _ selected).2]

/-- The other calls call what is selected among the first functions. -/
theorem callMethod_eq {form : CallForm} (valued : form ≠ .statement)
    (leads : front.Leads (s.scope id) name)
    (selected : Callable.select? (front.functions.ownNamed name) args = some d) :
    below.callMethod form id name args context s = below.invoke d args true context s := by
  have first := leads.functions.trans (Overloads.ownNamed_prefix_named _ name)
  have selected := Callable.select?_of_prefix first selected
  obtain ⟨some, -⟩ := below.dispatch_eq name true selected
  cases form with
  | statement => exact absurd rfl valued
  | value =>
    rw [callMethod, callFunction, Run.bind_apply]
    dsimp only [Run.look]
    rw [Run.bind_apply]
    dsimp only [Run.look]
    rw [some, Bool.false_and, if_neg Bool.false_ne_true, (below.dispatch_eq name _ selected).2]
  | host =>
    rw [callMethod, callMember, Run.bind_apply]
    dsimp only [Run.look]
    rw [some, if_neg Bool.false_ne_true, (below.dispatch_eq name _ selected).2]

/-- Where a name has no functions, a host calls what is selected among the
first procedures, and no call has a value. -/
theorem callMethod_eq_of_procedures (none : (s.scope id).functions.named name = [])
    (leads : front.Leads (s.scope id) name)
    (selected : Callable.select? (front.procedures.ownNamed name) args = some d) :
    below.callMethod .host id name args context s = below.invoke d args false context s ∧
      below.callMethod .value id name args context s =
        (.error (.fault (Cause.noValueReturned name)), s) := by
  have first := leads.procedures.trans (Overloads.ownNamed_prefix_named _ name)
  have selected := Callable.select?_of_prefix first selected
  obtain ⟨some, dispatched⟩ :=
    below.dispatch_eq name false selected
  constructor
  · rw [callMethod, callMember, Run.bind_apply]
    dsimp only [Run.look]
    rw [none, List.isEmpty_nil, if_pos rfl, Run.bind_apply]
    dsimp only [Run.look]
    rw [dispatched]
  · rw [callMethod, callFunction, Run.bind_apply]
    dsimp only [Run.look]
    rw [Run.bind_apply]
    dsimp only [Run.look]
    rw [none, some]
    rfl

end Below

-- ==================================================================== order

namespace Change

variable {c : Change} {s : Store} {o : ScopeId}

/-- A callable that a scope has declared after a change was declared before,
or the change has added it, or it was declared by an object that is merged
into the scope. -/
theorem ownCallable_of_apply {d : Callable} (mem : d ∈ ((c.apply s).scope o).ownCallables) :
    d ∈ (s.scope o).ownCallables ∨ c.Adds o d ∨
      ∃ base, c = .merge o base ∧ d ∈ (s.scope base).ownCallables := by
  rcases Scope.mem_ownCallables.1 mem with procedure | function
  · exact (own_of_apply procedure).imp (fun own => Scope.mem_ownCallables.2 (.inl own)) id
  have before : d ∈ (s.scope o).functions.own → d ∈ (s.scope o).ownCallables := fun own =>
    Scope.mem_ownCallables.2 (.inr own)
  have made := c.makes s o
  generalize (c.apply s).scope o = scope at made function
  cases made with
  | same | bind | procedure | introduce | offer | frame | noted | inherit =>
    exact .inl (before function)
  | root | child => cases function
  | function =>
    rcases List.mem_append.1 function with own | new
    · exact .inl (before own)
    · rw [List.mem_singleton.1 new]
      exact .inr (.inl .register)
  | define twice =>
    rcases twice with rfl | rfl
    · exact .inl (before function)
    · rcases List.mem_append.1 function with own | new
      · exact .inl (before own)
      · rw [List.mem_singleton.1 new]
        exact .inr (.inl .define)
  | drop => exact .inl (before (List.mem_filter.1 function).1)
  | @merge base =>
    rcases List.mem_append.1 function with own | taken
    · exact .inl (before own)
    · exact .inr (.inr ⟨base, rfl, Scope.mem_ownCallables.2 (.inr taken)⟩)

/-- What a scope has declared comes first, unless it is dropped. -/
theorem leads_apply {name : String} (inStore : o.index < s.scopes.size)
    (undropped : c ≠ .dropCallables o name) : (s.scope o).Leads ((c.apply s).scope o) name := by
  have same := (s.scope o).leads_self name
  have further : ∀ {overloads : Overloads} {more : List Callable},
      overloads.ownNamed name <+: Overloads.ownNamed ⟨overloads.own ++ more, overloads.inherited⟩ name :=
    Overloads.ownNamed_prefix name (List.prefix_append _ _)
  have made := c.makes s o
  generalize (c.apply s).scope o = scope at made
  cases made with
  | same | bind | introduce | frame | noted | inherit => exact ⟨same.procedures, same.functions⟩
  | root absent | child absent => exact absurd inStore (Nat.not_lt.2 absent)
  | procedure | offer => exact ⟨further, same.functions⟩
  | function => exact ⟨same.procedures, further⟩
  | define twice =>
    rcases twice with rfl | rfl
    · exact ⟨further, same.functions⟩
    · exact ⟨further, further⟩
  | @drop dropped =>
    have other : name ≠ dropped := by
      rintro rfl
      exact undropped rfl
    have kept : ∀ overloads : Overloads,
        overloads.ownNamed name <+: (overloads.drop dropped).ownNamed name := fun overloads =>
      ⟨[], by rw [List.append_nil, Overloads.ownNamed_drop other]⟩
    exact ⟨kept _, kept _⟩
  | merge => exact ⟨further, further⟩

end Change

theorem Store.leads_join {u : Store} {o : ScopeId} (inStore : o.index < u.scopes.size)
    (target base : ScopeId) (name : String) :
    (u.scope o).Leads (((u.merge target base).noteSuper target).scope o) name := by
  have merged : (u.scope o).Leads ((u.merge target base).scope o) name :=
    Change.leads_apply (c := .merge target base) inStore nofun
  have still := Nat.lt_of_lt_of_le inStore (Change.size_le_apply (.merge target base) u)
  exact merged.trans (Change.leads_apply (c := .noteSuper target) still nofun)

/-- The law of what an object has declared: it stays first. -/
def Law.leading (allows : Stmt → Bool) (o : ScopeId) (front : Scope) {name : String}
    (noSuper : name ≠ superName) (noConstructor : name ≠ constructorName) : Law allows where
  inv s := o.index < s.scopes.size ∧ front.Leads (s.scope o) name
  isNew _ := True
  change {c s} made _ inv := by
    refine ⟨Nat.lt_of_lt_of_le inv.1 (c.size_le_apply s), inv.2.trans (Change.leads_apply inv.1 ?_)⟩
    rintro rfl
    cases made with
    | drop _ books => exact books.elim noSuper noConstructor
  born _ := trivial
  join {_ _ u _ _ _ target base} _ _ _ _ _ _ inv := by
    exact ⟨Nat.lt_of_lt_of_le inv.1 (u.size_le_join target base.scope),
      inv.2.trans (u.leads_join inv.1 target base.scope name)⟩

/-- It also stays first when the object is finished. -/
theorem Store.Later.leads {s t : Store} {o : ScopeId} (later : s.Later o t)
    (inStore : o.index < s.scopes.size) (name : String) : (s.scope o).Leads (t.scope o) name := by
  induction later with
  | now => exact Scope.leads_self _ name
  | operate op before ih =>
    have there := Nat.lt_of_lt_of_le inStore before.size_le
    exact ih.trans (Change.leads_apply (c := .operation op) there nofun)
  | change made before ih =>
    have there := Nat.lt_of_lt_of_le inStore before.size_le
    refine ih.trans (Change.leads_apply there ?_)
    rintro rfl
    cases made with
    | drop new => exact new rfl
  | join target _ before ih =>
    have there := Nat.lt_of_lt_of_le inStore before.size_le
    exact ih.trans (Store.leads_join there target _ name)

-- ================================================================ class bodies

theorem Store.superInvoked_noteSuper {s : Store} {o : ScopeId} (inStore : o.index < s.scopes.size) :
    ((s.noteSuper o).scope o).construction.superInvoked = true := by
  have here : ((s.modifyScope o Scope.noted).scope o).construction.superInvoked = true := by
    rw [scope_modifyScope s inStore, if_pos rfl]
    rfl
  rw [noteSuper_eq]
  split
  · exact here
  · next frame _ =>
    rcases (s.modifyScope o Scope.noted).scope_inheritAnew_or frame o with
      same | ⟨rfl, parent, -, inherited⟩
    · rw [same]
      exact here
    · rw [inherited]
      exact here

/-- Unless a parent part has joined it, an object has declared nothing but
`super` and what is defined on it. -/
def Store.Declaring (o : ScopeId) (s : Store) : Prop :=
  (s.scope o).construction.superInvoked = true ∨
    ∀ d ∈ (s.scope o).ownCallables, d.name ≠ superName →
      ∃ params body, d = .ofScript d.name params body o

/-- The law of an object whose class body is executed. -/
def Law.declaring (allows : Stmt → Bool) (o : ScopeId) : Law allows where
  inv s := o.index < s.scopes.size ∧ s.Declaring o
  isNew id := id ≠ o
  change {c s} made _ inv := by
    refine ⟨Nat.lt_of_lt_of_le inv.1 (c.size_le_apply s), inv.2.imp (fun invoked => ?_)
      fun defined d mem noSuper => ?_⟩
    · rw [Change.superInvoked_apply inv.1 ?_, invoked]
      rintro rfl
      cases made
    · rcases Change.ownCallable_of_apply mem with before | added | ⟨base, rfl, -⟩
      · exact defined d before noSuper
      · cases made with
        | define =>
          cases added
          exact ⟨_, _, rfl⟩
        | offerSuper new | supply new =>
          cases added
          exact absurd rfl new
        | _ => cases added
      · cases made
  born inv := by
    rintro rfl
    exact Nat.lt_irrefl _ inv.1
  join {_ _ u _ _ _ target base} _ _ _ _ _ _ inv := by
    refine ⟨Nat.lt_of_lt_of_le inv.1 (u.size_le_join target base.scope), ?_⟩
    have still := Nat.lt_of_lt_of_le inv.1 (Change.size_le_apply (.merge target base.scope) u)
    by_cases same : target = o
    · subst same
      exact .inl (Store.superInvoked_noteSuper still)
    · refine inv.2.imp (fun invoked => ?_) fun defined d mem noSuper => ?_
      · have merged := Change.superInvoked_apply (c := .merge target base.scope) inv.1 nofun
        have noted := Change.superInvoked_apply (c := .noteSuper target) still
          (fun eq => same (Change.noteSuper.inj eq))
        exact noted.trans (merged.trans invoked)
      · rcases Change.ownCallable_of_apply (c := .noteSuper target) mem with
          merged | added | ⟨_, eq, -⟩
        · rcases Change.ownCallable_of_apply (c := .merge target base.scope) merged with
            before | added | ⟨_, eq, -⟩
          · exact defined d before noSuper
          · cases added
          · cases eq
            exact absurd rfl same
        · cases added
        · cases eq

namespace Class

/-- Executes statements of a class body on the object that is prepared in `s`. -/
def executeBody (c : Class) (levels : Nat) (context : Context) (s : Store) (block : Block) :
    Except Halt Flow × Store :=
  (Below.upTo levels).executeBlock levels ⟨s.scopes.size⟩ block
    { context with held := ⟨s.scopes.size⟩ :: context.held } (c.prepare s)

theorem declaring_prepare (c : Class) (s : Store) : (c.prepare s).Declaring ⟨s.scopes.size⟩ := by
  have born : ∀ d ∈ ((s.addChild c.home).2.scope ⟨s.scopes.size⟩).ownCallables,
      d.name = superName := by
    intro d mem
    rw [Store.scope_addChild_self] at mem
    cases mem
  have prepared : ∀ d ∈ ((c.prepare s).scope ⟨s.scopes.size⟩).ownCallables, d.name = superName := by
    unfold prepare
    cases c.parent with
    | none => exact born
    | some parent =>
      refine List.foldlRecOn (motive := fun t : Store =>
        ∀ d ∈ (t.scope ⟨s.scopes.size⟩).ownCallables, d.name = superName) parent.superArities _ born
        fun t named arity _ d mem => ?_
      rcases Change.ownCallable_of_apply (c := .offer _ _) mem with before | added | ⟨_, eq, -⟩
      · exact named d before
      · cases added
        rfl
      · cases eq
  exact .inr fun d mem noSuper => absurd (prepared d mem) noSuper

end Class

namespace Below

variable {below : Below} {n : Nat} {scope : ScopeId} {context : Context} {s t u : Store}
  {flow : Flow}

/-- A block goes on with its rest when the statements in front have come to
their end. -/
theorem executeBlock_append {front : Block} (rest : Block)
    (finished : below.executeBlock n scope front context s = (.ok .finished, u)) :
    below.executeBlock n scope (front ++ rest) context s =
      below.executeBlock n scope rest context u := by
  induction front generalizing s with
  | nil =>
    rw [executeBlock] at finished
    cases finished
    rfl
  | cons first front ih =>
    obtain ⟨line, statement⟩ := first
    rw [List.cons_append, executeBlock, Run.bind_apply]
    rw [executeBlock, Run.bind_apply] at finished
    generalize Run.onLine line (below.execute n scope statement) context s = ended at finished ⊢
    obtain ⟨_ | _ | _, v⟩ := ended
    · cases finished
    · exact ih finished
    · cases finished

/-- A definition that a block has gone on from was accepted. -/
theorem exists_of_define {line : Nat} {name : String} {params : List String} {body rest : Block}
    (eq : below.executeBlock n scope (⟨line, .define name params body⟩ :: rest) context s =
      (.ok flow, t)) :
    ∃ u, s.define scope name params body = (.ok (), u) ∧
      below.executeBlock n scope rest context u = (.ok flow, t) := by
  rw [executeBlock, Run.bind_apply, Run.onLine, execute, Run.bind_apply] at eq
  unfold Run.attempt at eq
  dsimp only at eq
  rcases defined : s.define scope name params body with ⟨_ | _, u⟩
  · rw [defined] at eq
    cases eq
  · rw [defined] at eq
    exact ⟨u, rfl, eq⟩

/-- A law is kept by the statements of a block. -/
theorem keeps_executeBlock (law : Law fun _ => true) {block : Block}
    (ended : (Below.upTo n).executeBlock n scope block context s = (.ok flow, t))
    (inv : law.inv s) : law.inv t := by
  have safe := safe_executeBlock (lawful_upTo law (Pace.same _) n n) scope block
    (Stmt.blockEverywhere_of_forall (fun _ => rfl) _)
  exact (safe.keeps ended (s.written_of_forall fun _ => rfl) inv).2

end Below

/-- What is defined can be called. -/
theorem Store.mem_ownNamed_define {s t : Store} {id : ScopeId} {name : String} {params : List String}
    {body : Block} (inStore : id.index < s.scopes.size)
    (defined : s.define id name params body = (.ok (), t)) :
    .ofScript name params body id ∈ (t.scope id).procedures.ownNamed name ∧
      (Block.mentionsReturn body = true →
        .ofScript name params body id ∈ (t.scope id).functions.ownNamed name) := by
  have added : ∀ overloads : Overloads,
      Callable.ofScript name params body id ∈
        (overloads.add (.ofScript name params body id)).ownNamed name := fun overloads =>
    List.mem_filter.2 ⟨List.mem_append_right _ List.mem_cons_self, beq_self_eq_true name⟩
  rcases s.define_cases id name params body with ⟨_, h⟩ | h <;> rw [h] at defined
  · cases defined
  · cases defined
    dsimp only
    split
    · rw [addProcedure, addFunction, modifyScope_modifyScope, scope_modifyScope s inStore, if_pos rfl]
      exact ⟨added _, fun _ => added _⟩
    · next silent =>
      rw [addProcedure, scope_modifyScope s inStore, if_pos rfl]
      exact ⟨added _, fun mentions => absurd mentions silent⟩

-- ================================================================ the result

namespace Class

variable {c : Class} {s t : Store} {o : Object} {levels : Nat} {args : List Value} {context : Context}

/-- An object that is constructed has been through the body of its class, and
was finished then. -/
theorem exists_of_constructAt
    (constructed : Run.constructAt (levels + 1) c args context s = (.ok o, t)) :
    o.scope = ⟨s.scopes.size⟩ ∧ ∃ flow u, c.executeBody levels context s c.body = (.ok flow, u) ∧
      ∃ context, (Below.upTo levels).finish ⟨s.scopes.size⟩ c args context u = (.ok o, t) := by
  have constructs : c.Constructs s o t := ⟨_, _, _, constructed⟩
  rw [Run.constructAt_eq (Run.isLive_of_constructAt constructed), Below.build_eq] at constructed
  obtain ⟨flow, u, executed, finished⟩ := Run.exists_of_bind constructed
  exact ⟨congrArg Object.scope constructs.object_eq, flow, u, executed, _, finished⟩

/-- What the body of a class has defined can be called when the body has been
executed. -/
theorem mem_ownNamed_of_executeBody {front rest : Block} {line : Nat} {name : String}
    {params : List String} {body : Block} {flow : Flow} {u : Store}
    (noSuper : name ≠ superName) (noConstructor : name ≠ constructorName)
    (written : c.body = front ++ ⟨line, .define name params body⟩ :: rest)
    (reached : (c.executeBody levels context s front).1 = .ok .finished)
    (executed : c.executeBody levels context s c.body = (.ok flow, u)) :
    let scope := u.scope ⟨s.scopes.size⟩
    .ofScript name params body ⟨s.scopes.size⟩ ∈ scope.procedures.ownNamed name ∧
      (Block.mentionsReturn body = true →
        .ofScript name params body ⟨s.scopes.size⟩ ∈ scope.functions.ownNamed name) := by
  unfold executeBody at reached executed
  generalize before : (Below.upTo levels).executeBlock levels ⟨s.scopes.size⟩ front
    { context with held := ⟨s.scopes.size⟩ :: context.held } (c.prepare s) = outcome at reached
  obtain ⟨_, v⟩ := outcome
  cases reached
  rw [written, Below.executeBlock_append _ before] at executed
  obtain ⟨w, defined, executed⟩ := Below.exists_of_define executed
  have there : s.scopes.size < v.scopes.size :=
    Below.keeps_executeBlock (Law.grown _ (s.scopes.size + 1)) before (c.size_lt_prepare s)
  obtain ⟨procedure, function⟩ := Store.mem_ownNamed_define there defined
  have inStore := Store.lt_of_mem_callables (Scope.mem_callables_of_own
    (Scope.mem_ownCallables.2 (.inl (List.mem_filter.1 procedure).1)))
  have leads := (Below.keeps_executeBlock (Law.leading _ _ (w.scope _) noSuper noConstructor)
    executed ⟨inStore, Scope.leads_self _ name⟩).2
  exact ⟨leads.procedures.subset procedure, fun mentions => leads.functions.subset (function mentions)⟩

/-- When the body has been executed and no parent part has joined the object,
the overload that is selected for some arguments is defined on the object. -/
theorem exists_select?_of_executeBody {flow : Flow} {u : Store} {name : String}
    (noSuper : name ≠ superName) (executed : c.executeBody levels context s c.body = (.ok flow, u))
    (unjoined : (u.scope ⟨s.scopes.size⟩).construction.superInvoked = false)
    {candidates : List Callable} {args : List Value} {d : Callable}
    (own : ∀ e ∈ candidates, e ∈ (u.scope ⟨s.scopes.size⟩).ownCallables ∧ e.name = name)
    (mem : d ∈ candidates) (accepts : d.signature.accepts args = true) :
    ∃ params body, Callable.select? candidates args =
      some (.ofScript name params body ⟨s.scopes.size⟩) := by
  have declaring := (Below.keeps_executeBlock (Law.declaring _ ⟨s.scopes.size⟩) executed
    ⟨c.size_lt_prepare s, c.declaring_prepare s⟩).2
  obtain ⟨e, mem, selected⟩ := Callable.exists_select? mem accepts
  obtain ⟨declared, rfl⟩ := own e mem
  rcases declaring with invoked | defined
  · rw [unjoined] at invoked
    cases invoked
  · obtain ⟨params, body, same⟩ := defined e declared noSuper
    exact ⟨params, body, same ▸ selected⟩

/-- What an object has declared by the time that the body of its class has been
executed is first for good. -/
theorem leads_of_finish {u v : Store} {name : String} {args : List Value} {context : Context}
    (noSuper : name ≠ superName) (noConstructor : name ≠ constructorName)
    (inStore : s.scopes.size < u.scopes.size)
    (finished : (Below.upTo levels).finish ⟨s.scopes.size⟩ c args context u = (.ok o, t))
    (later : t.Later ⟨s.scopes.size⟩ v) :
    (u.scope ⟨s.scopes.size⟩).Leads (v.scope ⟨s.scopes.size⟩) name := by
  let law := Law.leading (fun _ => true) ⟨s.scopes.size⟩ (u.scope ⟨s.scopes.size⟩) noSuper
    noConstructor
  have lawful := Below.lawful_upTo law (Pace.same _) levels levels
  have safe : Run.Safe law _ levels levels ((Below.upTo levels).finish ⟨s.scopes.size⟩ c args) _ :=
    Below.safe_finish lawful trivial
  obtain ⟨there, leads⟩ := (safe.keeps finished (u.written_of_forall fun _ => rfl)
    ⟨inStore, Scope.leads_self _ name⟩).2
  exact leads.trans (later.leads there name)

end Class

/-- What a finished object has of the names `super` and `construct`, it was
given as its own: no parent part brings any. -/
theorem Store.Later.own_books {c : Class} {s t u : Store} {o : Object}
    (constructs : c.Constructs s o t) (later : t.Later o.scope u) :
    ∀ d ∈ (u.scope o.scope).ownCallables, d.name = superName ∨ d.name = constructorName →
      ∀ place, d.home? = some place → place = o.scope := by
  induction later with
  | now =>
    intro d mem books
    obtain ⟨noSuper, noConstructor⟩ := constructs.cleared d (Scope.mem_callables_of_own mem)
    exact absurd books (not_or.2 ⟨noSuper, noConstructor⟩)
  | operate op _ ih =>
    intro d mem books place home
    rcases Change.ownCallable_of_apply (c := .operation op) mem with before | added | ⟨_, eq, -⟩
    · exact ih d before books place home
    · cases added
      cases home
    · cases eq
  | change made _ ih =>
    intro d mem books place home
    rcases Change.ownCallable_of_apply mem with before | added | ⟨_, rfl, -⟩
    · exact ih d before books place home
    · cases made with
      | define =>
        cases added
        cases home
        rfl
      | offerSuper new | supply new =>
        cases added
        exact absurd rfl new
      | _ => cases added
    · cases made
  | join target part _ ih =>
    intro d mem books place home
    rcases Change.ownCallable_of_apply (c := .noteSuper target) mem with merged | added | ⟨_, eq, -⟩
    · rcases Change.ownCallable_of_apply (c := .merge target _) merged with
        before | added | ⟨_, eq, taken⟩
      · exact ih d before books place home
      · cases added
      · cases eq
        obtain ⟨noSuper, noConstructor⟩ := part.cleared d (Scope.mem_callables_of_own taken)
        exact absurd books (not_or.2 ⟨noSuper, noConstructor⟩)
    · cases added
    · cases eq

/-- **What a class defines comes before what it inherits.** Let the body of a
class have come to a definition, and let no parent part have joined the new
object when the body had been executed. Then, as long as the object lasts, a
call of that name with as many arguments calls an overload that the object had
declared by then; or it asks for a value, the object has no function of that
name, and nothing is called. This holds of statements, and of all calls if the
definition mentions `return`, or nothing of that name does. Of the names
`super` and `construct`, a finished object has nothing from a parent part. -/
theorem Class.overrides_inherited {c : Class} {s t v : Store} {o : Object} {levels : Nat}
    {args₀ : List Value} {context₀ : Context} {front rest : Block} {line : Nat} {name : String}
    {params : List String} {body : Block}
    (constructed : Run.constructAt (levels + 1) c args₀ context₀ s = (.ok o, t))
    (written : c.body = front ++ ⟨line, .define name params body⟩ :: rest)
    (reached : (c.executeBody levels context₀ s front).1 = .ok .finished)
    (unjoined : ((c.executeBody levels context₀ s c.body).2.scope
      o.scope).construction.superInvoked = false)
    (later : t.Later o.scope v) {form : CallForm} {args : List Value}
    (fits : args.length = params.length)
    (visible : form = .statement ∨ Block.mentionsReturn body = true ∨
      (v.scope o.scope).functions.named name = []) :
    (name ≠ superName → name ≠ constructorName → ∃ params body,
      .ofScript name params body o.scope ∈
          ((c.executeBody levels context₀ s c.body).2.scope o.scope).ownCallables ∧
        Below.CallsOnly form v o.scope name args (.ofScript name params body o.scope)) ∧
    (name = superName ∨ name = constructorName → ∀ d ∈ (v.scope o.scope).ownCallables,
      d.name = name → ∀ place, d.home? = some place → place = o.scope) := by
  have constructs : c.Constructs s o t := ⟨_, _, _, constructed⟩
  refine ⟨fun noSuper noConstructor => ?_, fun books d mem named place home =>
    later.own_books constructs d mem (named ▸ books) place home⟩
  obtain ⟨here, flow, u, executed, context, finished⟩ := Class.exists_of_constructAt constructed
  rw [executed, here] at unjoined
  rw [executed, here]
  rw [here] at later visible
  obtain ⟨procedure, function⟩ := Class.mem_ownNamed_of_executeBody noSuper noConstructor written
    reached executed
  have procedures : ∀ e ∈ (u.scope ⟨s.scopes.size⟩).procedures.ownNamed name,
      e ∈ (u.scope ⟨s.scopes.size⟩).ownCallables ∧ e.name = name := fun e mem =>
    ⟨Scope.mem_ownCallables.2 (.inl (List.mem_filter.1 mem).1), beq_iff_eq.1 (List.mem_filter.1 mem).2⟩
  have functions : ∀ e ∈ (u.scope ⟨s.scopes.size⟩).functions.ownNamed name,
      e ∈ (u.scope ⟨s.scopes.size⟩).ownCallables ∧ e.name = name := fun e mem =>
    ⟨Scope.mem_ownCallables.2 (.inr (List.mem_filter.1 mem).1), beq_iff_eq.1 (List.mem_filter.1 mem).2⟩
  have inStore := Store.lt_of_mem_callables (Scope.mem_callables_of_own
    (procedures _ procedure).1)
  have leads := Class.leads_of_finish noSuper noConstructor inStore finished later
  have accepts : (Signature.any params.length).accepts args = true := Signature.accepts_any.2 fits
  obtain ⟨params₁, body₁, selected⟩ :=
    Class.exists_select?_of_executeBody noSuper executed unjoined procedures procedure accepts
  have declared := (procedures _ (List.mem_of_find?_eq_some selected)).1
  by_cases statement : form = .statement
  · subst statement
    exact ⟨params₁, body₁, declared, fun below context =>
      .inl ⟨false, Below.callProcedure_eq leads selected⟩⟩
  rcases visible.resolve_left statement with mentions | none
  · obtain ⟨params₂, body₂, selected⟩ := Class.exists_select?_of_executeBody noSuper executed
      unjoined functions (function mentions) accepts
    exact ⟨params₂, body₂, (functions _ (List.mem_of_find?_eq_some selected)).1,
      fun below context => .inl ⟨true, Below.callMethod_eq statement leads selected⟩⟩
  · refine ⟨params₁, body₁, declared, fun below context => ?_⟩
    obtain ⟨hosted, valued⟩ := Below.callMethod_eq_of_procedures none leads selected
    cases form with
    | statement => exact absurd rfl statement
    | value => exact .inr ⟨rfl, valued⟩
    | host => exact .inl ⟨false, hosted⟩

/-- A method that returns a value, as its parent's does, and whatever a host
asks for then. -/
theorem overrides_inherited_of_child :
    let returns : Bool → Block := fun b => [⟨1, .return (some (.bool b))⟩]
    let parent : Class := ⟨"P", none, [⟨1, .define "m" [] (returns true)⟩], ⟨0⟩, []⟩
    let c : Class := ⟨"D", some parent, [⟨2, .define "m" [] (returns false)⟩], ⟨0⟩, []⟩
    let s := Store.empty.addRoot.2
    let context : Context := ⟨10, 0, [⟨0⟩]⟩
    let ended := Run.constructAt 6 c [] context s
    ∃ o, ended.1 = .ok o ∧ o.scope = ⟨1⟩ ∧ (ended.2.scope ⟨1⟩).procedures.own.length = 2 ∧
      ∀ request levels context, let u := (Request.run levels request context ended.2).2
        ∀ form, ∃ params body, Below.CallsOnly form u ⟨1⟩ "m" [] (.ofScript "m" params body ⟨1⟩) := by
  intro returns parent c s context ended
  have object : ended.1.toOption.map Object.scope = some ⟨1⟩ := by decide +kernel
  obtain ⟨o, constructed, here⟩ : ∃ o, ended = (.ok o, ended.2) ∧ o.scope = ⟨1⟩ := by
    generalize ended = outcome at object
    obtain ⟨_ | o, t⟩ := outcome
    · cases object
    · exact ⟨o, rfl, Option.some.inj object⟩
  refine ⟨o, congrArg Prod.fst constructed, here, by decide +kernel,
    fun request levels context form => ?_⟩
  have constructs : c.Constructs s o ended.2 := ⟨_, _, _, constructed⟩
  have reached : (c.executeBody 5 ⟨10, 0, [⟨0⟩]⟩ s []).1 = .ok .finished := rfl
  have unjoined : ((c.executeBody 5 ⟨10, 0, [⟨0⟩]⟩ s c.body).2.scope
      o.scope).construction.superInvoked = false := by
    rw [here]
    decide +kernel
  have written : c.body = [] ++ ⟨2, .define "m" [] (returns false)⟩ :: [] := rfl
  have fits : ([] : List Value).length = ([] : List String).length := rfl
  have visible : form = .statement ∨ Block.mentionsReturn (returns false) = true ∨
      ((Request.run levels request context ended.2).2.scope o.scope).functions.named "m" = [] :=
    .inr (.inl rfl)
  obtain ⟨params, body, -, calls⟩ := (Class.overrides_inherited constructed written reached unjoined
    (.run .now constructs.lt request levels context) fits visible).1 (by decide) (by decide)
  exact ⟨params, body, here ▸ calls⟩

/-- A method that returns nothing does not hide a parent's that does: called
for its value, the method of the parent runs. -/
theorem silent_method_hides_nothing :
    let program : Block :=
      [⟨1, .declareClass "P" none [⟨1, .define "m" [] [⟨1, .return (some (.bool true))⟩]⟩]⟩,
        ⟨2, .declareClass "D" (some (.name "P")) [⟨2, .define "m" [] []⟩]⟩,
        ⟨3, .assign (.name "o") (.new "D" [])⟩]
    let call : Block := [⟨4, .assign (.name "r") (.methodCall (.name "o") "m" [])⟩]
    let s := ((Request.execute ⟨0⟩ program).run 8 ⟨10, 0, [⟨0⟩]⟩ Store.empty.addRoot.2).2
    let ended := (Request.execute ⟨0⟩ call).run 8 ⟨10, 0, [⟨0⟩]⟩ s
    (s.get? ⟨0⟩ "o").map Value.objects = some [⟨1⟩] ∧
      ((s.scope ⟨1⟩).procedures.ownNamed "m").map Callable.home? = [some ⟨1⟩, some ⟨3⟩] ∧
      ((s.scope ⟨1⟩).functions.ownNamed "m").map Callable.home? = [some ⟨3⟩] ∧
      ended.1.toOption.isSome = true ∧ ended.2.lookup ⟨0⟩ "r" = .ok (.boolean true) := by
  intro program call s ended
  have result : ended.2.slot? ⟨0⟩ "r" = some ⟨1⟩ := by decide +kernel
  refine ⟨?_, ?_, ?_, ?_, Store.lookup_boolean result ?_⟩ <;> decide +kernel

end RoutineScript
