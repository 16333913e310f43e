/-
All names are legal, and so nothing is refused for its name but what the
parser has refused.

A store is reached by operations of a host and by the runs that it asks for,
and both keep all names legal (`Store.Reached.legal`). Where objects come from
does not matter here, so nothing is said of what a host passes on. A run is
decent if every fault may pass and nothing hangs, whatever its code.

# Where a name is refused

A source that is accepted binds names that have come out of the scanner, and
these pass the check. So where all callables are functions of the host, a
program has but one way to fail for a name: to execute a statement that could
not be read, whose fault has been there since. This takes two orders of the
same form (`Order.naming`). By the first, only the faults that such statements
carry may refuse names. By the second, statements that carry one particular
fault hang, and that fault may not pass. A program that stops with it is not
decent by the second order, unless one of these statements is executed.
-/
import RoutineScript.Proofs.Run.Host
import RoutineScript.Proofs.Run.Orderly
import RoutineScript.Proofs.Run.Stopping

namespace RoutineScript

variable {s t : Store}

-- ==================================================================== hosts

/-- Whatever a host asks for is decent, if nothing is forbidden. -/
theorem Request.decent_run (levels : Nat) (request : Request) :
    Run.Decent .any (request.run levels) := by
  have decent : (Below.upTo levels).Decent .any := Below.decent_upTo rfl levels
  have programs : ∀ scope (program : Block),
      Run.Decent .any (Interpreter.runProgram levels scope program) := fun scope program =>
    Run.decent_bind (decent.enter scope program program.orderly_any) fun _ => Run.decent_pure
  have read : ∀ {α : Type} (result : Except Fault α), Run.Decent .any (Run.ofResult result) :=
    fun result => Run.decent_ofResult (failsOnly_of_forall (fun _ => trivial) result)
  cases request with
  | execute scope program => exact Run.decent_bind (programs scope program) fun _ => Run.decent_pure
  | executeSource scope source =>
    exact Run.decent_bind (Run.decent_bind (read _) (programs scope)) fun _ => Run.decent_pure
  | evaluate scope text =>
    exact Run.decent_bind (read _) fun e => Below.decent_evaluate decent scope e
  | instantiate scope className args =>
    exact Run.decent_bind (Run.behaves_holding (Below.decent_instantiate decent))
      fun _ => Run.decent_pure
  | call object name args =>
    exact Run.behaves_holding (Run.behaves_holding (Below.decent_callMember decent))

/-- A run keeps names legal, whatever becomes of it. -/
theorem Store.Legal.run (legal : s.Legal) (levels : Nat) (request : Request) (context : Context) :
    (request.run levels context s).2.Legal := by
  have behaved := request.decent_run levels context s (Store.orderly_any_iff.2 legal)
  generalize request.run levels context s = ended at behaved
  cases behaved with
  | ok orderly => exact orderly.legal
  | fault orderly => exact orderly.legal
  | exhausted orderly => exact orderly.legal

/-- The stores that a host and its scripts can reach from nothing. -/
inductive Store.Reached : Store → Prop where
  | start : Reached .empty
  | operate {s : Store} (op : Operation) : Reached s → Reached (op.perform s).2
  | ask {s : Store} (levels : Nat) (request : Request) (context : Context) : Reached s →
      Reached (request.run levels context s).2
  | attend {s : Store} (state : HostState) : Reached s → Reached { s with host := state }

/-- They are those that a host sees, and more. -/
theorem Hosted.reached {handed : Set ScopeId} (hosted : Hosted handed s) : s.Reached := by
  induction hosted with
  | start => exact .start
  | operate _ _ ih => exact .operate _ ih
  | ask levels context _ _ ih => exact .ask levels _ context ih
  | take _ _ ih => exact ih
  | attend state _ ih => exact .attend state ih

/-- In none of them is there a name that is not legal. -/
theorem Store.Reached.legal (reached : s.Reached) : s.Legal := by
  induction reached with
  | start => exact Store.legal_empty
  | operate op _ ih => exact ih.perform op
  | ask levels request context _ ih => exact ih.run levels request context
  | attend state _ ih => exact ih

-- ================================================================= programs

/-- A store whose functions of the host refuse no names. -/
def Store.Candid (s : Store) : Prop :=
  ∀ id, ∀ c ∈ (s.scope id).callables, ∀ function, c.body = .host function →
    ∀ args state, Nameless (function.run args state).1

theorem Store.candid_empty : Store.empty.Candid :=
  Store.forall_host_empty

/-- A host that adds such functions keeps a store candid. -/
theorem Store.Candid.perform (candid : s.Candid) (op : Operation)
    (added : ∀ id name signature returning function,
      op = .register id name signature returning function →
      ∀ args state, Nameless (function.run args state).1) :
    (op.perform s).2.Candid :=
  Store.forall_host_perform candid op added

/-- Whether a statement could not be read, for one particular reason. -/
def Stmt.carries (fault : Fault) : Stmt → Bool
  | invalid own => decide (own = fault)
  | _ => false

theorem Stmt.carries_invalid (fault : Fault) : (invalid fault).carries fault = true :=
  decide_eq_true rfl

/-- Of the faults that refuse names, those that know their lines may pass, if
they are of a certain kind. -/
def Order.naming (kind : Fault → Prop) (hangs : Stmt → Bool) : Order where
  passes fault := fault.isNaming = true → fault.line ≠ none ∧ kind fault
  hangs := hangs
  other := by
    intro fault other naming
    rw [other] at naming
    cases naming
  atLine := by
    intro fault line passes naming
    obtain ⟨known, ofKind⟩ := passes naming
    obtain ⟨own, isLine⟩ := Option.ne_none_iff_exists'.1 known
    have same : fault.atLine line = fault := by
      rw [Fault.atLine, isLine]
      exact congrArg (Fault.mk fault.cause) isLine.symm
    rw [same]
    exact ⟨known, ofKind⟩

section

variable {kind : Fault → Prop} {hangs : Stmt → Bool}

/-- A program that was read is orderly if what could not be read is. -/
theorem Block.orderly_naming {source : String} {program : Block}
    (accepted : Block.ofSource source = .ok program)
    (carried : ∀ st ∈ program.statements, ∀ fault, st.val = .invalid fault →
      hangs st.val = false → kind fault) : program.Orderly (.naming kind hangs) := by
  refine fun st mem => ⟨fun name isBound => ?_, fun ends fault invalid _ => ?_⟩
  · exact Order.tolerates_of_check (Block.bindsLegal_of_ofSource accepted st mem name isBound)
  · refine ⟨?_, carried st mem fault invalid ends⟩
    rw [(Block.lines_of_ofSource accepted st mem).2 fault invalid]
    nofun

/-- A native store holds no code that is not the host's. -/
theorem Store.IsNative.orderly (native : s.IsNative) (candid : s.Candid) (legal : s.Legal)
    {order : Order} : s.Orderly order where
  legal := legal
  callable id c mem := by
    obtain ⟨function, body⟩ := native.exists_host mem
    rw [Callable.Orderly, body]
    exact fun args state => (candid id c mem function body args state).passes
  «class» {id name c} found := by cases (native.class id name).symm.trans found

/-- What stops a decent run may pass. -/
theorem Run.Behaves.passes {α : Type} {order : Order} {post : α → Prop} {run : Run α}
    {context : Context} {fault : Fault} (behaves : Run.Behaves order post run)
    (orderly : s.Orderly order) (stopped : run context s = (.error (.fault fault), t)) :
    order.passes fault := by
  have behaved := behaves context s orderly
  rw [stopped] at behaved
  cases behaved with
  | fault _ passes => exact passes

end

variable {levels : Nat} {scope : ScopeId} {context : Context} {source : String} {program : Block}
  {fault : Fault}

/-- A program that is stopped by a refused name has a statement that carries
the fault. -/
theorem Run.exists_carrier (native : s.IsNative) (candid : s.Candid) (legal : s.Legal)
    (accepted : Block.ofSource source = .ok program) (naming : fault.isNaming = true)
    (stopped : Run.executeAt levels scope program context s = (.error (.fault fault), t)) :
    ∃ st ∈ program.statements, st.val = .invalid fault := by
  let order : Order := .naming (fun g => ∃ st ∈ program.statements, st.val = .invalid g)
    fun _ => false
  have own : program.Orderly order :=
    Block.orderly_naming accepted fun st mem g invalid _ => ⟨st, mem, invalid⟩
  have none : order.hangs = fun _ => false := rfl
  have decent := (Below.decent_upTo none levels).enter scope program own
  exact (decent.passes (native.orderly candid legal) stopped naming).2

/-- And it executes one. -/
theorem Run.executes_carrier (native : s.IsNative) (candid : s.Candid) (legal : s.Legal)
    (accepted : Block.ofSource source = .ok program) (naming : fault.isNaming = true)
    (stopped : Run.executeAt levels scope program context s = (.error (.fault fault), t)) :
    Run.Executes (Stmt.carries fault) levels scope program context s := by
  have ends : (Run.executeAt levels scope program context s).1 ≠ .error .exhausted := by
    rw [stopped]
    nofun
  refine (Run.executes_or_same ends).resolve_right fun same => ?_
  let order : Order := .naming (· ≠ fault) (Stmt.carries fault)
  have own : program.Orderly order := by
    refine Block.orderly_naming accepted fun st _ g invalid ends same => ?_
    rw [invalid, same, Stmt.carries_invalid] at ends
    cases ends
  have decent := (Below.decent_hanging order levels).enter scope program own
  exact (decent.passes (native.orderly candid legal) (same.trans stopped) naming).2 rfl

-- ================================================================ the result

namespace Interpreter

/-- **Names are legal.** Whatever the text, the names that the scanner makes
of it pass the check. Whatever a host and its scripts have done, so do all
names in the tables of the store. And where all callables are functions of the host that refuse no
names, a source fails for a name only by executing a statement that could not
be read and that carries this very fault. -/
theorem names_legal :
    (∀ (text : List Char) (tokens : List Token) (x : String), Token.scan text = .ok tokens →
      .name x ∈ tokens → Name.check x = .ok ()) ∧
    ∀ s : Store, s.Reached →
      s.Legal ∧
      (s.IsNative → s.Candid → ∀ (levels : Nat) (scope : ScopeId) (source : String)
        (context : Context) (fault : Fault) (name : String) (t : Store),
        runSource levels scope source context s = (.error (.fault fault), t) →
        fault.cause = .illegalName name →
        ∃ program, Block.ofSource source = .ok program ∧
          (∃ st ∈ program.statements, st.val = .invalid fault) ∧
          Run.Executes (Stmt.carries fault) levels scope program context s) := by
  refine ⟨fun text tokens x scanned mem => Token.check_of_scan scanned x mem,
    fun s reached => ⟨reached.legal, ?_⟩⟩
  intro native candid levels scope source context fault name t failed isName
  have naming : fault.isNaming = true := by
    unfold Fault.isNaming
    rw [isName]
  cases accepted : Block.ofSource source with
  | error refusal =>
    -- The layout of a source is never refused for a name.
    have nameless := Block.nameless_ofSource source
    rw [accepted] at nameless
    rw [runSource, accepted] at failed
    cases failed
    cases nameless with
    | error other => rw [naming] at other; cases other
  | ok program =>
    rw [runSource_of_accepted accepted] at failed
    have stopped := executeAt_of_runProgram failed
    exact ⟨program, rfl, Run.exists_carrier native candid reached.legal accepted naming stopped,
      Run.executes_carrier native candid reached.legal accepted naming stopped⟩

/-- A name that begins with a Greek letter, and a source that makes a variable
of a difference. -/
theorem names_legal_of_make :
    let source := "make x-y;"
    let fault : Fault := ⟨.illegalName "x-y", some 1⟩
    let program : Block := [⟨1, .invalid fault⟩]
    let plain : HostFunction := ⟨fun _ host => (.ok .null, host), []⟩
    let s := (Store.empty.addRoot.2.register ⟨0⟩ "print" (.any 1) false plain).2
    let context : Context := ⟨10, 0, [⟨0⟩]⟩
    Token.scan "π_1".toList = .ok [.name "π_1"] ∧ Name.check "π_1" = .ok () ∧
      s.Reached ∧ s.Legal ∧ s.IsNative ∧ s.Candid ∧
      (runSource 2 ⟨0⟩ source context s).1 = .error (.fault fault) ∧
      Block.ofSource source = .ok program ∧
      Run.Executes (Stmt.carries fault) 2 ⟨0⟩ program context s := by
  intro source fault program plain s context
  have scanned : Token.scan "π_1".toList = .ok [.name "π_1"] := by decide +kernel
  have accepted : Block.ofSource source = .ok program := by
    let text : Span := "make x-y".toList.map (⟨1, ·⟩)
    have normal : Span.normalize source = .ok ("make x-y;".toList.map (⟨1, ·⟩)) := by
      decide +kernel
    have cut : (Span.segments 0 ("make x-y;".toList.map (⟨1, ·⟩))).map
        (fun segment => (segment.form, segment.span)) = [(.instruction, text)] := by
      decide +kernel
    have refused : Stmt.readForm .instruction text = .error ⟨.illegalName "x-y", none⟩ := by
      have scanned : Token.scan text.chars =
          .ok [.keyword .make, .name "x", .mark .minus, .name "y"] := by decide +kernel
      rw [Stmt.readForm, Stmt.readInstruction, scanned]
      rfl
    rw [Block.ofSource, normal]
    refine congrArg Except.ok ?_
    rw [Stmt.readBlock_eq, cut, List.map_singleton, Stmt.readPart, refused]
    rfl
  have reached : s.Reached :=
    .operate (.register ⟨0⟩ "print" (.any 1) false plain) (.operate .root .start)
  have native : s.IsNative :=
    (Store.isNative_empty.perform .root (by simp)).perform (.register ..) (by simp)
  have candid : s.Candid := by
    refine (Store.candid_empty.perform .root (by simp)).perform
      (.register ⟨0⟩ "print" (.any 1) false plain) ?_
    rintro _ _ _ _ _ ⟨⟩ _ _
    exact .ok
  have failed : (runSource 2 ⟨0⟩ source context s).1 = .error (.fault fault) := by
    rw [runSource_of_accepted accepted]
    rfl
  obtain ⟨t, stopped⟩ : ∃ t, runSource 2 ⟨0⟩ source context s = (.error (.fault fault), t) :=
    ⟨_, Prod.ext failed rfl⟩
  obtain ⟨legal, fails⟩ := names_legal.2 s reached
  obtain ⟨program', accepted', -, executes⟩ :=
    fails native candid 2 ⟨0⟩ source context fault "x-y" t stopped rfl
  cases accepted.symm.trans accepted'
  exact ⟨scanned, names_legal.1 _ _ _ scanned List.mem_cons_self, reached, legal, native, candid,
    failed, accepted, executes⟩

end Interpreter

end RoutineScript
