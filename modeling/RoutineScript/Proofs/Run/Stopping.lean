/-
Which statement stops a program, and on which line.

A program is stopped by one of its own statements, after those in front of it
have been executed (`Run.StopsAt`). The fault stands on a line of that
statement or of one further in, which may be anywhere in the source: in a
block of the statement, or in a definition that it calls.

If nothing is further in, it is the line of the statement itself. That a
statement calls no definition and constructs nothing is said by means of
levels. Both take a level of their own, so they have not happened if the
statement comes to its end on a single one (`Run.StaysOnLevel`).
-/
import RoutineScript.Proofs.Run.Limits
import RoutineScript.Proofs.Run.Located

namespace RoutineScript

variable {lines : Nat → Prop}

-- ================================================================== levels

/-- Lost patience is told no line. -/
theorem Halt.exhausted_atLine {fault : Fault} (line : Nat)
    (exhausted : Halt.fault fault = .exhausted) : Halt.fault (fault.atLine line) = .exhausted := by
  cases exhausted

/-- A run next to one of more levels. Only lost patience cuts it short. -/
def Pace.more : Pace fun _ => true where
  fits n m c c' := n ≤ m ∧ c' = c
  cuts halt := halt = .exhausted
  inStep := False
  together := nofun
  live := by
    rintro n m c c' ⟨-, rfl⟩ s id
    rfl
  hold := by
    rintro n m c c' ids ⟨levels, rfl⟩
    exact ⟨levels, rfl⟩
  tooDeep := by
    rintro n m c c' ⟨-, rfl⟩ tooDeep
    exact .inr ⟨tooDeep, rfl⟩
  descend := by
    rintro n m c c' ⟨levels, rfl⟩ room
    refine ⟨room, ?_⟩
    cases n with
    | zero => exact .inl ⟨rfl, rfl⟩
    | succ n => exact .inr ⟨n, m - 1, rfl, by omega, by omega, rfl⟩
  loops := by
    rintro n m c c' condition body - ⟨levels, -⟩
    exact ⟨rfl, levels⟩
  apart := by
    rintro n m c c' body - ⟨levels, rfl⟩
    exact ⟨levels, rfl⟩
  handles := by
    intro statement _ _ fault cut
    cases cut
  onLine := @Halt.exhausted_atLine

namespace Run

/-- A program that comes to its end does so on any more levels. -/
theorem executeAt_of_le {levels levels' : Nat} {scope : ScopeId} {program : Block}
    {context : Context} {s : Store} (le : levels ≤ levels')
    (patient : (executeAt levels scope program context s).1 ≠ .error .exhausted) :
    executeAt levels' scope program context s = executeAt levels scope program context s := by
  cases levels with
  | zero => exact absurd rfl patient
  | succ n =>
    obtain ⟨m, rfl⟩ : ∃ m, levels' = m + 1 := ⟨levels' - 1, by omega⟩
    have all : ∀ statement : Stmt, (fun _ => true) statement = true := fun _ => rfl
    have kept := safe_executeAt (Law.trivial _) Pace.more (Below.lawful_upTo _ _ n m) scope
      (Stmt.blockEverywhere_of_forall all program) context context s ⟨by omega, rfl⟩
      (Store.written_of_forall all s) trivial
    generalize executeAt (n + 1) scope program context s = ended,
      executeAt (m + 1) scope program context s = ended' at kept patient
    cases kept with
    | ok => rfl
    | fault => rfl
    | cut _ _ cut => exact absurd (congrArg Except.error cut) patient

end Run

-- =================================================================== blocks

namespace Below

variable {below : Below} {patience : Nat} {scope : ScopeId} {context : Context} {s t : Store}

/-- A block goes on behind a statement that has finished. -/
theorem executeBlock_cons_apply (line : Nat) (statement : Stmt) (rest : Block) :
    below.executeBlock patience scope (⟨line, statement⟩ :: rest) context s =
      match Run.onLine line (below.execute patience scope statement) context s with
      | (.ok .finished, u) => below.executeBlock patience scope rest context u
      | (.ok (.returned v), u) => (.ok (.returned v), u)
      | (.error halt, u) => (.error halt, u) := by
  rw [executeBlock, Run.bind_apply]
  rcases Run.onLine line _ context s with ⟨_ | _ | _, u⟩ <;> rfl

/-- A block that is stopped is stopped by one of its statements, after those
in front of it have been executed. -/
theorem executeBlock_eq_error_iff {block : Block} {halt : Halt} :
    below.executeBlock patience scope block context s = (.error halt, t) ↔
      ∃ front here back u, block = front ++ here :: back ∧
        below.executeBlock patience scope front context s = (.ok .finished, u) ∧
        below.executeBlock patience scope [here] context u = (.error halt, t) := by
  induction block generalizing s with
  | nil =>
    refine ⟨nofun, ?_⟩
    rintro ⟨front, here, back, u, split, -⟩
    cases front <;> cases split
  | cons first rest ih =>
    obtain ⟨line, statement⟩ := first
    constructor
    · intro stopped
      rw [executeBlock_cons_apply] at stopped
      split at stopped
      · next u first =>
        obtain ⟨front, here, back, v, rfl, reached, stops⟩ := ih.1 stopped
        refine ⟨⟨line, statement⟩ :: front, here, back, v, rfl, ?_, stops⟩
        rw [executeBlock_cons_apply, first]
        exact reached
      · cases stopped
      · next first =>
        cases stopped
        refine ⟨[], ⟨line, statement⟩, rest, s, rfl, rfl, ?_⟩
        rw [executeBlock_cons_apply, first]
    · rintro ⟨front, here, back, u, split, reached, stops⟩
      cases front with
      | nil =>
        cases split
        cases reached
        rw [executeBlock_cons_apply] at stops ⊢
        split at stops
        · cases stops
        · cases stops
        · exact stops
      | cons first front =>
        cases split
        rw [executeBlock_cons_apply] at reached ⊢
        split at reached
        · exact ih.2 ⟨front, here, back, u, rfl, reached, stops⟩
        · cases reached
        · cases reached

end Below

-- ================================================================= programs

namespace Run

/-- Where a program stops: at one of its own statements, in the store in which
those in front of it have left it. -/
structure StopsAt (levels : Nat) (scope : ScopeId) (program : Block) (context : Context)
    (s : Store) (here : Located Stmt) (u : Store) : Prop where
  reached : ∃ front back, program = front ++ here :: back ∧
    executeAt levels scope front context s = (.ok .finished, u)
  stops : ∃ halt t, executeAt levels scope [here] context u = (.error halt, t)

/-- On the level where it stands, a statement comes to its end. So it calls no
definition and constructs nothing, for both take a level of their own. -/
def StaysOnLevel (scope : ScopeId) (here : Located Stmt) (context : Context) (u : Store) : Prop :=
  (executeAt 1 scope [here] context u).1 ≠ .error .exhausted

variable {scope : ScopeId} {program : Block} {context : Context} {s t u : Store}
  {here : Located Stmt} {fault : Fault}

/-- A program that is stopped is stopped by one of its statements. -/
theorem exists_stopsAt {halt : Halt} (n : Nat)
    (stopped : executeAt (n + 1) scope program context s = (.error halt, t)) :
    ∃ here u, StopsAt (n + 1) scope program context s here u := by
  obtain ⟨front, here, back, u, split, reached, stops⟩ :=
    Below.executeBlock_eq_error_iff.1 stopped
  exact ⟨here, u, ⟨front, back, split, reached⟩, halt, t, stops⟩

/-- The whole program ends as the statement does that stops it. -/
theorem StopsAt.eq {ended : Except Halt Flow × Store} {n : Nat}
    (stopsAt : StopsAt (n + 1) scope program context s here u)
    (ends : executeAt (n + 1) scope program context s = ended) :
    executeAt (n + 1) scope [here] context u = ended := by
  obtain ⟨front, back, split, reached⟩ := stopsAt.reached
  obtain ⟨halt, t, stops⟩ := stopsAt.stops
  have stopped := Below.executeBlock_eq_error_iff.2 ⟨front, here, back, u, split, reached, stops⟩
  exact stops.trans (stopped.symm.trans ends)

/-- On a single level, what a statement without blocks fails with has its line. -/
theorem raises_alone (scope : ScopeId) (leaf : here.val.isLeaf = true)
    (inside : Stmt.AllOn lines here.val.within)
    (invalid : ∀ fault, here.val = .invalid fault → fault.line = some here.line) :
    Raises lines (Fault.StandsOn (· = here.line)) (executeAt 1 scope [here]) := by
  have executed : Raises lines (Fault.StandsOn (· = here.line))
      (onLine here.line ((Below.upTo 0).execute 0 scope here.val)) :=
    ends_onLine rfl (Below.raises_leaf (Below.passes_upTo_zero lines _) 0 scope leaf inside
      fun fault same => ⟨here.line, invalid fault same, rfl⟩)
  rw [executeAt]
  refine ends_holding (raises_bind executed fun flow => ?_)
  cases flow <;> exact raises_pure

/-- The fault of a statement with nothing further in has its line. -/
theorem line_of_alone {levels : Nat} (lined : u.Lined lines) (leaf : here.val.isLeaf = true)
    (inside : Stmt.AllOn lines here.val.within)
    (invalid : ∀ fault, here.val = .invalid fault → fault.line = some here.line)
    (stays : StaysOnLevel scope here context u)
    (stopped : executeAt (levels + 1) scope [here] context u = (.error (.fault fault), t)) :
    fault.line = some here.line := by
  have ended := raises_alone scope leaf inside invalid context u lined
  rw [← executeAt_of_le (Nat.le_add_left 1 levels) stays, stopped] at ended
  cases ended with
  | fault _ stands =>
    obtain ⟨_, known, rfl⟩ := stands
    exact known

/-- If what stops a program has nothing further in, the fault has its line. -/
theorem StopsAt.line_of_leaf {n : Nat} (stopsAt : StopsAt (n + 1) scope program context s here u)
    (lined : s.Lined lines) (own : program.Lined lines)
    (invalid : ∀ st ∈ program.statements, ∀ fault, st.val = .invalid fault →
      fault.line = some st.line)
    (leaf : here.val.isLeaf = true) (stays : StaysOnLevel scope here context u)
    (stopped : executeAt (n + 1) scope program context s = (.error (.fault fault), t)) :
    fault.line = some here.line := by
  have stops := stopsAt.eq stopped
  obtain ⟨front, back, rfl, reached⟩ := stopsAt.reached
  have isHere : here ∈ front ++ here :: back := by simp
  have inFront : Block.Lined lines front := own.mono fun st mem => by
    obtain ⟨top, isTop, within⟩ := Stmt.mem_blockStatements.1 mem
    exact Stmt.mem_blockStatements.2 ⟨top, List.mem_append_left _ isTop, within⟩
  have inside : Stmt.AllOn lines here.val.within := own.mono fun st mem =>
    Stmt.mem_blockStatements.2 ⟨here, isHere, .inr mem⟩
  have isStatement := Stmt.mem_blockStatements.2 ⟨here, isHere, .inl rfl⟩
  have ended := raises_executeAt (Below.passes_upTo lines n) scope inFront context s lined
  rw [reached] at ended
  cases ended with
  | ok lined => exact line_of_alone lined leaf inside (invalid here isStatement) stays stops

end Run

-- ================================================================ the result

namespace Interpreter

variable {source : String} {s t : Store} {fault : Fault}

theorem runSource_of_accepted {program : Block} (accepted : Block.ofSource source = .ok program)
    (levels : Nat) (scope : ScopeId) :
    runSource levels scope source = runProgram levels scope program := by
  rw [runSource, accepted]
  rfl

theorem executeAt_of_runProgram {levels : Nat} {scope : ScopeId} {program : Block}
    {context : Context} {halt : Halt}
    (failed : runProgram levels scope program context s = (.error halt, t)) :
    Run.executeAt levels scope program context s = (.error halt, t) := by
  rw [runProgram, Run.bind_apply] at failed
  cases stopped : Run.executeAt levels scope program context s with
  | mk result u =>
    rw [stopped] at failed
    cases result with
    | ok flow => cases failed
    | error halt =>
      cases failed
      rfl

/-- **Every fault is located.** Where all callables are functions of the host
whose faults know no line, a source fails with a fault on one of its lines. If
it could be read, one of its statements stands there, at some depth. And if
the top-level statement at which it stops executes no block, calls no
definition and constructs nothing, the line is that of this statement. -/
theorem runSource_located {levels : Nat} {scope : ScopeId} {context : Context}
    (native : s.IsNative) (silent : s.Silent)
    (failed : runSource levels scope source context s = (.error (.fault fault), t)) :
    ∃ line, fault.line = some line ∧ 1 ≤ line ∧ line ≤ 1 + source.toList.count '\n' ∧
      ∀ program, Block.ofSource source = .ok program →
        (∃ st ∈ program.statements, st.line = line) ∧
        (∃ here u, Run.StopsAt levels scope program context s here u) ∧
        ∀ here u, Run.StopsAt levels scope program context s here u → here.val.isLeaf = true →
          Run.StaysOnLevel scope here context u → line = here.line := by
  cases accepted : Block.ofSource source with
  | error fault' =>
    rw [runSource, accepted] at failed
    cases failed
    obtain ⟨line, known, first, last⟩ := Block.line_of_refused accepted
    exact ⟨line, known, first, last, fun program same => by cases same⟩
  | ok program =>
    rw [runSource_of_accepted accepted] at failed
    cases levels with
    | zero => cases failed
    | succ n =>
      have stopped := executeAt_of_runProgram failed
      let lines : Nat → Prop := fun line => (1 ≤ line ∧ line ≤ 1 + source.toList.count '\n') ∧
        ∃ st ∈ program.statements, st.line = line
      have read := Block.lines_of_ofSource accepted
      have own : program.Lined lines := fun st mem =>
        have stands : lines st.line := ⟨(read st mem).1, st, mem, rfl⟩
        ⟨stands, fun fault same => ⟨st.line, (read st mem).2 fault same, stands⟩⟩
      have lined : s.Lined lines := native.lined silent
      obtain ⟨line, known, within, isStatement⟩ := Run.standsOn_of_stopped lined own stopped
      refine ⟨line, known, within.1, within.2, ?_⟩
      rintro _ ⟨⟩
      refine ⟨isStatement, Run.exists_stopsAt n stopped, fun here u stopsAt leaf stays => ?_⟩
      have isLine := stopsAt.line_of_leaf lined own (fun st mem => (read st mem).2) leaf stays
        stopped
      exact Option.some.inj (known.symm.trans isLine)

/-- A program that fails in its second statement, on the second line. -/
theorem runSource_located_of_unknown :
    let source := "make x;\ndel y;"
    let program : Block := [⟨1, .make "x"⟩, ⟨2, .delete (.name "y")⟩]
    let silent : HostFunction := ⟨fun _ host => (.ok .null, host), []⟩
    let s := (Store.empty.addRoot.2.register ⟨0⟩ "print" (.any 1) false silent).2
    let context : Context := ⟨10, 0, [⟨0⟩]⟩
    let u := (Run.executeAt 2 ⟨0⟩ [⟨1, .make "x"⟩] context s).2
    let ended := runSource 2 ⟨0⟩ source context s
    let here : Located Stmt := ⟨2, .delete (.name "y")⟩
    Block.ofSource source = .ok program ∧ s.IsNative ∧ s.Silent ∧
      ended.1 = .error (.fault ⟨.notFound "y", some 2⟩) ∧
      Run.StopsAt 2 ⟨0⟩ program context s here u ∧ Run.StaysOnLevel ⟨0⟩ here context u ∧
      ∃ line, some 2 = some line ∧ 1 ≤ line ∧ line ≤ 1 + source.toList.count '\n' ∧
        (∃ st ∈ program.statements, st.line = line) ∧ line = here.line := by
  intro source program silent s context u ended here
  have accepted : Block.ofSource source = .ok program := by
    let first : Span := "make x".toList.map (⟨1, ·⟩)
    let second : Span := "del y".toList.map (⟨2, ·⟩)
    let text : Span := "make x;;".toList.map (⟨1, ·⟩) ++ "del y;".toList.map (⟨2, ·⟩)
    have normal : Span.normalize source = .ok text := by decide +kernel
    have cut : (text.segments 0).map (fun segment => (segment.form, segment.span)) =
        [(.instruction, first), (.instruction, second)] := by decide +kernel
    have make : Stmt.readForm .instruction first = .ok (.make "x") := by
      have scanned : Token.scan first.chars = .ok [.keyword .make, .name "x"] := by decide +kernel
      rw [Stmt.readForm, Stmt.readInstruction, scanned]
      rfl
    have del : Stmt.readForm .instruction second = .ok (.delete (.name "y")) := by
      have scanned : Token.scan second.chars = .ok [.keyword .del, .name "y"] := by decide +kernel
      rw [Stmt.readForm, Stmt.readInstruction, scanned]
      rfl
    rw [Block.ofSource, normal]
    refine congrArg Except.ok ?_
    rw [Stmt.readBlock_eq, cut, List.map_cons, List.map_singleton, Stmt.readPart_of_ok make,
      Stmt.readPart_of_ok del]
    rfl
  have native : s.IsNative :=
    (Store.isNative_empty.perform .root (by simp)).perform (.register ..) (by simp)
  have quiet : s.Silent := by
    refine (Store.silent_empty.perform .root (by simp)).perform
      (.register ⟨0⟩ "print" (.any 1) false silent) ?_
    rintro _ _ _ _ _ ⟨⟩
    exact fun args state => .ok trivial
  have same : ended = runProgram 2 ⟨0⟩ program context s :=
    congrFun (congrFun (runSource_of_accepted accepted 2 ⟨0⟩) context) s
  have failed : ended.1 = .error (.fault ⟨.notFound "y", some 2⟩) := by
    rw [same]
    decide +kernel
  have stopsAt : Run.StopsAt 2 ⟨0⟩ program context s here u := by
    refine ⟨⟨[⟨1, .make "x"⟩], [], rfl, ?_⟩, ?_⟩
    · exact Prod.ext (by rfl) rfl
    · exact ⟨.fault ⟨.notFound "y", some 2⟩, _, Prod.ext (by rfl) rfl⟩
  have stays : Run.StaysOnLevel ⟨0⟩ here context u := by
    have stops : (Run.executeAt 1 ⟨0⟩ [here] context u).1 =
        .error (.fault ⟨.notFound "y", some 2⟩) := by rfl
    rw [Run.StaysOnLevel, stops]
    intro exhausted
    cases exhausted
  have run : runSource 2 ⟨0⟩ source context s = ended := rfl
  clear_value ended
  obtain ⟨r, t⟩ := ended
  cases failed
  obtain ⟨line, known, first, last, all⟩ := runSource_located native quiet run
  obtain ⟨isStatement, -, own⟩ := all program accepted
  exact ⟨accepted, native, quiet, rfl, stopsAt, stays, line, known, first, last, isStatement,
    own here u stopsAt rfl stays⟩

end Interpreter

end RoutineScript
