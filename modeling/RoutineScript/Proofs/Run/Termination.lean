/-
Runs without loops of unknown length end.

A script can nest calls in many ways: functions that call each other, classes
that construct objects of themselves, constructors that call `super`. None of
them nests calls deeper than the limit, and each call uses one level; all
other loops count their rounds before the first one. So a run has no use for
more levels than the limit, and with that many it never runs out of patience:
it ends with a value or with a fault, and the levels do not show.
-/
import RoutineScript.Proofs.Run.Lawful
import RoutineScript.Proofs.Printing.Program

namespace RoutineScript

-- ================================================================ statements

/-- A statement that neither repeats something for as long as a condition
holds nor begins a thread, which would count its calls anew. -/
def Stmt.isBounded : Stmt → Bool
  | whileLoop .. | thread .. => false
  | _ => true

-- ===================================================================== laws

/-- The law that asks for nothing. -/
def Law.trivial (allows : Stmt → Bool) : Law allows where
  inv _ := True
  isNew _ := True
  change _ _ _ := True.intro
  born _ := True.intro
  join _ _ _ _ _ _ _ := True.intro

/-- Runs with levels enough for all calls that may still be nested. None of
them is cut short. -/
def Pace.ample : Pace Stmt.isBounded where
  fits n m c c' := c' = c ∧ c.limit ≤ c.depth + n ∧ c.limit ≤ c.depth + m
  cuts _ := False
  inStep := False
  together := nofun
  live := by
    rintro n m c c' ⟨rfl, -⟩ s id
    rfl
  hold := by
    rintro n m c c' ids ⟨rfl, ample⟩
    exact ⟨rfl, ample⟩
  tooDeep := by
    rintro n m c c' ⟨rfl, -⟩ tooDeep
    exact .inr ⟨tooDeep, rfl⟩
  descend := by
    rintro n m c c' ⟨rfl, enough, enough'⟩ room
    refine ⟨room, .inr ⟨n - 1, m - 1, by omega, by omega, rfl, ?_, ?_⟩⟩
    · dsimp only
      omega
    · dsimp only
      omega
  loops := by
    intro n m c c' condition body allowed
    cases allowed
  apart := by
    intro n m c c' body allowed
    cases allowed
  handles _ _ _ := id
  onLine _ := id

-- ================================================================ the result

/-- With more levels than the limit, a bounded program ends, and the levels
make no difference. -/
theorem Run.executeAt_terminates {program : Block} {s : Store} (scope : ScopeId)
    (limit : Nat) (held : List ScopeId) (bounded : program.everywhere Stmt.isBounded = true)
    (written : s.Written Stmt.isBounded) :
    ∃ ended : Except Halt Flow × Store, ended.1 ≠ .error .exhausted ∧
      ∀ levels, limit < levels → executeAt levels scope program ⟨limit, 0, held⟩ s = ended := by
  have safe : ∀ m, limit ≤ m →
      Law.Kept (Law.trivial Stmt.isBounded) Pace.ample (fun _ => True)
        (executeAt (limit + 1) scope program ⟨limit, 0, held⟩ s)
        (executeAt (m + 1) scope program ⟨limit, 0, held⟩ s) := by
    intro m enough
    have fits : Pace.ample.fits limit m ⟨limit, 0, held⟩ ⟨limit, 0, held⟩ :=
      ⟨rfl, by simp, by simpa using enough⟩
    exact safe_executeAt _ _ (Below.lawful_upTo _ _ limit m) scope bounded _ _ s fits written
      trivial
  refine ⟨executeAt (limit + 1) scope program ⟨limit, 0, held⟩ s, ?_, ?_⟩
  · intro stopped
    have kept := safe limit (Nat.le_refl limit)
    generalize executeAt (limit + 1) scope program ⟨limit, 0, held⟩ s = ended at stopped kept
    cases kept with
    | ok => cases stopped
    | fault => cases stopped
    | cut _ _ cut => exact cut
  · intro levels more
    obtain ⟨m, rfl⟩ : ∃ m, levels = m + 1 := ⟨levels - 1, by omega⟩
    have kept := safe m (by omega)
    generalize executeAt (limit + 1) scope program ⟨limit, 0, held⟩ s = ended,
      executeAt (m + 1) scope program ⟨limit, 0, held⟩ s = ended' at kept
    cases kept with
    | ok => rfl
    | fault => rfl
    | cut _ _ cut => exact cut.elim

namespace Interpreter

/-- **Runaway recursion ends.** Whatever the limit, a source without loops
that may run for ever and without threads ends in a store of host functions,
with success or with a fault, and with any number of levels above the limit
it ends in the same way. -/
theorem runSource_terminates {source : String} {program : Block} {s : Store} (scope : ScopeId)
    (limit : Nat) (held : List ScopeId) (accepted : Block.ofSource source = .ok program)
    (bounded : program.everywhere Stmt.isBounded = true) (native : s.IsNative) :
    ∃ ended : Except Halt Unit × Store, ended.1 ≠ .error .exhausted ∧
      ∀ levels, limit < levels → runSource levels scope source ⟨limit, 0, held⟩ s = ended := by
  obtain ⟨⟨r, t⟩, ends, same⟩ :=
    Run.executeAt_terminates scope limit held bounded (native.written Stmt.isBounded)
  refine ⟨(r.map fun _ => (), t), ?_, fun levels more => ?_⟩
  · cases r with
    | ok flow => nofun
    | error halt =>
      intro stopped
      cases stopped
      exact ends rfl
  · rw [runSource, accepted]
    show (runProgram levels scope program) ⟨limit, 0, held⟩ s = _
    rw [runProgram, Run.bind_apply, same levels more]
    cases r <;> rfl

/-- A class whose objects construct objects of the same class, without end. -/
theorem runSource_terminates_of_selfConstructing :
    let source := "class A\x7bx=new A();\x7d;a=new A();"
    let program : Block :=
      [⟨1, .declareClass "A" none [⟨1, .assign (.name "x") (.new "A" [])⟩]⟩,
        ⟨1, .assign (.name "a") (.new "A" [])⟩]
    let silent : HostFunction := ⟨fun _ host => (.ok .null, host), []⟩
    let s := (Store.empty.addRoot.2.register ⟨0⟩ "print" (.any 1) false silent).2
    Block.ofSource source = .ok program ∧ program.everywhere Stmt.isBounded = true ∧
      s.IsNative ∧ ∀ limit, ∃ ended : Except Halt Unit × Store, ended.1 ≠ .error .exhausted ∧
        ∀ levels, limit < levels → runSource levels ⟨0⟩ source ⟨limit, 0, [⟨0⟩]⟩ s = ended := by
  intro source program silent s
  have accepted : Block.ofSource source = .ok program := by
    let sp : Spelling := ⟨'"', rfl, fun _ => []⟩
    have isName : ∀ x ∈ ["A", "a", "x"], IsName x := by
      have reads : ∀ {x : String}, Token.IsWord x.toList → Token.ofWord x = .name x →
          sp.Reads (.name x) := reads_name
      intro x mem
      simp only [List.mem_cons, List.not_mem_nil, or_false] at mem
      rcases mem with rfl | rfl | rfl <;>
        exact ⟨reads ⟨_, _, rfl, by decide, List.all_eq_true.1 (by decide)⟩ (by decide), by decide⟩
    have printable : Stmt.BlockPrintable sp program :=
      ⟨⟨isName _ (by simp), ⟨isName _ (by simp), isName _ (by simp), trivial⟩, trivial⟩,
        ⟨isName _ (by simp), isName _ (by simp), trivial⟩, trivial⟩
    have whole := Stmt.whole_blockTokens program printable
    have printed : source = program.print sp := by decide +kernel
    rw [printed, Block.ofSource, Block.print, normalize_render whole.closedOff whole.reads whole.fit]
    exact congrArg Except.ok (Stmt.readBlock_of_parts printable (Stmt.readPart_tokens _ printable))
  have bounded : program.everywhere Stmt.isBounded = true := by decide +kernel
  have native : s.IsNative :=
    (Store.isNative_empty.perform .root (by simp)).perform (.register ..) (by simp)
  exact ⟨accepted, bounded, native, fun limit =>
    runSource_terminates ⟨0⟩ limit [⟨0⟩] accepted bounded native⟩

end Interpreter

end RoutineScript
