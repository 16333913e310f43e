/-
What a limit on nested calls does to a run: it cuts the run short, or nothing.

A script notices the limit in one way only. A call that is too deep fails, and
if nothing handles that fault, it is what the whole run ends with. So a run
that ends in any other way has never met its limit, and with a higher limit,
and as many levels or more, it goes exactly the same way: the two runs take
each of their steps together (`Pace.raised`), until the first of them is cut
short.

Statements that handle faults are left out. An attempt goes on where its body
was cut short, and so does the script around a thread.
-/
import RoutineScript.Proofs.Run.Lawful
import RoutineScript.Proofs.Run.Termination

namespace RoutineScript

-- ================================================================ statements

/-- A statement that handles no faults. -/
def Stmt.passesFaults : Stmt → Bool
  | attempt .. | thread .. => false
  | _ => true

-- ================================================================ cut short

deriving instance DecidableEq for Halt

/-- A halt that a limit may have caused: calls nested too deep, or lost
patience. -/
inductive Halt.CutsShort : Halt → Prop where
  | exhausted : CutsShort .exhausted
  | tooDeep (limit : Nat) (line : Option Nat) : CutsShort (.fault ⟨.depthExceeded limit, line⟩)

/-- A run next to one with a higher limit, and with as many levels or more. -/
def Pace.raised : Pace Stmt.passesFaults where
  fits n m c c' := n ≤ m ∧ c'.held = c.held ∧ c'.depth = c.depth ∧ c.limit ≤ c'.limit
  cuts := Halt.CutsShort
  inStep := False
  together := nofun
  live := by
    rintro n m c c' ⟨-, held, -⟩ s id
    rw [held]
  hold := by
    rintro n m c c' ids ⟨levels, held, depth, limit⟩
    exact ⟨levels, congrArg (ids ++ ·) held, depth, limit⟩
  tooDeep := by
    intro n m c c' _ _
    exact .inl ⟨id, .tooDeep c.limit none⟩
  descend := by
    rintro n m c c' ⟨levels, held, depth, limit⟩ room
    refine ⟨by omega, ?_⟩
    cases n with
    | zero => exact .inl ⟨rfl, .exhausted⟩
    | succ n =>
      refine .inr ⟨n, m - 1, rfl, by omega, by omega, held, ?_, limit⟩
      exact congrArg (· + 1) depth
  loops := by
    rintro n m c c' condition body - ⟨levels, -⟩
    exact ⟨.exhausted, levels⟩
  apart := by
    intro n m c c' body allowed
    cases allowed
  handles := by
    rintro statement allowed (⟨body, handler, rfl⟩ | ⟨body, rfl⟩) <;> cases allowed
  onLine := by
    rintro _ line ⟨⟩
    exact .tooDeep _ _

-- ================================================================ the result

/-- A run that its limit has not cut short goes the same way under a higher
limit, in any store with code of this kind. -/
theorem Run.executeAt_of_limit_le {program : Block} {s t : Store} {r : Except Halt Flow}
    {levels levels' limit limit' depth : Nat} (scope : ScopeId) (held : List ScopeId)
    (passes : program.everywhere Stmt.passesFaults = true) (written : s.Written Stmt.passesFaults)
    (raised : limit ≤ limit') (more : levels ≤ levels')
    (ended : executeAt levels scope program ⟨limit, depth, held⟩ s = (r, t))
    (uncut : ∀ halt, r = .error halt → ¬halt.CutsShort) :
    executeAt levels' scope program ⟨limit', depth, held⟩ s = (r, t) := by
  cases levels with
  | zero =>
    cases ended
    exact absurd .exhausted (uncut .exhausted rfl)
  | succ n =>
    obtain ⟨m, rfl⟩ : ∃ m, levels' = m + 1 := ⟨levels' - 1, by omega⟩
    have fits : Pace.raised.fits n m ⟨limit, depth, held⟩ ⟨limit', depth, held⟩ :=
      ⟨by omega, rfl, rfl, raised⟩
    have kept := safe_executeAt (Law.trivial Stmt.passesFaults) Pace.raised
      (Below.lawful_upTo _ _ n m) scope passes _ _ s fits written trivial
    rw [ended] at kept
    generalize executeAt (m + 1) scope program ⟨limit', depth, held⟩ s = ended' at kept
    cases kept with
    | ok => rfl
    | fault => rfl
    | cut _ _ cut => exact absurd cut (uncut _ rfl)

namespace Interpreter

/-- **A limit only cuts runs short.** In a store of host functions, a program
without attempts and threads that ends under some limit, with success or with
any fault but that of calls nested too deep, ends under every higher limit in
the same way and in the same store. -/
theorem runProgram_of_limit_le {program : Block} {s t : Store} {r : Except Halt Unit}
    {levels limit limit' : Nat} (scope : ScopeId) (held : List ScopeId)
    (passes : program.everywhere Stmt.passesFaults = true) (native : s.IsNative)
    (raised : limit ≤ limit')
    (ended : runProgram levels scope program ⟨limit, 0, held⟩ s = (r, t))
    (uncut : ∀ halt, r = .error halt → ¬halt.CutsShort) :
    ∀ levels', levels ≤ levels' →
      runProgram levels' scope program ⟨limit', 0, held⟩ s = (r, t) := by
  intro levels' more
  rw [runProgram, Run.bind_apply] at ended ⊢
  cases inner : Run.executeAt levels scope program ⟨limit, 0, held⟩ s with
  | mk flow u =>
    rw [inner] at ended
    have same := Run.executeAt_of_limit_le scope held passes (native.written _) raised more inner
    cases flow with
    | ok flow =>
      have uncut' : ∀ halt, (.ok flow : Except Halt Flow) = .error halt → ¬halt.CutsShort := by
        intro halt isHalt
        cases isHalt
      rw [same uncut']
      exact ended
    | error halt =>
      cases ended
      have uncut' : ∀ halt', (.error halt : Except Halt Flow) = .error halt' → ¬halt'.CutsShort := by
        rintro _ ⟨⟩
        exact uncut halt rfl
      rw [same uncut']

/-- A program that calls a definition and then fails, under the lowest limit
that allows the call. -/
theorem runProgram_of_limit_le_of_failing :
    let program : Block :=
      [⟨1, .define "f" [] [⟨1, .assign (.name "x") (.bool true)⟩]⟩, ⟨2, .make "x"⟩,
        ⟨3, .call (.name "f") []⟩, ⟨4, .call (.name "ghost") []⟩]
    let silent : HostFunction := ⟨fun _ host => (.ok .null, host), []⟩
    let s := (Store.empty.addRoot.2.register ⟨0⟩ "print" (.any 1) false silent).2
    let ended := runProgram 2 ⟨0⟩ program ⟨1, 0, [⟨0⟩]⟩ s
    program.everywhere Stmt.passesFaults = true ∧ s.IsNative ∧
      ended.1 = .error (.fault ⟨.notFound "ghost", some 4⟩) ∧
      ∀ limit', 1 ≤ limit' → ∀ levels', 2 ≤ levels' →
        runProgram levels' ⟨0⟩ program ⟨limit', 0, [⟨0⟩]⟩ s = ended := by
  intro program silent s ended
  have passes : program.everywhere Stmt.passesFaults = true := by decide +kernel
  have native : s.IsNative :=
    (Store.isNative_empty.perform .root (by simp)).perform (.register ..) (by simp)
  have failed : ended.1 = .error (.fault ⟨.notFound "ghost", some 4⟩) := by decide +kernel
  have run : runProgram 2 ⟨0⟩ program ⟨1, 0, [⟨0⟩]⟩ s = ended := rfl
  clear_value ended
  obtain ⟨r, t⟩ := ended
  have uncut : ∀ halt, r = .error halt → ¬halt.CutsShort := by
    rintro halt isHalt cut
    cases failed.symm.trans isHalt
    cases cut
  exact ⟨passes, native, failed, fun limit' raised =>
    runProgram_of_limit_le ⟨0⟩ [⟨0⟩] passes native raised run uncut⟩

end Interpreter

end RoutineScript
