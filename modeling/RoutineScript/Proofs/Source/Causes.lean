/-
What is refused for its name, and what never is.

A name is refused where it would be bound, by the check of names, and where a
statement is read that has no name in a place for one. The layout of a source,
operators and lookups fail for other reasons. Nor can an operator, which sees
values, tell where its fault stands (`Elementary`). `FailsOnly` speaks of the
fault of a result, if it is one, and the lemmas follow the functions: a result
fails only so because the results do that it is made of.
-/
import RoutineScript.Proofs.Source.Acceptance
import RoutineScript.Proofs.Source.Refusals
import RoutineScript.Value.Operate

namespace RoutineScript

/-- Whether a fault refuses a name. -/
def Fault.isNaming (fault : Fault) : Bool :=
  match fault.cause with
  | .illegalName _ => true
  | _ => false

-- ================================================================== results

/-- A result whose fault, if it is one, has a property. -/
inductive FailsOnly (passes : Fault → Prop) {α : Type} : Except Fault α → Prop where
  | ok {a : α} : FailsOnly passes (.ok a)
  | error {fault : Fault} : passes fault → FailsOnly passes (.error fault)

/-- A result that refuses no name. -/
abbrev Nameless {α : Type} (result : Except Fault α) : Prop :=
  FailsOnly (fun fault => fault.isNaming = false) result

/-- A result whose fault, if it is one, knows no line and refuses no name. -/
abbrev Elementary {α : Type} (result : Except Fault α) : Prop :=
  FailsOnly (fun fault => fault.line = none ∧ fault.isNaming = false) result

section

variable {α β : Type} {passes passes' : Fault → Prop} {result : Except Fault α}

theorem failsOnly_of_forall (all : ∀ fault, passes fault) (result : Except Fault α) :
    FailsOnly passes result := by
  cases result with
  | ok => exact .ok
  | error fault => exact .error (all fault)

theorem FailsOnly.mono (fails : FailsOnly passes result)
    (weaker : ∀ fault, passes fault → passes' fault) : FailsOnly passes' result := by
  cases fails with
  | ok => exact .ok
  | error own => exact .error (weaker _ own)

theorem FailsOnly.bind {next : α → Except Fault β} (first : FailsOnly passes result)
    (second : ∀ a, FailsOnly passes (next a)) : FailsOnly passes (result >>= next) := by
  cases first with
  | ok => exact second _
  | error own => exact .error own

theorem FailsOnly.map (f : α → β) (fails : FailsOnly passes result) :
    FailsOnly passes (result.map f) := by
  cases fails with
  | ok => exact .ok
  | error own => exact .error own

theorem FailsOnly.unlocated (fails : FailsOnly (·.line = none) result) : Unlocated result := by
  cases fails with
  | ok => exact .ok trivial
  | error unknown => exact .refused unknown

theorem Reads.failsOnly {post : α → Prop} (reads : Reads post result) :
    FailsOnly (·.line = none) result := by
  cases reads with
  | ok => exact .ok
  | refused unknown => exact .error unknown

theorem Elementary.unlocated (elementary : Elementary result) : Unlocated result :=
  (elementary.mono fun _ => And.left).unlocated

theorem Elementary.nameless (elementary : Elementary result) : Nameless result :=
  elementary.mono fun _ => And.right

end

-- =================================================================== layout

namespace Layout

theorem nameless_delimit (layout : Layout) (c : Char) : Nameless (layout.delimit c) := by
  rw [delimit_eq]
  split
  · exact .ok
  · split
    · split
      · exact .error rfl
      · split
        · exact .ok
        · exact .error rfl
    · exact .ok

theorem nameless_stepCode (layout : Layout) (c : Char) : Nameless (layout.stepCode c) := by
  unfold stepCode
  dsimp only
  repeat' split
  all_goals first
    | exact .ok
    | exact (nameless_delimit _ c).bind fun _ => .ok

theorem nameless_step (layout : Layout) (c : Char) : Nameless (layout.step c) := by
  unfold step
  split
  · exact layout.nameless_stepCode c
  · split
    · exact layout.nameless_stepCode c
    · exact .ok
  · rw [stepLiteral_eq]
    split
    · exact .error rfl
    · exact .ok

theorem nameless_finish (layout : Layout) : Nameless layout.finish := by
  unfold finish
  split
  · exact .error rfl
  · split
    · exact .ok
    · exact .error rfl
  · split
    · exact .ok
    · exact .error rfl

theorem nameless_read (layout : Layout) (text : List Char) : Nameless (layout.read text) := by
  induction text generalizing layout with
  | nil => exact layout.nameless_finish.bind fun _ => .ok
  | cons c rest ih =>
    exact (layout.nameless_step c).bind fun (_, layout) => (ih layout).bind fun _ => .ok

end Layout

/-- No source is refused for a name. -/
theorem Block.nameless_ofSource (source : String) : Nameless (Block.ofSource source) :=
  (Layout.start.nameless_read source.toList).map _

-- ================================================================ operators

namespace Value

theorem elementary_expectNumber (v : Value) : Elementary v.expectNumber := by
  unfold expectNumber
  split
  · exact .ok
  · exact .error ⟨rfl, rfl⟩

theorem elementary_expectBool (v : Value) : Elementary v.expectBool := by
  unfold expectBool
  split
  · exact .ok
  · exact .error ⟨rfl, rfl⟩

theorem elementary_expectObject (v : Value) : Elementary v.expectObject := by
  unfold expectObject
  split
  · exact .ok
  · exact .error ⟨rfl, rfl⟩

theorem elementary_unary (op : UnaryOp) (v : Value) : Elementary (unary op v) := by
  cases op with
  | neg => exact v.elementary_expectNumber.map _
  | plus => exact v.elementary_expectNumber.map _
  | not => exact v.elementary_expectBool.map _

theorem elementary_binary (op : BinaryOp) (l r : Value) : Elementary (binary op l r) := by
  cases op with
  | eq | ne | concat => exact .ok
  | and | or =>
    rw [binary.eq_def]
    dsimp only
    split
    · exact .ok
    · exact .error ⟨rfl, rfl⟩
  | lt | le | gt | ge =>
    rw [binary.eq_def]
    dsimp only
    split
    · exact .ok
    · exact .ok
    · exact .error ⟨rfl, rfl⟩
  | sub | mul | div | mod =>
    rw [binary.eq_def]
    dsimp only
    split
    · exact .ok
    · exact .error ⟨rfl, rfl⟩
  | add =>
    rw [binary.eq_def]
    dsimp only
    split
    · exact .ok
    · exact .ok
    · exact .ok
    · exact .ok
    · exact .error ⟨rfl, rfl⟩

theorem elementary_index (target place : Value) : Elementary (index target place) := by
  unfold index
  refine place.elementary_expectNumber.bind fun position => ?_
  repeat' split
  all_goals first
    | exact .ok
    | exact .error ⟨rfl, rfl⟩

end Value

end RoutineScript
