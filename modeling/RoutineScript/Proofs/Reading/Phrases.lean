/-
Operands with operators between them are found as they stand.

# The argument

The reader looks for operators and commas outside parentheses and brackets.
In a phrase of the grammar these match (`Derives.nested`), and behind an
operand no other one begins, so that a sign is told from an operator
(`Derives.ofTokens_append`). A chain of derived operands is therefore found as
it was put together (`Derived.ofTokens_tokens`).
-/
import RoutineScript.Proofs.Reading.Grammar

namespace RoutineScript

namespace Phrase

variable {phrase : Phrase} {tokens : List Token}

-- ================================================================== nesting

/-- The tokens of a phrase outside parentheses and brackets. -/
def IsFlat : Phrase → Token → Prop
  | expression | operand => fun token => token ≠ .mark .comma
  | value | attachments | primary => fun token => token ≠ .mark .comma ∧ token.binaryOp? = none
  | arguments | items => fun _ => True

/-- In a phrase the delimiters match. -/
theorem Derives.nested (derived : Derives phrase tokens) : Nested phrase.IsFlat tokens := by
  induction derived with
  | single own ih => exact ih
  | binary op own others ihFirst ihBehind =>
    exact ihFirst.append (.plain (isQuiet_operator op).1.1 (isQuiet_operator op).2 ihBehind)
  | unsigned own ih => exact ih.mono fun _ flat => flat.1
  | signed op own ih => exact .plain (isQuiet_unary op).1.1 (isQuiet_unary op).2 ih
  | attached own others ihFirst ihBehind => exact ihFirst.append ihBehind
  | bare => exact .nil
  | member m others ih => exact .plain ⟨by simp, rfl⟩ rfl (.plain ⟨by simp, rfl⟩ rfl ih)
  | method m own others ihArgs ihBehind =>
    exact .plain ⟨by simp, rfl⟩ rfl
      (.plain ⟨by simp, rfl⟩ rfl ((nested_parens ihArgs).append ihBehind))
  | index own others ihPosition ihBehind => exact (nested_brackets ihPosition).append ihBehind
  | number x => exact .plain ⟨by simp, rfl⟩ rfl .nil
  | string s => exact .plain ⟨by simp, rfl⟩ rfl .nil
  | bool b => exact .plain ⟨by simp, rfl⟩ rfl .nil
  | null => exact .plain ⟨by simp, rfl⟩ rfl .nil
  | name x => exact .plain ⟨by simp, rfl⟩ rfl .nil
  | call f own ih => exact .plain ⟨by simp, rfl⟩ rfl (nested_parens ih)
  | new c own ih =>
    exact .plain ⟨by simp, rfl⟩ rfl (.plain ⟨by simp, rfl⟩ rfl (nested_parens ih))
  | parens own ih => exact nested_parens ih
  | list own ih => exact nested_brackets ih
  | noArguments => exact .nil
  | someArguments own ih => exact ih
  | last own ih => exact ih.loose
  | more own others ihFirst ihBehind => exact ihFirst.loose.append (.plain trivial rfl ihBehind)

-- =================================================================== chains

theorem leadsBehind_append (leading : Bool) (first behind : List Token) :
    leadsBehind leading (first ++ behind) = leadsBehind (leadsBehind leading first) behind :=
  List.foldl_append

theorem leadsBehind_parens (leading : Bool) (inside : List Token) :
    leadsBehind leading (Token.parens inside) = false := by
  rw [Token.parens, ← List.cons_append, leadsBehind_append]
  rfl

theorem leadsBehind_brackets (leading : Bool) (inside : List Token) :
    leadsBehind leading (Token.brackets inside) = false := by
  rw [Token.brackets, ← List.cons_append, leadsBehind_append]
  rfl

/-- Behind a primary no operand begins. -/
theorem Derives.leadsBehind_primary (derived : Derives .primary tokens) (leading : Bool) :
    leadsBehind leading tokens = false := by
  cases derived with
  | call f own => exact leadsBehind_parens false _
  | new c own => exact leadsBehind_parens false _
  | parens own => exact leadsBehind_parens leading _
  | list own => exact leadsBehind_brackets leading _
  | _ => rfl

/-- Behind attachments no operand begins. -/
theorem Derives.leadsBehind_attachments (derived : Derives .attachments tokens) :
    leadsBehind false tokens = false := by
  generalize isAttachments : Phrase.attachments = phrase at derived
  induction derived with
  | bare => rfl
  | member m others ih => exact ih isAttachments
  | method m own others _ ih =>
    rw [leadsBehind, List.foldl_cons, List.foldl_cons, ← leadsBehind, leadsBehind_append,
      leadsBehind_parens, ih isAttachments]
  | index own others _ ih => rw [leadsBehind_append, leadsBehind_brackets, ih isAttachments]
  | _ => cases isAttachments

/-- Behind an operand no operand begins, and no operator stands in it outside
parentheses and brackets. -/
theorem Derives.ofTokens_append (derived : Derives .operand tokens) (rest : List Token) :
    Chain.ofTokens 0 true (tokens ++ rest) = (Chain.ofTokens 0 false rest).inFront tokens := by
  generalize isOperand : Phrase.operand = phrase at derived
  induction derived with
  | @unsigned tokens own =>
    have ends : leadsBehind true tokens = false := by
      cases own with
      | attached first behind =>
        rw [leadsBehind_append, first.leadsBehind_primary, behind.leadsBehind_attachments]
    rw [ofTokens_nested own.nested 0 true (fun _ _ flat => flat.2), ends]
  | signed op own ih =>
    have leads : (Token.mark op.mark).operatorAt? 0 true = none := by
      cases op <;> rfl
    have again : (Token.mark op.mark).leadsOperand = true := by
      cases op <;> rfl
    rw [List.cons_append, ofTokens_other leads, nest_of_isPlain (isQuiet_unary op).2, again,
      ih isOperand]
    rfl
  | _ => cases isOperand

end Phrase

namespace Chain

variable {chain : Chain}

/-- Operands with operators between them, as the grammar has them. -/
def Derived (chain : Chain) : Prop :=
  (∀ operand ∈ chain.operands, Phrase.Derives .operand operand) ∧ .concat ∉ chain.operators

/-- Operators between derived operands are found. -/
theorem Derived.ofTokens_tokens (derived : chain.Derived) :
    ofTokens 0 true chain.tokens = chain := by
  obtain ⟨first, rest⟩ := chain
  induction rest generalizing first with
  | nil =>
    have own := derived.1 first (List.mem_cons_self ..)
    have alone := own.ofTokens_append []
    rw [List.append_nil] at alone
    simp only [tokens, List.flatMap_nil, List.append_nil]
    rw [alone]
    simp [ofTokens, inFront]
  | cons link rest ih =>
    obtain ⟨op, operand⟩ := link
    obtain ⟨operands, noConcat⟩ := derived
    obtain ⟨own, others⟩ := List.forall_mem_cons.1 operands
    have behind := ih operand
      ⟨others, fun mem => noConcat (List.mem_cons_of_mem _ mem)⟩
    have operator : (Token.mark op.mark).operatorAt? 0 false = some op := by
      cases op <;> first | rfl | exact absurd (List.mem_cons_self ..) noConcat
    have shape : tokens ⟨first, (op, operand) :: rest⟩
        = first ++ .mark op.mark :: tokens ⟨operand, rest⟩ := rfl
    rw [shape, own.ofTokens_append, ofTokens, operator, behind]
    simp [inFront]

/-- An operand and an operator in front of a derived chain. -/
theorem Derived.exists_link {first : List Token} (derived : chain.Derived) (op : BinaryOp)
    (own : Phrase.Derives .operand first) :
    ∃ longer : Chain, longer.tokens = first ++ .mark op.mark :: chain.tokens ∧
      longer.operands = first :: chain.operands ∧ longer.Derived := by
  obtain ⟨operands, noConcat⟩ := derived
  -- joining texts is written like addition
  obtain ⟨op', same, plain⟩ : ∃ op' : BinaryOp, op'.mark = op.mark ∧ op' ≠ .concat := by
    cases op with
    | concat => exact ⟨.add, rfl, by simp⟩
    | _ => exact ⟨_, rfl, by simp⟩
  refine ⟨⟨first, (op', chain.first) :: chain.rest⟩, ?_, rfl,
    List.forall_mem_cons.2 ⟨own, operands⟩, ?_⟩
  · rw [← same]
    rfl
  · intro mem
    rcases List.mem_cons.1 mem with rfl | mem
    · exact plain rfl
    · exact noConcat mem

end Chain

end RoutineScript
