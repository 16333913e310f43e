/-
Chains of `&&` and chains of `||`, and how they run.

A chain with one of these between its operands nests to the right
(`Expr.nestRight`), and so does any other chain of a single operator that
binds loosely. What nests to the right is asked from the left: the first
operand alone decides whether the others are evaluated at all. `Below.Settles`
tells how the operands are gone through, with the store in front of each of
them. The result is always a truth value, of the last operand too.

# The argument

A chain of one loose operator is cut at its first occurrence, so its left part
is one operand and its right part is a chain of the same sort, one operand
shorter. On the side of the run, asking the operands one after the other
(`Below.settle`) is what the nested expression does, by induction from its
end; there the last operand is asked like the others, because an operand that
does not settle a chain has the truth value that the chain then has.
-/
import RoutineScript.Proofs.Reading.Ranks
import RoutineScript.Run.Construct

namespace RoutineScript

/-- Expressions with one operator between them, nested to the right. -/
def Expr.nestRight (op : BinaryOp) (first : Expr) : List Expr → Expr
  | [] => first
  | next :: rest => .binary op first (nestRight op next rest)

-- ================================================================== reading

namespace BinaryOp

variable {op : BinaryOp} {settling : Bool}

theorem isLoose_of_settledBy? (settles : op.settledBy? = some settling) : op.isLoose = true := by
  cases op <;> first | rfl | cases settles

theorem ne_concat_of_isLoose (loose : op.isLoose = true) : op ≠ .concat := by
  rintro rfl
  cases loose

end BinaryOp

namespace Chain

variable {op : BinaryOp} {ops : List BinaryOp}

/-- A chain of one loose operator is cut at the first one. -/
theorem pivot?_loose {joins : Bool} (loose : op.isLoose = true) (alike : ∀ o ∈ ops, o = op)
    (some : ops ≠ []) : pivot? joins ops = .some (0, op) := by
  obtain ⟨first, ops, rfl⟩ := List.exists_cons_of_ne_nil some
  obtain rfl := alike first (List.mem_cons_self ..)
  have atFront : (first :: ops).idxOf? first = .some 0 := by
    rw [List.idxOf?_cons, if_pos (beq_self_eq_true first)]
  cases found : (loosest.findSome? fun op => ((first :: ops).idxOf? op).map fun i => (i, op)) with
  | none =>
    have nowhere := List.findSome?_eq_none_iff.1 found first (BinaryOp.mem_loosest_iff.2 loose)
    rw [atFront] at nowhere
    cases nowhere
  | some pivot =>
    obtain ⟨i, own⟩ := pivot
    obtain ⟨-, isIdx, -⟩ := findSome?_idxOf? found
    obtain ⟨inside, isOp, -⟩ := List.idxOf?_eq_some_iff.1 isIdx
    obtain rfl : own = first := alike own (isOp ▸ List.getElem_mem inside)
    obtain rfl : 0 = i := Option.some.inj (atFront.symm.trans isIdx)
    rw [pivot?, found]
    rfl

/-- Operands with one operator between them. -/
def ofOperands (op : BinaryOp) (first : List Token) (rest : List (List Token)) : Chain :=
  ⟨first, rest.map fun operand => (op, operand)⟩

theorem operands_ofOperands (op : BinaryOp) (first : List Token) (rest : List (List Token)) :
    (ofOperands op first rest).operands = first :: rest := by
  simp [ofOperands, operands, Function.comp_def]

theorem eq_of_mem_operators_ofOperands {first : List Token} {rest : List (List Token)} :
    ∀ o ∈ (ofOperands op first rest).operators, o = op := by
  simp [ofOperands, operators]

/-- Its tokens are those of the operands, and the operator between them. -/
theorem tokens_ofOperands (op : BinaryOp) (first : List Token) (rest : List (List Token)) :
    (ofOperands op first rest).tokens = [Token.mark op.mark].intercalate (first :: rest) := by
  induction rest generalizing first with
  | nil => simp [ofOperands, tokens]
  | cons next rest ih =>
    rw [List.intercalate_cons_cons, ← ih next]
    simp [ofOperands, tokens]

/-- A chain of one loose operator nests to the right. -/
theorem read_ofOperands (loose : op.isLoose = true) {first : List Token} {e : Expr}
    (own : Expr.readOperand first = .ok e) {rest : List (List Token)} {es : List Expr}
    (others : List.Forall₂ (fun operand e => Expr.readOperand operand = .ok e) rest es) :
    (ofOperands op first rest).read = .ok (Expr.nestRight op e es) := by
  induction others generalizing first e with
  | nil => rw [ofOperands, List.map_nil, read_single, own, Expr.nestRight]
  | cons next others ih =>
    refine read_cut ?_ rfl (by rwa [List.take_zero, read_single]) (ih next)
    exact pivot?_loose loose eq_of_mem_operators_ofOperands (List.cons_ne_nil _ _)

/-- What can be read can be read in parentheses, as an operand. -/
theorem enclosed_of_read {tokens : List Token} {e : Expr} (read : Expr.ofTokens tokens = .ok e) :
    Phrase.Derives .operand (Token.parens tokens) ∧
      Expr.readOperand (Token.parens tokens) = .ok e := by
  have derives := Phrase.derives_of_read read
  have value : Phrase.Derives .value (Token.parens tokens ++ []) :=
    .attached (.parens derives) .bare
  rw [List.append_nil] at value
  exact ⟨.unsigned value, Expr.readOperand_enclosed derives.nested.loose read⟩

/-- Expressions in parentheses with one loose operator between them are read,
nested to the right. -/
theorem ofTokens_enclosed (loose : op.isLoose = true) {first : List Token} {e : Expr}
    (own : Expr.ofTokens first = .ok e) {rest : List (List Token)} {es : List Expr}
    (others : List.Forall₂ (fun operand e => Expr.ofTokens operand = .ok e) rest es) :
    Expr.ofTokens ([Token.mark op.mark].intercalate ((first :: rest).map Token.parens)) =
      .ok (Expr.nestRight op e es) := by
  have enclosed : List.Forall₂
      (fun operand e => Phrase.Derives .operand operand ∧ Expr.readOperand operand = .ok e)
      (rest.map Token.parens) es := by
    rw [List.forall₂_map_left_iff]
    exact others.imp fun _ _ read => enclosed_of_read read
  obtain ⟨derives, reads⟩ := (List.forall₂_and_left _ _).1 enclosed
  have derived : (ofOperands op (Token.parens first) (rest.map Token.parens)).Derived := by
    refine ⟨?_, fun mem => BinaryOp.ne_concat_of_isLoose loose ?_⟩
    · rw [operands_ofOperands]
      exact List.forall_mem_cons.2 ⟨(enclosed_of_read own).1, derives⟩
    · exact (eq_of_mem_operators_ofOperands _ mem).symm
  rw [List.map_cons, ← tokens_ofOperands, read_ofTokens, derived.ofTokens_tokens]
  exact read_ofOperands loose (enclosed_of_read own).2 reads

end Chain

-- =============================================================== evaluation

namespace Value

variable {v : Value}

theorem exists_of_kind_boolean (truth : v.kind = .boolean) : ∃ b, v = .boolean b := by
  cases v with
  | boolean b => exact ⟨b, rfl⟩
  | _ => cases truth

theorem expectBool_of_kind (other : v.kind ≠ .boolean) :
    v.expectBool = .error (Cause.wrongKind .boolean v.kind) := by
  cases v with
  | boolean b => exact absurd rfl other
  | _ => rfl

end Value

namespace Below

open Run

variable {below : Below} {scope : ScopeId} {context : Context} {op : BinaryOp} {settling : Bool}

/-- Asks expressions for their truth values until one of them settles it. -/
def settle (below : Below) (scope : ScopeId) (settling : Bool) : List Expr → Run Value
  | [] => pure (.boolean !settling)
  | e :: rest => do
    if (← below.evaluateBool scope e) = settling then return .boolean settling
    else settle below scope settling rest

/-- How expressions are gone through until one of them settles a chain: in
which store each of them is evaluated, and how it all ends. -/
inductive Settles (below : Below) (scope : ScopeId) (context : Context) (settling : Bool) :
    List Expr → Store → Except Halt Value × Store → Prop where
  /-- None is left. -/
  | through {s : Store} : Settles below scope context settling [] s (.ok (.boolean !settling), s)
  /-- The first one settles nothing, and the others go on from its store. -/
  | passes {e : Expr} {rest : List Expr} {s t : Store} {ended : Except Halt Value × Store}
      (own : below.evaluate scope e context s = (.ok (.boolean !settling), t))
      (others : Settles below scope context settling rest t ended) :
    Settles below scope context settling (e :: rest) s ended
  /-- The first one settles it. -/
  | settled {e : Expr} {rest : List Expr} {s t : Store}
      (own : below.evaluate scope e context s = (.ok (.boolean settling), t)) :
    Settles below scope context settling (e :: rest) s (.ok (.boolean settling), t)
  /-- The first one is no truth value. -/
  | mismatch {e : Expr} {rest : List Expr} {s t : Store} {v : Value}
      (own : below.evaluate scope e context s = (.ok v, t)) (other : v.kind ≠ .boolean) :
    Settles below scope context settling (e :: rest) s
      (.error (.fault (Cause.wrongKind .boolean v.kind)), t)
  /-- The first one stops the run. -/
  | stops {e : Expr} {rest : List Expr} {s t : Store} {halt : Halt}
      (own : below.evaluate scope e context s = (.error halt, t)) :
    Settles below scope context settling (e :: rest) s (.error halt, t)

-- ------------------------------------------------------------ the expression

/-- A logical operator asks its left operand, and the right one only where that
does not settle it. -/
theorem evaluate_logical (settles : op.settledBy? = some settling) (left right : Expr) :
    below.evaluate scope (.binary op left right) = (do
      if (← below.evaluateBool scope left) = settling then return .boolean settling
      else Value.boolean <$> below.evaluateBool scope right) := by
  rw [evaluate, settles, evaluateBool, bind_assoc]
  refine bind_congr fun l => bind_congr fun b => ?_
  by_cases same : b = settling
  · rw [if_pos same, if_pos same, same]
  · rw [if_neg same, if_neg same]
    simp [evaluateBool]

/-- What a logical operator makes is a truth value. -/
theorem evaluateBool_logical (settles : op.settledBy? = some settling) (left right : Expr) :
    Value.boolean <$> below.evaluateBool scope (.binary op left right) =
      below.evaluate scope (.binary op left right) := by
  have truth : ∀ b : Bool, ofResult (Value.boolean b).expectBool = pure b := fun _ => rfl
  rw [evaluateBool, evaluate_logical settles, map_bind, bind_assoc]
  refine bind_congr fun b => ?_
  by_cases same : b = settling
  · simp [same, truth]
  · simp [same, truth]

/-- The truth value of what nests to the right is what asking the operands in
turn gives. -/
theorem evaluateBool_nestRight (settles : op.settledBy? = some settling) (e : Expr)
    (rest : List Expr) :
    Value.boolean <$> below.evaluateBool scope (Expr.nestRight op e rest) =
      below.settle scope settling (e :: rest) := by
  induction rest generalizing e with
  | nil =>
    rw [Expr.nestRight, settle, map_eq_pure_bind]
    refine bind_congr fun b => ?_
    cases b <;> cases settling <;> rfl
  | cons next rest ih =>
    rw [settle, ← ih next, Expr.nestRight, evaluateBool_logical settles, evaluate_logical settles]

/-- To evaluate what nests to the right, two operands at least, is to ask them in
turn. -/
theorem evaluate_nestRight (settles : op.settledBy? = some settling) (e next : Expr)
    (rest : List Expr) :
    below.evaluate scope (Expr.nestRight op e (next :: rest)) =
      below.settle scope settling (e :: next :: rest) := by
  rw [← evaluateBool_nestRight settles, Expr.nestRight, evaluateBool_logical settles]

-- ------------------------------------------------------------ asking in turn

section

variable {e : Expr} {rest : List Expr} {s t : Store} {ended : Except Halt Value × Store}

/-- An operand that is a truth value settles the chain or passes it on. -/
theorem settle_of_boolean {b : Bool}
    (own : below.evaluate scope e context s = (.ok (.boolean b), t)) :
    below.settle scope settling (e :: rest) context s =
      if b = settling then (.ok (.boolean settling), t)
      else below.settle scope settling rest context t := by
  have asked : below.evaluateBool scope e context s = (.ok b, t) := by
    rw [evaluateBool, bind_apply, own]
    rfl
  rw [settle, bind_apply, asked]
  by_cases same : b = settling
  · simp only [if_pos same]
    rfl
  · simp only [if_neg same]

/-- An operand that is no truth value fails. -/
theorem settle_of_other {v : Value} (own : below.evaluate scope e context s = (.ok v, t))
    (other : v.kind ≠ .boolean) :
    below.settle scope settling (e :: rest) context s =
      (.error (.fault (Cause.wrongKind .boolean v.kind)), t) := by
  rw [settle, bind_apply, evaluateBool, bind_apply, own]
  simp only [Value.expectBool_of_kind other]
  rfl

/-- An operand that stops the run stops the chain. -/
theorem settle_of_halt {halt : Halt}
    (own : below.evaluate scope e context s = (.error halt, t)) :
    below.settle scope settling (e :: rest) context s = (.error halt, t) := by
  rw [settle, bind_apply, evaluateBool, bind_apply, own]

/-- What is gone through is what asking gives. -/
theorem Settles.settle_eq {es : List Expr}
    (settles : below.Settles scope context settling es s ended) :
    below.settle scope settling es context s = ended := by
  induction settles with
  | through => rfl
  | passes own others ih =>
    rw [settle_of_boolean own, if_neg (by cases settling <;> decide), ih]
  | settled own => rw [settle_of_boolean own, if_pos rfl]
  | mismatch own other => exact settle_of_other own other
  | stops own => exact settle_of_halt own

/-- Operands can always be gone through. -/
theorem exists_settles (es : List Expr) (s : Store) :
    ∃ ended, below.Settles scope context settling es s ended := by
  induction es generalizing s with
  | nil => exact ⟨_, .through⟩
  | cons e rest ih =>
    rcases own : below.evaluate scope e context s with ⟨outcome, t⟩
    cases outcome with
    | error halt => exact ⟨_, .stops own⟩
    | ok v =>
      by_cases truth : v.kind = .boolean
      · obtain ⟨b, rfl⟩ := Value.exists_of_kind_boolean truth
        by_cases same : b = settling
        · subst same
          exact ⟨_, .settled own⟩
        · obtain rfl : b = !settling := Bool.eq_not_of_ne same
          obtain ⟨ended, others⟩ := ih t
          exact ⟨ended, .passes own others⟩
      · exact ⟨_, .mismatch own truth⟩

/-- Asking operands in turn ends as they are gone through. -/
theorem settle_iff {es : List Expr} :
    below.settle scope settling es context s = ended ↔
      below.Settles scope context settling es s ended := by
  constructor
  · intro asked
    obtain ⟨_, settles⟩ : ∃ ended, below.Settles scope context settling es s ended :=
      exists_settles es s
    rwa [← asked, settles.settle_eq]
  · exact Settles.settle_eq

end

end Below

-- ================================================================ the result

/-- **A chain of `&&` or of `||` runs from the left.** Expressions in
parentheses with one of these operators between them, two of them at least, are
read as one expression. It evaluates them in their order and stops at the first
one that settles it, fails, or is no truth value, in the store that this one
leaves; its value is what settled it, or else the opposite. -/
theorem Chain.evaluate_iff_settles {op : BinaryOp} {settling : Bool}
    (settles : op.settledBy? = some settling) {operands : List (List Token)} {es : List Expr}
    (two : 2 ≤ operands.length)
    (reads : List.Forall₂ (fun operand e => Expr.ofTokens operand = .ok e) operands es) :
    ∃ e, Expr.ofTokens ([Token.mark op.mark].intercalate (operands.map Token.parens)) = .ok e ∧
      ∀ (below : Below) (scope : ScopeId) (context : Context) (s : Store)
        (ended : Except Halt Value × Store),
        below.evaluate scope e context s = ended ↔
          below.Settles scope context settling es s ended := by
  obtain ⟨⟩ | ⟨first, ⟨⟩ | ⟨second, others⟩⟩ := reads
  · cases two
  · simp at two
  · refine ⟨_, ofTokens_enclosed (BinaryOp.isLoose_of_settledBy? settles) first
      (.cons second others), fun below scope context s ended => ?_⟩
    rw [Below.evaluate_nestRight settles, Below.settle_iff]

/-- The second of `true && false && ghost`, in parentheses, settles it, and no
`ghost` is looked for. -/
theorem Chain.evaluate_iff_settles_of_false :
    let operands : List (List Token) := [[.keyword .true], [.keyword .false], [.name "ghost"]]
    ∃ e, Expr.ofTokens ([Token.mark .andAnd].intercalate (operands.map Token.parens)) = .ok e ∧
      (Below.upTo 1).evaluate ⟨0⟩ e ⟨256, 0, []⟩ .empty = (.ok (.boolean false), .empty) := by
  intro operands
  have truth : Expr.ofTokens [.keyword .true] = .ok (.bool true) :=
    Expr.ofTokens_literal rfl rfl rfl rfl
  have untruth : Expr.ofTokens [.keyword .false] = .ok (.bool false) :=
    Expr.ofTokens_literal rfl rfl rfl rfl
  obtain ⟨e, read, evaluated⟩ := Chain.evaluate_iff_settles
    (show BinaryOp.and.settledBy? = some false from rfl) (show 2 ≤ operands.length by decide)
    (.cons truth (.cons untruth (.cons (Expr.ofTokens_name "ghost") .nil)))
  exact ⟨e, read, (evaluated _ _ _ _ _).2 (.passes rfl (.settled rfl))⟩

end RoutineScript
