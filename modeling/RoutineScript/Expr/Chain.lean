/-
How operators group. The tokens of an expression form a chain: operands with
binary operators between them, where nothing in parentheses or brackets
counts. A chain is cut at one of its operators, its pivot, and the two parts
are grouped the same way. The pivot is, in this order,

- the first `&&`, or else the first `||`;
- the first occurrence of the first of `>=`, `<=`, `>`, `<`, `==`, `!=` that
  occurs at all;
- when an operand shows a string literal, the first `+`, which then joins
  texts;
- of the last additive and the last multiplicative operator the one further
  left, so that the family at the right end of the chain is applied first.

A `+` or `-` where an operand should begin belongs to the operand.
-/
import RoutineScript.Token

namespace RoutineScript

-- =================================================================== chains

/-- Operands with binary operators between them. -/
structure Chain where
  first : List Token
  rest : List (BinaryOp × List Token)

/-- The mark of an operator that stands between operands. -/
def BinaryOp.mark : BinaryOp → Mark
  | and => .andAnd
  | or => .orOr
  | ge => .ge
  | le => .le
  | gt => .gt
  | lt => .lt
  | eq => .eqEq
  | ne => .notEq
  | concat | add => .plus
  | sub => .minus
  | mul => .star
  | div => .slash
  | mod => .percent

/-- Whether a `+` or `-` behind this token belongs to the operand that
begins there. -/
def Token.leadsOperand (token : Token) : Bool :=
  token.binaryOp?.isSome ||
    match token with
    | .mark .bang | .mark .lparen | .mark .lbracket | .mark .comma => true
    | _ => false

/-- The operator that a token is at this place of an expression. -/
def Token.operatorAt? (token : Token) (depth : Nat) (leading : Bool) : Option BinaryOp :=
  if depth = 0 then
    token.binaryOp?.filter fun op => !(leading && op.isAdditive)
  else none

namespace Chain

/-- The chain of some tokens, read at a nesting depth; `leading` tells that
an operand begins. -/
def ofTokens (depth : Nat) (leading : Bool) : List Token → Chain
  | [] => ⟨[], []⟩
  | token :: tokens =>
    match token.operatorAt? depth leading with
    | some op =>
      let behind := ofTokens 0 true tokens
      ⟨[], (op, behind.first) :: behind.rest⟩
    | none =>
      let behind := ofTokens (token.nest depth) token.leadsOperand tokens
      ⟨token :: behind.first, behind.rest⟩

/-- The operators of a chain. -/
def operators (chain : Chain) : List BinaryOp :=
  chain.rest.map Prod.fst

/-- The operands of a chain. -/
def operands (chain : Chain) : List (List Token) :=
  chain.first :: chain.rest.map Prod.snd

/-- The tokens that a chain was read from. -/
def tokens (chain : Chain) : List Token :=
  chain.first ++ chain.rest.flatMap fun (op, operand) => .mark op.mark :: operand

/-- Whether a chain is no operand at all. -/
def isBlank (chain : Chain) : Bool :=
  chain.first.isEmpty && chain.rest.isEmpty

/-- Whether some tokens show a string literal outside parentheses and
brackets. -/
def showsString (depth : Nat) : List Token → Bool
  | [] => false
  | token :: tokens =>
    (match token with
      | .string _ => depth == 0
      | _ => false) || showsString (token.nest depth) tokens

/-- Whether an operand shows a string literal. -/
def joinsText (chain : Chain) : Bool :=
  chain.operands.any (showsString 0)

-- ==================================================================== pivot

/-- The operators that bind loosest, loosest first. -/
def loosest : List BinaryOp :=
  [.and, .or, .ge, .le, .gt, .lt, .eq, .ne]

/-- The place of the last element with a property. -/
def lastIdx? (p : BinaryOp → Bool) : List BinaryOp → Option Nat
  | [] => none
  | op :: ops =>
    match lastIdx? p ops with
    | some i => some (i + 1)
    | none => if p op then some 0 else none

/-- The place at which arithmetic is cut. -/
def arithmeticPivot? (ops : List BinaryOp) : Option Nat :=
  match lastIdx? BinaryOp.isAdditive ops, lastIdx? BinaryOp.isMultiplicative ops with
  | some a, some m => some (min a m)
  | a, m => a <|> m

/-- The place at which a chain is cut, and the operator that it is cut at. -/
def pivot? (joinsText : Bool) (ops : List BinaryOp) : Option (Nat × BinaryOp) :=
  (loosest.findSome? fun op => (ops.idxOf? op).map fun i => (i, op)) <|>
  (if joinsText then (ops.idxOf? .add).map fun i => (i, .concat) else none) <|>
  (arithmeticPivot? ops).bind fun i => ops[i]?.map fun op => (i, op)

end Chain

-- ================================================================= grouping

/-- A chain with its operands grouped. -/
inductive Grouping where
  /-- The tokens of an operand. -/
  | operand (tokens : List Token)
  /-- An operator that lacks an operand, with all the tokens around it. -/
  | dangling (tokens : List Token)
  | node (op : BinaryOp) (left right : Grouping)

namespace Chain

/-- Cuts a chain at its pivot until only operands are left. -/
def group (chain : Chain) : Grouping :=
  match pivot? chain.joinsText chain.operators with
  | none => .operand chain.tokens
  | some (i, op) =>
    match _h : chain.rest.drop i with
    | [] => .operand chain.tokens
    | (_, operand) :: behind =>
      let left : Chain := ⟨chain.first, chain.rest.take i⟩
      let right : Chain := ⟨operand, behind⟩
      if left.isBlank || right.isBlank then .dangling chain.tokens
      else .node op left.group right.group
termination_by chain.rest.length
decreasing_by
  all_goals
    have := congrArg List.length _h
    simp only [List.length_drop, List.length_cons, List.length_take] at *
    omega

end Chain

namespace Grouping

/-- The operands of a grouping, from left to right. -/
def operands : Grouping → List (List Token)
  | operand tokens => [tokens]
  | dangling _ => []
  | node _ left right => left.operands ++ right.operands

/-- The groups of some tokens. -/
def ofTokens (tokens : List Token) : Grouping :=
  (Chain.ofTokens 0 true tokens).group

end Grouping

-- ================================================================== lengths

namespace Chain

/-- The mark of an operator is the operator that was read. -/
theorem mark_of_binaryOp? {token : Token} {op : BinaryOp} (h : token.binaryOp? = some op) :
    .mark op.mark = token := by
  unfold Token.binaryOp? at h
  split at h <;> simp_all <;> subst h <;> rfl

/-- A chain keeps all the tokens it was read from. -/
theorem tokens_ofTokens (depth : Nat) (leading : Bool) (tokens : List Token) :
    (ofTokens depth leading tokens).tokens = tokens := by
  induction tokens generalizing depth leading with
  | nil => rfl
  | cons token rest ih =>
    simp only [ofTokens]
    split
    · rename_i op hop
      have hmark : token.binaryOp? = some op := by
        unfold Token.operatorAt? at hop
        split at hop
        · exact (Option.filter_eq_some_iff.1 hop).1
        · simp at hop
      have := ih 0 true
      simp only [Chain.tokens, List.nil_append, List.flatMap_cons, List.cons_append] at *
      rw [this, mark_of_binaryOp? hmark]
    · have := ih (token.nest depth) token.leadsOperand
      simp only [Chain.tokens, List.cons_append] at *
      rw [this]

/-- The operands of a grouped chain are no longer than the chain. -/
theorem length_of_mem_group {chain : Chain} {operand : List Token}
    (h : operand ∈ chain.group.operands) : operand.length ≤ chain.tokens.length := by
  fun_induction group chain with
  | case1 => simp_all [Grouping.operands]
  | case2 => simp_all [Grouping.operands]
  | case3 => simp [Grouping.operands] at h
  | case4 chain i op _ op' operand' behind hdrop left right _ ihl ihr =>
    have hall : chain.tokens.length =
        left.tokens.length + 1 + right.tokens.length := by
      have hsplit : chain.rest = chain.rest.take i ++ (op', operand') :: behind := by
        rw [← hdrop, List.take_append_drop]
      simp only [left, right, Chain.tokens]
      conv => lhs; rw [hsplit]
      simp only [List.flatMap_append, List.flatMap_cons, List.length_append, List.length_cons]
      omega
    rcases List.mem_append.1 h with h | h
    · have := ihl h
      omega
    · have := ihr h
      omega

end Chain

namespace Grouping

/-- The operands of grouped tokens are no longer than the tokens. -/
theorem length_of_mem_ofTokens {tokens operand : List Token}
    (h : operand ∈ (ofTokens tokens).operands) : operand.length ≤ tokens.length := by
  have := Chain.length_of_mem_group h
  rwa [Chain.tokens_ofTokens] at this

end Grouping

end RoutineScript
