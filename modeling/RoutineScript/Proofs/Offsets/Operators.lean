/-
The operators of an expression by their places in its tokens, and the place
at which it is split.

# The argument

The parser that runs has no places. It reads the tokens as a chain, and a
place is the number of tokens in front of an operator of the chain
(`Chain.placeAt`). Places grow along the chain (`placeAt_lt`), so the first
and the last operator with a property, and of two operators the one further
left, are the same for places and for positions in the chain (`pivot?_eq`).
What stands on the two sides of a place are again chains, those that the
parser that runs goes on with (`ofTokens_sides`).
-/
import Mathlib.Tactic.ByContra
import RoutineScript.Expr.Reader
import RoutineScript.Proofs.Offsets.Checked

namespace RoutineScript

namespace ByOffset

-- ================================================================ operators

/-- Whether an operand begins at a place. -/
def isLeading (tokens : List Token) : Nat → Checked Bool
  | 0 => .ok true
  | before + 1 => do return (← tokenAt tokens before).leadsOperand

/-- The operator between operands that stands at a place of some depth. -/
def operatorAt (tokens : List Token) (place depth : Nat) (token : Token) :
    Checked (Option BinaryOp) :=
  if depth = 0 then
    match token.binaryOp? with
    | none => .ok none
    | some op => do
      let leading ← if op.isAdditive then isLeading tokens place else .ok false
      return if leading then none else some op
  else .ok none

/-- The operators outside of parentheses and brackets, with their places. -/
def operatorsFrom (tokens : List Token) : Nat → Nat → List Token → Checked (List (Nat × BinaryOp))
  | _, _, [] => .ok []
  | place, depth, token :: rest => do
    let found ← operatorAt tokens place depth token
    let others ← operatorsFrom tokens (place + 1) (token.nest depth) rest
    return match found with
      | some op => (place, op) :: others
      | none => others

/-- The place at which an expression is split, and the operator that it is
split at. -/
def pivot? (operators : List (Nat × BinaryOp)) (joinsText : Bool) : Option (Nat × BinaryOp) :=
  (Chain.loosest.findSome? fun op => operators.find? (·.2 == op)) <|>
  (if joinsText then (operators.find? (·.2 == .add)).map fun (place, _) => (place, .concat)
    else none) <|>
  match operators.reverse.find? (·.2.isAdditive),
    operators.reverse.find? (·.2.isMultiplicative) with
  | some additive, some multiplicative =>
    some (if additive.1 < multiplicative.1 then additive else multiplicative)
  | additive, multiplicative => additive <|> multiplicative

end ByOffset

-- =================================================================== places

namespace Chain

/-- The place of an operator of a chain among the tokens. -/
def placeAt (chain : Chain) (i : Nat) : Nat :=
  (Chain.tokens ⟨chain.first, chain.rest.take i⟩).length

/-- The operators of a chain with their places. -/
def places (chain : Chain) : List (Nat × BinaryOp) :=
  chain.operators.mapIdx fun i op => (chain.placeAt i, op)

theorem map_mapIdx {α β γ : Type} (g : β → γ) (f : Nat → α → β) (l : List α) :
    (l.mapIdx f).map g = l.mapIdx fun i a => g (f i a) := by
  refine List.ext_getElem? fun i => ?_
  rw [List.getElem?_map, List.getElem?_mapIdx, List.getElem?_mapIdx, Option.map_map]
  rfl

/-- One token more in front of a chain. -/
theorem places_cons (token : Token) (chain : Chain) :
    places ⟨token :: chain.first, chain.rest⟩ =
      chain.places.map fun (place, op) => (place + 1, op) := by
  rw [places, places, map_mapIdx]
  rfl

/-- An operator in front of a chain. -/
theorem places_operator (op : BinaryOp) (chain : Chain) :
    places ⟨[], (op, chain.first) :: chain.rest⟩ =
      (0, op) :: chain.places.map fun (place, op) => (place + 1, op) := by
  have later : ∀ i, placeAt ⟨[], (op, chain.first) :: chain.rest⟩ (i + 1) =
      chain.placeAt i + 1 := by
    intro i
    simp [placeAt, tokens]
  rw [places, places, map_mapIdx]
  simp only [operators, List.map_cons, List.mapIdx_cons, later]
  rfl

/-- Operators further to the right have higher places. -/
theorem placeAt_lt (chain : Chain) {i j : Nat} (less : i < j) (inside : j ≤ chain.rest.length) :
    chain.placeAt i < chain.placeAt j := by
  have front : chain.rest.take j = chain.rest.take i ++ (chain.rest.drop i).take (j - i) := by
    rw [← List.take_add, Nat.add_sub_cancel' (Nat.le_of_lt less)]
  obtain ⟨⟨op, operand⟩, others, between⟩ :
      ∃ operator others, (chain.rest.drop i).take (j - i) = operator :: others := by
    refine List.exists_cons_of_ne_nil fun nothing => ?_
    have := congrArg List.length nothing
    simp only [List.length_take, List.length_drop, List.length_nil] at this
    omega
  simp only [placeAt, tokens, front, between, List.flatMap_append, List.flatMap_cons,
    List.length_append, List.length_cons]
  omega

end Chain

section Operators

variable {before rest : List Token}

/-- The operators are those of the chain. -/
theorem operatorsFrom_append (before rest : List Token) (depth : Nat) (leading : Bool)
    (leads : ByOffset.isLeading (before ++ rest) before.length = .ok leading) :
    ByOffset.operatorsFrom (before ++ rest) before.length depth rest =
      .ok ((Chain.ofTokens depth leading rest).places.map
        fun (place, op) => (before.length + place, op)) := by
  induction rest generalizing before depth leading with
  | nil => rfl
  | cons token rest ih =>
    have whole : before ++ token :: rest = (before ++ [token]) ++ rest := by simp
    have next : before.length + 1 = (before ++ [token]).length := by simp
    have leads' : ByOffset.isLeading (before ++ token :: rest) (before.length + 1) =
        .ok token.leadsOperand := by
      rw [ByOffset.isLeading, ByOffset.tokenAt_append]
      rfl
    have here : ByOffset.operatorAt (before ++ token :: rest) before.length depth token =
        .ok (token.operatorAt? depth leading) := by
      rw [ByOffset.operatorAt, Token.operatorAt?]
      split
      case isTrue =>
        cases token.binaryOp? with
        | none => rfl
        | some op =>
          have kept : (some op).filter (fun op => !(leading && op.isAdditive)) =
              if leading && op.isAdditive then none else some op := by
            rw [Option.filter_some]
            cases leading && op.isAdditive <;> rfl
          rw [kept]
          dsimp only
          cases op.isAdditive with
          | false =>
            rw [Bool.and_false]
            rfl
          | true =>
            rw [Bool.and_true, if_pos rfl, leads]
            rfl
      case isFalse => rfl
    rw [whole, next] at leads'
    have others := ih (before ++ [token]) (token.nest depth) token.leadsOperand leads'
    have moved : ∀ places : List (Nat × BinaryOp),
        places.map (fun (place, op) => ((before ++ [token]).length + place, op)) =
          (places.map fun (place, op) => (place + 1, op)).map
            fun (place, op) => (before.length + place, op) := by
      intro places
      rw [List.map_map]
      congr 1
      funext ⟨place, op⟩
      simp only [Function.comp, List.length_append, List.length_singleton, Nat.add_assoc,
        Nat.add_comm 1]
    rw [ByOffset.operatorsFrom, here]
    simp only [Checked.ok_bind]
    rw [whole, next, Chain.ofTokens]
    cases operator : token.operatorAt? depth leading with
    | none =>
      rw [others, Chain.places_cons, ← moved]
      rfl
    | some op =>
      have isOperator : token.binaryOp? = some op := by
        rw [Token.operatorAt?] at operator
        split at operator
        · exact (Option.filter_eq_some_iff.1 operator).1
        · cases operator
      have outside : depth = 0 := by
        by_contra nested
        simp [Token.operatorAt?, nested] at operator
      have behind : token.nest depth = 0 ∧ token.leadsOperand = true := by
        rw [← Chain.mark_of_binaryOp? isOperator, outside]
        constructor
        · cases op <;> rfl
        · cases op <;> rfl
      rw [behind.1, behind.2] at others
      rw [behind.1, others, Chain.places_operator, List.map_cons, ← moved]
      rfl

end Operators

-- =================================================================== pivots

section Pivot

variable {f : Nat → Nat} {p : BinaryOp → Bool} {ops : List BinaryOp}

theorem find?_mapIdx (f : Nat → Nat) (op : BinaryOp) (ops : List BinaryOp) :
    (ops.mapIdx fun i op => (f i, op)).find? (·.2 == op) =
      (ops.idxOf? op).map fun i => (f i, op) := by
  induction ops generalizing f with
  | nil => rfl
  | cons first ops ih =>
    rw [List.mapIdx_cons, List.idxOf?_cons]
    by_cases same : first = op
    · simp [same]
    · rw [List.find?_cons_of_neg (by simpa using same), ih fun i => f (i + 1),
        if_neg (by simpa using same), Option.map_map]
      rfl

theorem lt_of_lastIdx? {i : Nat} (last : Chain.lastIdx? p ops = some i) : i < ops.length := by
  induction ops generalizing i with
  | nil => cases last
  | cons op ops ih =>
    rw [Chain.lastIdx?] at last
    split at last
    case h_1 j last' =>
      obtain rfl := Option.some.inj last
      exact Nat.succ_lt_succ (ih last')
    case h_2 =>
      split at last
      · obtain rfl := Option.some.inj last
        exact Nat.succ_pos _
      · cases last

theorem find?_reverse_mapIdx (f : Nat → Nat) (p : BinaryOp → Bool) (ops : List BinaryOp) :
    (ops.mapIdx fun i op => (f i, op)).reverse.find? (fun found => p found.2) =
      (Chain.lastIdx? p ops).bind fun i => ops[i]?.map fun op => (f i, op) := by
  induction ops generalizing f with
  | nil => rfl
  | cons op ops ih =>
    rw [List.mapIdx_cons, List.reverse_cons, List.find?_append, ih fun i => f (i + 1),
      Chain.lastIdx?]
    cases last : Chain.lastIdx? p ops with
    | none =>
      by_cases own : p op = true
      · simp [own]
      · simp [own]
    | some i =>
      obtain ⟨op', isOp⟩ : ∃ op', ops[i]? = some op' :=
        ⟨_, List.getElem?_eq_getElem (lt_of_lastIdx? last)⟩
      simp [isOp]

/-- The place at which an expression is split is that of the operator at which
its chain is cut. -/
theorem pivot?_eq (chain : Chain) (joinsText : Bool) :
    ByOffset.pivot? chain.places joinsText =
      (Chain.pivot? joinsText chain.operators).map fun (i, op) => (chain.placeAt i, op) := by
  have loosest : ∀ operators : List BinaryOp,
      (operators.findSome? fun op => chain.places.find? (·.2 == op)) =
        (operators.findSome? fun op => (chain.operators.idxOf? op).map fun i => (i, op)).map
          fun (i, op) => (chain.placeAt i, op) := by
    intro operators
    rw [List.map_findSome?]
    congr 1
    funext op
    rw [Chain.places, find?_mapIdx, Function.comp_apply, Option.map_map]
    rfl
  have arithmetic : (match chain.places.reverse.find? (fun found => found.2.isAdditive),
        chain.places.reverse.find? (fun found => found.2.isMultiplicative) with
      | some additive, some multiplicative =>
        some (if additive.1 < multiplicative.1 then additive else multiplicative)
      | additive, multiplicative => additive <|> multiplicative) =
      ((Chain.arithmeticPivot? chain.operators).bind fun i =>
        chain.operators[i]?.map fun op => (i, op)).map fun (i, op) => (chain.placeAt i, op) := by
    have length : chain.operators.length = chain.rest.length := List.length_map _
    rw [Chain.places, find?_reverse_mapIdx, find?_reverse_mapIdx, Chain.arithmeticPivot?]
    cases lastA : Chain.lastIdx? BinaryOp.isAdditive chain.operators with
    | none =>
      cases lastM : Chain.lastIdx? BinaryOp.isMultiplicative chain.operators with
      | none => rfl
      | some m =>
        obtain ⟨opM, isM⟩ : ∃ op, chain.operators[m]? = some op :=
          ⟨_, List.getElem?_eq_getElem (lt_of_lastIdx? lastM)⟩
        simp [isM]
    | some a =>
      obtain ⟨opA, isA⟩ : ∃ op, chain.operators[a]? = some op :=
        ⟨_, List.getElem?_eq_getElem (lt_of_lastIdx? lastA)⟩
      cases lastM : Chain.lastIdx? BinaryOp.isMultiplicative chain.operators with
      | none => simp [isA]
      | some m =>
        obtain ⟨opM, isM⟩ : ∃ op, chain.operators[m]? = some op :=
          ⟨_, List.getElem?_eq_getElem (lt_of_lastIdx? lastM)⟩
        have insideA := lt_of_lastIdx? lastA
        have insideM := lt_of_lastIdx? lastM
        simp only [Option.bind_some, isA, isM, Option.map_some]
        rcases Nat.lt_trichotomy a m with less | rfl | less
        · have := chain.placeAt_lt less (by omega)
          rw [if_pos this, Nat.min_eq_left (Nat.le_of_lt less), isA]
          rfl
        · obtain rfl := Option.some.inj (isA.symm.trans isM)
          rw [if_neg (Nat.lt_irrefl _), Nat.min_self, isA]
          rfl
        · have := chain.placeAt_lt less (by omega)
          rw [if_neg (by omega), Nat.min_eq_right (Nat.le_of_lt less), isM]
          rfl
  have joining : (if joinsText then (chain.places.find? (·.2 == .add)).map
        fun (place, _) => (place, BinaryOp.concat) else none) =
      (if joinsText then (chain.operators.idxOf? .add).map fun i => (i, BinaryOp.concat)
        else none).map fun (i, op) => (chain.placeAt i, op) := by
    split
    · rw [Chain.places, find?_mapIdx, Option.map_map, Option.map_map]
      rfl
    · rfl
  rw [ByOffset.pivot?, Chain.pivot?, loosest, joining, arithmetic]
  cases Chain.loosest.findSome? fun op => (chain.operators.idxOf? op).map fun i => (i, op) with
  | some found => rfl
  | none =>
    cases (if joinsText then (chain.operators.idxOf? .add).map fun i => (i, BinaryOp.concat)
      else none) with
    | some found => rfl
    | none => rfl

end Pivot

-- =================================================================== sides

namespace Chain

/-- The chain of what stands in front of an operator, and that of what stands
behind it. -/
theorem ofTokens_sides {depth : Nat} {leading : Bool} {whole operand : List Token}
    {op : BinaryOp} {front behind : List (BinaryOp × List Token)}
    (splits : (ofTokens depth leading whole).rest = front ++ (op, operand) :: behind) :
    ofTokens depth leading (tokens ⟨(ofTokens depth leading whole).first, front⟩) =
        ⟨(ofTokens depth leading whole).first, front⟩ ∧
      ofTokens 0 true (tokens ⟨operand, behind⟩) = ⟨operand, behind⟩ := by
  induction whole generalizing depth leading front with
  | nil => exact absurd splits (by simp [ofTokens])
  | cons token whole ih =>
    cases operator : token.operatorAt? depth leading with
    | none =>
      have chain : ofTokens depth leading (token :: whole) =
          ⟨token :: (ofTokens (token.nest depth) token.leadsOperand whole).first,
            (ofTokens (token.nest depth) token.leadsOperand whole).rest⟩ := by
        rw [ofTokens, operator]
      rw [chain] at splits ⊢
      obtain ⟨left, right⟩ := ih splits
      refine ⟨?_, right⟩
      have cons : tokens ⟨token :: (ofTokens (token.nest depth) token.leadsOperand whole).first,
          front⟩ = token ::
            tokens ⟨(ofTokens (token.nest depth) token.leadsOperand whole).first, front⟩ := rfl
      rw [cons, ofTokens, operator]
      simp only [left]
    | some found =>
      have isOperator : token.binaryOp? = some found := by
        rw [Token.operatorAt?] at operator
        split at operator
        · exact (Option.filter_eq_some_iff.1 operator).1
        · cases operator
      have chain : ofTokens depth leading (token :: whole) =
          ⟨[], (found, (ofTokens 0 true whole).first) :: (ofTokens 0 true whole).rest⟩ := by
        rw [ofTokens, operator]
      rw [chain] at splits ⊢
      cases front with
      | nil =>
        obtain ⟨same, rfl⟩ := List.cons.inj splits
        obtain ⟨rfl, rfl⟩ := Prod.mk.inj same
        exact ⟨rfl, by rw [tokens_ofTokens]⟩
      | cons first front =>
        obtain ⟨rfl, splits'⟩ := List.cons.inj splits
        obtain ⟨left, right⟩ := ih splits'
        refine ⟨?_, right⟩
        have cons : tokens ⟨[], (found, (ofTokens 0 true whole).first) :: front⟩ =
            token :: tokens ⟨(ofTokens 0 true whole).first, front⟩ := by
          rw [← mark_of_binaryOp? isOperator]
          simp [tokens]
        rw [cons, ofTokens, operator]
        simp only [left]

/-- A string literal on the level of the operators is one of an operand. -/
theorem showsString_ofTokens (depth : Nat) (leading : Bool) (whole : List Token) :
    showsString depth whole = (showsString depth (ofTokens depth leading whole).first ||
      (ofTokens depth leading whole).rest.any fun (_, operand) => showsString 0 operand) := by
  induction whole generalizing depth leading with
  | nil => rfl
  | cons token whole ih =>
    cases operator : token.operatorAt? depth leading with
    | none =>
      rw [ofTokens, operator]
      simp only [showsString]
      rw [ih (token.nest depth) token.leadsOperand, Bool.or_assoc]
    | some found =>
      have isOperator : token.binaryOp? = some found ∧ depth = 0 := by
        rw [Token.operatorAt?] at operator
        split at operator
        case isTrue outside => exact ⟨(Option.filter_eq_some_iff.1 operator).1, outside⟩
        case isFalse => cases operator
      have noString : showsString depth (token :: whole) = showsString 0 whole := by
        rw [← mark_of_binaryOp? isOperator.1, isOperator.2]
        cases found <;> simp [showsString, BinaryOp.mark, Token.nest]
      rw [noString, ofTokens, operator, ih 0 true]
      rfl

theorem joinsText_ofTokens (whole : List Token) :
    (ofTokens 0 true whole).joinsText = showsString 0 whole := by
  rw [showsString_ofTokens 0 true whole, joinsText, operands, List.any_cons, List.any_map]
  rfl

end Chain

end RoutineScript
