/-
Reading expressions by places in their tokens: arguments between commas, what
delimiters enclose, operators in front of operands, primaries and what is
attached to them. All is cut out of the tokens in ranges.

The functions take the reader of enclosed expressions as a parameter. The knot
is tied by recursion on the length of the tokens; that an enclosed expression
is shorter is one more of the checks, as is that a round of a loop begins
further on than the one before. The module ends with the two searches, for
delimiters that close and for commas.
-/
import RoutineScript.Proofs.Offsets.Operators
import RoutineScript.Proofs.Offsets.Tokens
import RoutineScript.Proofs.Printing.Nesting

namespace RoutineScript

namespace ByOffset

-- ================================================================ enclosing

/-- The mark that closes a delimiter. -/
def closerOfMark? : Mark → Option Mark
  | .lparen => some .rparen
  | .lbracket => some .rbracket
  | .lbrace => some .rbrace
  | _ => none

/-- Where the delimiter closes of which `depth` are open. -/
def matchingFrom (opener closer : Mark) : Nat → Nat → List Token → Checked (Option Nat)
  | _, _, [] => .ok none
  | place, depth, token :: rest =>
    if token = .mark opener then matchingFrom opener closer (place + 1) (depth + 1) rest
    else if token = .mark closer then do
      let depth ← pred depth
      if depth = 0 then return some place
      else matchingFrom opener closer (place + 1) depth rest
    else matchingFrom opener closer (place + 1) depth rest

/-- Where the delimiter closes that stands at a place. -/
def matching (tokens : List Token) (place : Nat) : Checked (Option Nat) :=
  match tokens[place]? with
  | some (.mark opener) =>
    match closerOfMark? opener with
    | some closer => matchingFrom opener closer place 0 (tokens.drop place)
    | none => .ok none
  | _ => .ok none

/-- The pieces between the commas outside of parentheses and brackets. The
current piece begins at `start`. -/
def commasFrom (tokens : List Token) : Nat → Nat → Nat → List Token → Checked (List (List Token))
  | start, _, _, [] => do return [← range tokens start tokens.length]
  | start, place, depth, token :: rest =>
    if depth = 0 ∧ token = .mark .comma then do
      let piece ← range tokens start place
      let others ← commasFrom tokens (place + 1) (place + 1) 0 rest
      return piece :: others
    else commasFrom tokens start (place + 1) (token.nest depth) rest

/-- The pieces between commas. -/
def commas (tokens : List Token) : Checked (List (List Token)) :=
  commasFrom tokens 0 0 0 tokens

-- ================================================================== reading

section Reading

variable (read : List Token → Checked Expr) (tokens : List Token)

/-- The fault of tokens that are no expression. -/
def noValue : Fault :=
  Cause.notAValue (Token.spellAll tokens)

/-- Expressions between commas, or none. -/
def arguments : Checked (List Expr) :=
  if tokens.isEmpty then .ok []
  else do
    let pieces ← commas tokens
    pieces.mapM fun piece => if piece.isEmpty then .error (.fault (noValue tokens)) else read piece

/-- What is read of the tokens that a delimiter encloses, and the place behind
the one that closes it. -/
def enclosed (place : Nat) (inner : List Token → Checked Expr) : Checked (Expr × Nat) := do
  let close ← Checked.orRefuse (noValue tokens) (← matching tokens place)
  let value ← inner (← range tokens (place + 1) close)
  return (value, close + 1)

/-- The primary at the front of some tokens, and how many tokens it takes. -/
def primary : Checked (Expr × Nat) := do
  match ← tokenAt tokens 0 with
  | .number x => return (.number x, 1)
  | .string s => return (.string s, 1)
  | .keyword .true => return (.bool true, 1)
  | .keyword .false => return (.bool false, 1)
  | .keyword .null => return (.null, 1)
  | .keyword .new =>
    match tokens[1]? with
    | some (Token.name c) =>
      if tokens[2]? = some (.mark .lparen) then
        enclosed tokens 2 fun args => return .new c (← arguments read args)
      else .error (.fault (noValue tokens))
    | _ => .error (.fault (noValue tokens))
  | .name x =>
    if tokens[1]? = some (.mark .lparen) then
      enclosed tokens 1 fun args => return .call x (← arguments read args)
    else return (.name x, 1)
  | .mark .lparen => enclosed tokens 0 read
  | .mark .lbracket => enclosed tokens 0 fun items => return .list (← arguments read items)
  | _ => .error (.fault (noValue tokens))

/-- A value with what is attached to it at a place, and the place behind. -/
def attach (value : Expr) (place : Nat) : Checked (Expr × Nat) := do
  match ← tokenAt tokens place with
  | .mark .dot =>
    match tokens[place + 1]? with
    | some (Token.name m) =>
      if tokens[place + 2]? = some (.mark .lparen) then
        enclosed tokens (place + 2) fun args => return .methodCall value m (← arguments read args)
      else return (.member value m, place + 2)
    | _ => .error (.fault (noValue tokens))
  | .mark .lbracket => enclosed tokens place fun index => return .index value (← read index)
  | _ => .error (.fault (noValue tokens))

/-- A value with all that is attached to it from a place on. -/
def attachments (value : Expr) (place : Nat) : Checked Expr :=
  if place < tokens.length then
    match attach read tokens value place with
    | .error stop => .error stop
    | .ok (value, next) =>
      if _further : place < next then attachments value next
      else .error (.panic .endless)
  else .ok value
termination_by tokens.length - place

/-- A primary with all that is attached to it. -/
def operand : Checked Expr := do
  let (value, place) ← primary read tokens
  attachments read tokens value place

/-- An operand behind the operators in front of it. -/
def signed (tokens : List Token) : Checked Expr :=
  match tokens.head?.bind Token.unaryOp? with
  | none => operand read tokens
  | some op =>
    match range tokens 1 tokens.length with
    | .error stop => .error stop
    | .ok inner =>
      if inner.isEmpty then .error (.fault (noValue tokens))
      else if _shorter : inner.length < tokens.length then (signed inner).map (.unary op)
      else .error (.panic .endless)
termination_by tokens.length

/-- An expression, split at its pivot if it has one. -/
def level : Checked Expr :=
  if tokens.isEmpty then .error (.fault (Cause.notAValue ""))
  else do
    let operators ← operatorsFrom tokens 0 0 tokens
    match pivot? operators (Chain.showsString 0 tokens) with
    | some (place, op) =>
      let left ← range tokens 0 place
      let right ← range tokens (place + 1) tokens.length
      if left.isEmpty || right.isEmpty then .error (.fault (noValue tokens))
      else
        let l ← read left
        let r ← read right
        return .binary op l r
    | none => signed read tokens

end Reading

/-- Reads the tokens of one complete expression. -/
def expression (tokens : List Token) : Checked Expr :=
  level (fun inner =>
    if _shorter : inner.length < tokens.length then expression inner
    else .error (.panic .endless)) tokens
termination_by tokens.length

/-- Reads the expression that a text spells. Terminators around it are
dropped. -/
def expressionText (text : String) : Checked Expr := do
  let span ← Checked.ofResult (Span.normalize text)
  let body := span.trimTerminators
  match ← tokensOf body with
  | .error _ => .error (.fault (Cause.notAValue body.text))
  | .ok tokens => expression tokens

-- ================================================================ delimiters

section Delimiters

variable {before rest inside after : List Token} {opener closer : Mark}

theorem append_of_splitClosing {depth : Nat}
    (closes : Token.splitClosing opener closer depth rest = some (inside, after)) :
    rest = inside ++ .mark closer :: after := by
  induction rest generalizing depth inside with
  | nil => cases closes
  | cons token rest ih =>
    have step : ∀ {d : Nat}, (Token.splitClosing opener closer d rest).map
        (fun p => (token :: p.1, p.2)) = some (inside, after) →
          token :: rest = inside ++ .mark closer :: after := by
      intro d found
      obtain ⟨⟨inside', after'⟩, closes', same⟩ := Option.map_eq_some_iff.1 found
      obtain ⟨rfl, rfl⟩ := Prod.mk.inj same
      rw [ih closes']
      rfl
    rw [Token.splitClosing] at closes
    split at closes
    case isTrue isCloser =>
      split at closes
      · obtain ⟨rfl, rfl⟩ := Prod.mk.inj (Option.some.inj closes)
        rw [isCloser]
        rfl
      · exact step closes
    case isFalse => exact step closes

/-- The count of open delimiters never goes down from zero. -/
theorem matchingFrom_eq (differ : opener ≠ closer) (place depth : Nat) (rest : List Token) :
    matchingFrom opener closer place (depth + 1) rest =
      .ok ((Token.splitClosing opener closer (depth + 1) rest).map
        fun (inside, _) => place + inside.length) := by
  induction rest generalizing place depth with
  | nil => rfl
  | cons token rest ih =>
    have goesOn : ∀ d, matchingFrom opener closer (place + 1) (d + 1) rest =
        .ok (((Token.splitClosing opener closer (d + 1) rest).map
          fun (inside, after) => (token :: inside, after)).map
            fun (inside, _) => place + inside.length) := by
      intro d
      rw [ih, Option.map_map]
      congr 2
      funext ⟨inside, after⟩
      simp only [Function.comp, List.length_cons]
      omega
    rw [matchingFrom, Token.splitClosing]
    by_cases opens : token = .mark opener
    · have other : token ≠ .mark closer := by
        rw [opens]
        simpa using differ
      rw [if_pos opens, if_neg other]
      simp only [if_pos opens]
      exact goesOn (depth + 1)
    · rw [if_neg opens]
      by_cases closes : token = .mark closer
      · rw [if_pos closes, if_pos closes, pred_succ]
        cases depth with
        | zero => rfl
        | succ depth =>
          simp only [Checked.ok_bind]
          rw [if_neg (Nat.succ_ne_zero _), if_neg (by omega)]
          exact goesOn depth
      · rw [if_neg closes, if_neg closes]
        simp only [if_neg opens]
        exact goesOn depth

theorem closes_paren : closerOfMark? .lparen = some .rparen :=
  rfl

theorem closes_bracket : closerOfMark? .lbracket = some .rbracket :=
  rfl

/-- Where a delimiter closes, and what it encloses. -/
theorem matching_append (closes : closerOfMark? opener = some closer)
    (before rest : List Token) :
    (Token.splitClosing opener closer 1 rest = none ∧
      matching (before ++ .mark opener :: rest) before.length = .ok none) ∨
    ∃ inside after, Token.splitClosing opener closer 1 rest = some (inside, after) ∧
      before ++ .mark opener :: rest =
        (before ++ [.mark opener]) ++ (inside ++ .mark closer :: after) ∧
      matching (before ++ .mark opener :: rest) before.length =
        .ok (some (before.length + 1 + inside.length)) := by
  have differ : opener ≠ closer := by
    rintro rfl
    cases opener <;> cases closes
  have there : (before ++ .mark opener :: rest)[before.length]? = some (.mark opener) := by simp
  have found : matching (before ++ .mark opener :: rest) before.length =
      .ok ((Token.splitClosing opener closer 1 rest).map
        fun (inside, _) => before.length + 1 + inside.length) := by
    rw [matching, there, List.drop_left]
    simp only [closes]
    rw [matchingFrom, if_pos rfl]
    exact matchingFrom_eq differ (before.length + 1) 0 rest
  cases cut : Token.splitClosing opener closer 1 rest with
  | none => exact .inl ⟨rfl, by rw [found, cut]; rfl⟩
  | some pieces =>
    obtain ⟨inside, after⟩ := pieces
    refine .inr ⟨inside, after, rfl, ?_, by rw [found, cut]; rfl⟩
    rw [append_of_splitClosing cut]
    simp

end Delimiters

-- ==================================================================== commas

/-- The tokens are cut at their commas as the parser that runs does it. -/
theorem commasFrom_append (before piece rest : List Token) (depth : Nat) :
    commasFrom (before ++ (piece ++ rest)) before.length (before.length + piece.length) depth rest =
      .ok (match Token.splitCommas depth rest with
        | [] => [piece]
        | first :: others => (piece ++ first) :: others) := by
  induction rest generalizing before piece depth with
  | nil =>
    have all : range (before ++ (piece ++ [])) before.length (before ++ (piece ++ [])).length =
        .ok piece := by
      simpa using range_append before piece []
    rw [commasFrom, all]
    simp [Token.splitCommas, pure, Except.pure]
  | cons token rest ih =>
    rw [commasFrom, Token.splitCommas]
    by_cases comma : depth = 0 ∧ token = .mark .comma
    · have cut : range (before ++ (piece ++ token :: rest)) before.length
          (before.length + piece.length) = .ok piece := range_append before piece _
      have others := ih (before ++ (piece ++ [token])) [] 0
      have whole : before ++ (piece ++ token :: rest) =
          (before ++ (piece ++ [token])) ++ ([] ++ rest) := by simp
      have next : before.length + piece.length + 1 = (before ++ (piece ++ [token])).length := by
        simp [Nat.add_assoc]
      rw [if_pos comma, if_pos comma, cut]
      simp only [Checked.ok_bind]
      rw [whole, next]
      rw [List.length_nil, Nat.add_zero] at others
      rw [others]
      cases pieces : Token.splitCommas 0 rest with
      | nil => exact absurd pieces (splitCommas_ne_nil 0 rest)
      | cons first more => simp [pure, Except.pure]
    · have others := ih before (piece ++ [token]) (token.nest depth)
      have whole : before ++ (piece ++ token :: rest) = before ++ ((piece ++ [token]) ++ rest) := by
        simp
      have next : before.length + piece.length + 1 = before.length + (piece ++ [token]).length := by
        simp [Nat.add_assoc]
      rw [if_neg comma, if_neg comma, whole, next, others]
      cases pieces : Token.splitCommas (token.nest depth) rest with
      | nil => exact absurd pieces (splitCommas_ne_nil _ rest)
      | cons first more => simp

theorem commas_eq (tokens : List Token) : commas tokens = .ok (Token.splitCommas 0 tokens) := by
  have cut := commasFrom_append [] [] tokens 0
  rw [commas]
  simp only [List.nil_append, List.length_nil, Nat.add_zero] at cut
  rw [cut]
  cases pieces : Token.splitCommas 0 tokens with
  | nil => exact absurd pieces (splitCommas_ne_nil 0 tokens)
  | cons first more => rfl

end ByOffset

end RoutineScript
