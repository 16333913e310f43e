/-
Instructions and the headers of blocks, read by places in their tokens. What
an instruction is follows from its first token, its first assignment or its
last token; a header has its condition in parentheses behind the first word,
or behind a name.

# The argument

A range in front of an assignment, behind a keyword or before the last token
is one because the token has been found there. The tokens of a header from
one before its first parenthesis on begin with a token, because a header
begins with a word; so `parenthesized`, which looks behind its first token, is
always asked for the parenthesis it should look at (`parenthesized_eq`).
-/
import Mathlib.Data.List.TakeDrop
import RoutineScript.Proofs.Offsets.Operands
import RoutineScript.Stmt.Reader

namespace RoutineScript

namespace ByOffset

-- ============================================================= instructions

/-- The place of the first assignment outside of parentheses and brackets. -/
def assignmentFrom : Nat → Nat → List Token → Option Nat
  | _, _, [] => none
  | place, depth, token :: rest =>
    if depth = 0 ∧ token.assignment?.isSome then some place
    else assignmentFrom (place + 1) (token.nest depth) rest

/-- The place that some tokens spell. Whatever else they spell, and whether
they spell an expression at all, is refused alike. -/
def place (tokens : List Token) : Checked Place :=
  match tokens with
  | [.name x] => .ok (.name x)
  | _ =>
    match expression tokens with
    | .ok (.member object m) => .ok (.member object m)
    | .error (.panic panic) => .error (.panic panic)
    | _ => .error (.fault (Cause.illegalName (Token.spellAll tokens)))

section Instructions

variable (refused : Fault) (tokens : List Token)

/-- The step that ends with the last token. -/
def step (delta : Float) : Checked Stmt := do
  let target ← place (← range tokens 0 (← pred tokens.length))
  return .step target delta

/-- The assignment, step or call that some tokens spell. -/
def plain : Checked Stmt :=
  match assignmentFrom 0 0 tokens with
  | some index => do
    let target ← place (← range tokens 0 index)
    let value ← expression (← range tokens (index + 1) tokens.length)
    match (← tokenAt tokens index).assignment? with
    | some (some op) => return .compound target op value
    | _ => return .assign target value
  | none =>
    match tokens.getLast? with
    | some (.mark .plusPlus) => step tokens 1
    | some (.mark .minusMinus) => step tokens (-1)
    | _ =>
      match expression tokens with
      | .ok (.call f args) => .ok (.call (.name f) args)
      | .ok (.methodCall object m args) => .ok (.call (.method object m) args)
      | .error (.panic panic) => .error (.panic panic)
      | _ => .error (.fault refused)

/-- The instruction that some tokens spell. -/
def instructionTokens : Checked Stmt := do
  match tokens.head? with
  | none => .error (.fault refused)
  | some (.keyword .return) =>
    let rest ← range tokens 1 tokens.length
    if rest.isEmpty then return .return none
    else return .return (some (← expression rest))
  | some (.keyword .del) => return .delete (← place (← range tokens 1 tokens.length))
  | some (.keyword .make) =>
    let name ← range tokens 1 tokens.length
    return .make (← Checked.ofResult (Token.soleName name))
  | _ => plain refused tokens

end Instructions

/-- The tokens of a text. -/
def scanned (refused : Fault) (text : Span) : Checked (List Token) := do
  match ← tokensOf text with
  | .ok tokens => .ok tokens
  | .error _ => .error (.fault refused)

/-- Reads an instruction. -/
def instruction (text : Span) : Checked Stmt := do
  let refused : Fault := Cause.notAnInstruction text.text
  instructionTokens refused (← scanned refused text)

-- ================================================================== headers

/-- What stands in the parentheses behind the first of some tokens, if nothing
stands behind them. -/
def parenthesized (header : List Token) : Checked (Option (List Token)) := do
  if header.length < 3 then return none
  else if (← tokenAt header 1) ≠ .mark .lparen then return none
  else
    match ← matching header 1 with
    | none => return none
    | some close =>
      if close = (← pred header.length) then return some (← range header 2 close)
      else return none

section Headers

variable (refused : Fault) (tokens : List Token)

/-- The expression in the parentheses of a header. -/
def condition : Checked Expr := do
  expression (← Checked.orRefuse refused (← parenthesized tokens))

/-- The bounds of a counting loop. -/
def count : Checked Stmt.Header := do
  match ← commas (← Checked.orRefuse refused (← parenthesized tokens)) with
  | [name, start, stop] =>
    let name ← Checked.ofResult (Token.soleName name)
    let start ← expression start
    let stop ← expression stop
    return .countLoop name start stop
  | _ => .error (.fault refused)

/-- The parameters of a definition. -/
def params (inside : List Token) : Checked (List String) :=
  if inside.isEmpty then .ok []
  else do (← commas inside).mapM fun name => Checked.ofResult (Token.soleName name)

/-- What stands in the first parentheses of a header, which begin at a place. -/
def parenthesizedAt (paren : Nat) : Checked (List Token) := do
  let header ← range tokens (← pred paren) tokens.length
  Checked.orRefuse refused (← parenthesized header)

/-- The name and the parameters of a definition. -/
def definition : Checked Stmt.Header := do
  let paren ← Checked.orRefuse refused (tokens.findIdx? (· = .mark .lparen))
  let name ← Checked.ofResult (Token.soleName (← range tokens 1 paren))
  return .define name (← params (← parenthesizedAt refused tokens paren))

/-- The name and the parent of a class. -/
def classHeader : Checked Stmt.Header := do
  let paren := tokens.findIdx? (· = .mark .lparen)
  let name ← Checked.ofResult (Token.soleName (← range tokens 1 (paren.getD tokens.length)))
  match paren with
  | none => return .declareClass name none
  | some paren => return .declareClass name (some (← expression (← parenthesizedAt refused tokens paren)))

/-- The header that some tokens spell. -/
def header (goesOn : Bool) : Checked Stmt.Header :=
  match tokens.head? with
  | some (.name word) =>
    if word = "if" then (condition refused tokens).map .branch
    else if word = "try" then if tokens.length = 1 then .ok .attempt else .error (.fault refused)
    else if goesOn then .error (.fault refused)
    else if word = "while" then (condition refused tokens).map .whileLoop
    else if word = "for" then (condition refused tokens).map .forLoop
    else if word = "count" then count refused tokens
    else if word = "thread" then if tokens.length = 1 then .ok .thread else .error (.fault refused)
    else if word = "def" then definition refused tokens
    else if word = "class" then classHeader refused tokens
    else .error (.fault refused)
  | _ => .error (.fault refused)

end Headers

-- ============================================================== assignments

section Assignments

variable {refused : Fault} {tokens : List Token}

theorem place_eq (tokens : List Token) :
    place tokens = Checked.ofResult (Place.ofTokens tokens) := by
  unfold Place.ofTokens
  split
  case h_1 x => rfl
  case h_2 noName =>
    unfold place
    split
    case h_1 x => exact (noName x rfl).elim
    case h_2 =>
      rw [expression_eq]
      cases Expr.ofTokens tokens with
      | error => rfl
      | ok value => cases value <;> rfl

/-- An assignment stands between the tokens of its place and those of its
value. -/
theorem assignmentFrom_eq (tokens : List Token) (start depth : Nat) :
    (Token.splitAssignment depth tokens = none ∧ assignmentFrom start depth tokens = none) ∨
    ∃ target token op value, Token.splitAssignment depth tokens = some (target, op, value) ∧
      tokens = target ++ token :: value ∧ token.assignment? = some op ∧
        assignmentFrom start depth tokens = some (start + target.length) := by
  induction tokens generalizing start depth with
  | nil => exact .inl ⟨rfl, rfl⟩
  | cons token rest ih =>
    rw [Token.splitAssignment, assignmentFrom]
    by_cases here : depth = 0 ∧ token.assignment?.isSome
    · obtain ⟨op, assigns⟩ := Option.isSome_iff_exists.1 here.2
      refine .inr ⟨[], token, op, rest, ?_, rfl, assigns, ?_⟩
      · simp [here.1, assigns]
      · rw [if_pos here]
        rfl
    · have other : (if depth = 0 then token.assignment? else none) = none := by
        split
        case isTrue outside =>
          cases assigns : token.assignment? with
          | none => rfl
          | some op => exact absurd ⟨outside, by rw [assigns]; rfl⟩ here
        case isFalse => rfl
      rw [if_neg here, other]
      rcases ih (start + 1) (token.nest depth) with ⟨none, none'⟩ |
        ⟨target, assigning, op, value, cut, whole, assigns, found⟩
      · exact .inl ⟨by simp [none], none'⟩
      · refine .inr ⟨token :: target, assigning, op, value, by simp [cut], by rw [whole]; rfl,
          assigns, ?_⟩
        rw [found, List.length_cons, Nat.add_assoc, Nat.add_comm 1]

theorem step_eq (front : List Token) (token : Token) (delta : Float) :
    step (front ++ [token]) delta =
      Checked.ofResult ((Place.ofTokens front).map fun target => .step target delta) := by
  have last : pred (front ++ [token]).length = .ok front.length := by simp
  have cut : range (front ++ [token]) 0 front.length = .ok front := by
    simpa using range_append [] front [token]
  rw [step, last]
  simp only [Checked.ok_bind, cut, place_eq]
  cases Place.ofTokens front <;> rfl

theorem plain_eq (refused : Fault) (tokens : List Token) :
    plain refused tokens = Checked.ofResult (Stmt.ofPlainTokens refused tokens) := by
  rw [plain, Stmt.ofPlainTokens]
  rcases assignmentFrom_eq tokens 0 0 with ⟨cut, found⟩ |
    ⟨target, token, op, value, cut, whole, assigns, found⟩
  · rw [found, cut]
    have steps : ∀ (mark : Mark) (delta : Float), tokens.getLast? = some (.mark mark) →
        step tokens delta = Checked.ofResult ((Place.ofTokens tokens.dropLast).map
          fun target => .step target delta) := by
      intro mark delta last
      obtain ⟨front, rfl⟩ := List.getLast?_eq_some_iff.1 last
      rw [step_eq, List.dropLast_concat]
    simp only
    split
    case h_1 last =>
      have cut : Token.splitStep tokens = some (tokens.dropLast, 1) := by rw [Token.splitStep, last]
      rw [steps .plusPlus 1 last, cut]
      simp only
      cases Place.ofTokens tokens.dropLast <;> rfl
    case h_2 last =>
      have cut : Token.splitStep tokens = some (tokens.dropLast, -1) := by rw [Token.splitStep, last]
      rw [steps .minusMinus (-1) last, cut]
      simp only
      cases Place.ofTokens tokens.dropLast <;> rfl
    case h_3 noPlus noMinus =>
      have cut : Token.splitStep tokens = none := by
        rw [Token.splitStep]
        split
        case h_1 last => exact (noPlus last).elim
        case h_2 last => exact (noMinus last).elim
        case h_3 => rfl
      rw [expression_eq, cut]
      cases Expr.ofTokens tokens with
      | error => rfl
      | ok value => cases value <;> rfl
  · have front : range tokens 0 target.length = .ok target := by
      rw [whole]
      simpa using range_append [] target (token :: value)
    have next : target.length + 1 = (target ++ [token]).length := by simp
    have back : range tokens (target.length + 1) tokens.length = .ok value := by
      rw [whole, next, List.append_cons]
      exact range_behind _ value
    have there : tokenAt tokens target.length = .ok token := by
      rw [whole]
      exact tokenAt_append target value token
    rw [found, cut, Nat.zero_add]
    simp only [front, back, there, Checked.ok_bind, place_eq, expression_eq, assigns]
    cases Place.ofTokens target with
    | error => rfl
    | ok target' =>
      cases Expr.ofTokens value with
      | error => rfl
      | ok value' => cases op <;> rfl

/-- An instruction is read as the parser that runs does it. -/
theorem instructionTokens_eq (refused : Fault) (tokens : List Token) :
    instructionTokens refused tokens = Checked.ofResult (Stmt.ofTokens refused tokens) := by
  cases tokens with
  | nil => rfl
  | cons token rest =>
    have behind : range (token :: rest) 1 (token :: rest).length = .ok rest :=
      range_behind [token] rest
    rw [instructionTokens]
    unfold Stmt.ofTokens
    cases token with
    | keyword word =>
      cases word with
      | «return» =>
        simp only [List.head?_cons, behind, Checked.ok_bind]
        cases rest with
        | nil => rfl
        | cons first rest =>
          simp only [List.isEmpty_cons, Bool.false_eq_true, ↓reduceIte, expression_eq]
          cases Expr.ofTokens (first :: rest) <;> rfl
      | del =>
        simp only [List.head?_cons, behind, Checked.ok_bind, place_eq]
        cases Place.ofTokens rest <;> rfl
      | make =>
        simp only [List.head?_cons, behind, Checked.ok_bind]
        cases Token.soleName rest <;> rfl
      | true | false | null | new => exact plain_eq refused _
    | number | string | name | mark => exact plain_eq refused _

theorem instruction_eq (text : Span) :
    instruction text = Checked.ofResult (Stmt.readInstruction text) := by
  rw [instruction, Stmt.readInstruction, scanned, tokensOf_eq]
  cases Token.scan text.chars with
  | error => rfl
  | ok tokens => exact instructionTokens_eq _ tokens

end Assignments

-- ============================================================== parentheses

section Parentheses

variable {refused : Fault} {rest : List Token}

/-- The parentheses behind the first token are all that is behind it. -/
theorem parenthesized_eq (first : Token) (rest : List Token) :
    parenthesized (first :: rest) = .ok (Token.allInParens? rest) := by
  rw [parenthesized]
  rcases rest with _ | ⟨second, _ | ⟨third, rest⟩⟩
  · rfl
  · rw [if_pos (by simp)]
    cases second with
    | mark m => cases m <;> rfl
    | number | string | name | keyword => rfl
  · have there : tokenAt (first :: second :: third :: rest) 1 = .ok second :=
      tokenAt_append [first] (third :: rest) second
    rw [if_neg (by simp), there]
    simp only [Checked.ok_bind]
    by_cases isParen : second = .mark .lparen
    case neg =>
      rw [if_pos isParen]
      unfold Token.allInParens?
      split
      case h_1 same => exact absurd (List.cons.inj same).1 isParen
      case h_2 => rfl
    case pos =>
      subst isParen
      rw [if_neg (by simp)]
      rcases matching_append closes_paren [first] (third :: rest) with ⟨cut, found⟩ |
        ⟨inside, after, cut, whole, found⟩
      · replace found : matching (first :: .mark .lparen :: third :: rest) 1 = .ok none := found
        rw [found, Token.allInParens?, Token.inParens?, cut]
        rfl
      · replace found : matching (first :: .mark .lparen :: third :: rest) 1 =
            .ok (some (2 + inside.length)) := found
        replace whole : first :: .mark .lparen :: third :: rest =
            [first, .mark .lparen] ++ (inside ++ .mark .rparen :: after) := whole
        have length : (first :: .mark .lparen :: third :: rest).length =
            (2 + inside.length + after.length) + 1 := by
          rw [whole]
          simp only [List.length_append, List.length_cons, List.length_nil]
          omega
        rw [found, Token.allInParens?, Token.inParens?, cut]
        simp only [Checked.ok_bind, length, pred_succ]
        cases after with
        | nil =>
          have cutInside : range (first :: .mark .lparen :: third :: rest) 2 (2 + inside.length) =
              .ok inside := by
            rw [whole]
            exact range_append [first, .mark .lparen] inside [.mark .rparen]
          rw [if_pos (by simp), cutInside]
          rfl
        | cons token after =>
          rw [if_neg (by simp)]
          rfl

theorem condition_eq (refused : Fault) (tokens : List Token) :
    condition refused tokens = Checked.ofResult (Stmt.readCondition refused (tokens.drop 1)) := by
  cases tokens with
  | nil => rfl
  | cons first rest =>
    rw [condition, parenthesized_eq, List.drop_one, List.tail_cons, Stmt.readCondition]
    cases Token.allInParens? rest with
    | none => rfl
    | some inside => exact expression_eq inside

theorem count_eq (refused : Fault) (first : Token) (rest : List Token) :
    count refused (first :: rest) = Checked.ofResult (Stmt.readCount refused rest) := by
  rw [count, parenthesized_eq, Stmt.readCount]
  cases Token.allInParens? rest with
  | none => rfl
  | some inside =>
    simp only [Checked.ok_bind, Checked.orRefuse_some, commas_eq]
    rcases Token.splitCommas 0 inside with _ | ⟨name, _ | ⟨start, _ | ⟨stop, _ | ⟨more, pieces⟩⟩⟩⟩
    · rfl
    · rfl
    · rfl
    · simp only [expression_eq]
      cases Token.soleName name with
      | error => rfl
      | ok name =>
        cases Expr.ofTokens start with
        | error => rfl
        | ok start => cases Expr.ofTokens stop <;> rfl
    · rfl

theorem params_eq (inside : List Token) :
    params inside = Checked.ofResult (Stmt.readParams inside) := by
  rw [params, Stmt.readParams]
  split
  · rfl
  · rw [commas_eq]
    exact mapM_ofResult fun _ _ => rfl

/-- The first parenthesis of some tokens stands behind those before it. -/
theorem splitParen_cases (rest : List Token) :
    (Stmt.splitParen rest = (rest, []) ∧ rest.findIdx? (· = .mark .lparen) = none) ∨
    ∃ name behind, Stmt.splitParen rest = (name, .mark .lparen :: behind) ∧
      rest = name ++ .mark .lparen :: behind ∧
        rest.findIdx? (· = .mark .lparen) = some name.length := by
  simp only [Stmt.splitParen, List.span_eq_takeWhile_dropWhile]
  induction rest with
  | nil => exact .inl ⟨rfl, rfl⟩
  | cons token rest ih =>
    by_cases isParen : token = .mark .lparen
    · subst isParen
      exact .inr ⟨[], rest, rfl, rfl, rfl⟩
    · have goesOn : (decide (token ≠ .mark .lparen)) = true := decide_eq_true isParen
      rw [List.takeWhile_cons, if_pos goesOn, List.dropWhile_cons, if_pos goesOn,
        List.findIdx?_cons, if_neg (by simpa using isParen)]
      rcases ih with ⟨cut, none⟩ | ⟨name, behind, cut, whole, found⟩
      · obtain ⟨front, back⟩ := Prod.mk.inj cut
        exact .inl ⟨by rw [front, back], by rw [none]; rfl⟩
      · obtain ⟨front, back⟩ := Prod.mk.inj cut
        exact .inr ⟨token :: name, behind, by rw [front, back], by rw [whole]; rfl, by rw [found]; rfl⟩

/-- Behind the first word of a header a parenthesis stands at a place above
zero, and one before it a token stands. -/
theorem parenthesizedAt_eq (refused : Fault) (word : Token) (name behind : List Token) :
    parenthesizedAt refused (word :: (name ++ .mark .lparen :: behind)) (name.length + 1) =
      Checked.orRefuse refused (Token.allInParens? (.mark .lparen :: behind)) := by
  obtain ⟨front, last, split⟩ : ∃ front last, word :: name = front ++ [last] :=
    ⟨_, _, (List.dropLast_concat_getLast (List.cons_ne_nil word name)).symm⟩
  have length : name.length = front.length := by
    have := congrArg List.length split
    simp at this
    exact this
  have whole : word :: (name ++ .mark .lparen :: behind) =
      front ++ (last :: .mark .lparen :: behind) := by
    rw [← List.cons_append, split, List.append_assoc]
    rfl
  rw [parenthesizedAt, pred_succ, whole, length]
  simp only [Checked.ok_bind, range_behind, parenthesized_eq]

end Parentheses

-- ================================================================== headers

section Headers

variable {refused : Fault}

/-- The name stands between the first word and the parenthesis. -/
theorem range_name {rest name behind : List Token} {word : Token}
    (whole : rest = name ++ .mark .lparen :: behind) :
    range (word :: rest) 1 (name.length + 1) = .ok name := by
  rw [whole, Nat.add_comm]
  exact range_append [word] name (.mark .lparen :: behind)

theorem definition_eq (refused : Fault) (word : String) (rest : List Token) :
    definition refused (.name word :: rest) =
      Checked.ofResult (Stmt.readDefinition refused rest) := by
  rw [definition, Stmt.readDefinition, List.findIdx?_cons, if_neg (by simp)]
  rcases splitParen_cases rest with ⟨cut, none⟩ | ⟨name, behind, cut, whole, found⟩
  · rw [cut, none]
    rfl
  · rw [cut, found]
    simp only [Option.map_some, Checked.orRefuse_some, Checked.ok_bind, range_name whole]
    cases Token.soleName name with
    | error => rfl
    | ok sole =>
      simp only [Checked.ofResult_ok, Checked.ok_bind, whole, parenthesizedAt_eq]
      cases Token.allInParens? (.mark .lparen :: behind) with
      | none => rfl
      | some inside =>
        simp only [Checked.orRefuse_some, Checked.ok_bind, params_eq]
        cases Stmt.readParams inside <;> rfl

theorem classHeader_eq (refused : Fault) (word : String) (rest : List Token) :
    classHeader refused (.name word :: rest) =
      Checked.ofResult (Stmt.readClass refused rest) := by
  rw [classHeader, Stmt.readClass, List.findIdx?_cons, if_neg (by simp)]
  rcases splitParen_cases rest with ⟨cut, none⟩ | ⟨name, behind, cut, whole, found⟩
  · have isName : range (.name word :: rest) 1 (Token.name word :: rest).length = .ok rest :=
      range_behind [.name word] rest
    rw [cut, none]
    simp only [Option.map_none, Option.getD_none, isName, Checked.ok_bind]
    cases Token.soleName rest <;> rfl
  · rw [cut, found]
    simp only [Option.map_some, Option.getD_some, range_name whole, Checked.ok_bind]
    cases Token.soleName name with
    | error => rfl
    | ok sole =>
      simp only [Checked.ofResult_ok, Checked.ok_bind, whole, parenthesizedAt_eq]
      cases Token.allInParens? (.mark .lparen :: behind) with
      | none => rfl
      | some inside =>
        simp only [Checked.orRefuse_some, Checked.ok_bind, expression_eq]
        cases Expr.ofTokens inside <;> rfl

/-- A header is read as the parser that runs does it. -/
theorem header_eq (refused : Fault) (tokens : List Token) (goesOn : Bool) :
    header refused tokens goesOn = Checked.ofResult (Stmt.Header.ofTokens refused goesOn tokens) := by
  cases tokens with
  | nil => rfl
  | cons token rest =>
    cases token with
    | number | string | keyword | mark => rfl
    | name word =>
      have alone : ((Token.name word :: rest).length = 1) = (rest.isEmpty = true) := by
        cases rest <;> simp
      simp only [header, List.head?_cons, Stmt.Header.ofTokens, condition_eq, List.drop_one,
        List.tail_cons, count_eq, definition_eq, classHeader_eq, alone, apply_ite Checked.ofResult, Checked.ofResult_map,
        Checked.ofResult_ok, Checked.ofResult_error]

end Headers

end ByOffset

end RoutineScript
