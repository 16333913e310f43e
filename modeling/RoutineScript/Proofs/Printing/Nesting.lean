/-
Tokens whose parentheses and brackets match.

Every function of the parser that looks for a mark goes through tokens and
counts how deep in parentheses and brackets it stands. `Nested flat` are the
token lists it comes out of as deep as it went in, where only tokens of the
sort `flat` stand outside parentheses and brackets. Each of these functions
has one lemma here: it passes nested tokens that show nothing it looks for.
-/
import RoutineScript.Stmt.Reader

namespace RoutineScript

-- ================================================================== nesting

/-- The mark that closes what a mark opens within an expression. -/
def Mark.closer? : Mark → Option Mark
  | lparen => some rparen
  | lbracket => some rbracket
  | _ => none

/-- The two sorts of delimiters. -/
theorem closer?_cases {opener closer : Mark} (closes : opener.closer? = some closer) :
    (opener = .lparen ∧ closer = .rparen) ∨ (opener = .lbracket ∧ closer = .rbracket) := by
  cases opener <;> cases closes
  · exact .inl ⟨rfl, rfl⟩
  · exact .inr ⟨rfl, rfl⟩

/-- Whether a token is neither a delimiter nor a terminator. -/
def Token.isPlain : Token → Bool
  | mark .lparen | mark .rparen | mark .lbracket | mark .rbracket
  | mark .lbrace | mark .rbrace | mark .semicolon => false
  | _ => true

/-- Tokens with matching delimiters, and with `flat` tokens outside them. -/
inductive Nested : (Token → Prop) → List Token → Prop where
  | nil {flat : Token → Prop} : Nested flat []
  | plain {flat : Token → Prop} {token : Token} {rest : List Token} (own : flat token)
      (noDelimiter : token.isPlain = true) (behind : Nested flat rest) :
    Nested flat (token :: rest)
  | enclosed {flat : Token → Prop} {opener closer : Mark} {inside rest : List Token}
      (closes : opener.closer? = some closer) (within : Nested (fun _ => True) inside)
      (behind : Nested flat rest) :
    Nested flat (.mark opener :: (inside ++ .mark closer :: rest))

namespace Nested

variable {flat : Token → Prop} {tokens : List Token}

theorem append {front : List Token} (first : Nested flat front) (second : Nested flat tokens) :
    Nested flat (front ++ tokens) := by
  induction first with
  | nil => exact second
  | plain own noDelimiter _ ih => exact .plain own noDelimiter (ih second)
  | enclosed closes within _ _ ih =>
    rw [List.cons_append, List.append_assoc, List.cons_append]
    exact .enclosed closes within (ih second)

theorem mono {flat' : Token → Prop} (nested : Nested flat tokens)
    (weaker : ∀ token, flat token → flat' token) : Nested flat' tokens := by
  induction nested with
  | nil => exact .nil
  | plain own noDelimiter _ ih => exact .plain (weaker _ own) noDelimiter (ih weaker)
  | enclosed closes within _ _ ih => exact .enclosed closes within (ih weaker)

/-- Where anything may stand. -/
theorem loose (nested : Nested flat tokens) : Nested (fun _ => True) tokens :=
  nested.mono fun _ _ => trivial

end Nested

/-- No brace and no terminator stands among nested tokens. -/
theorem Nested.isInner {flat : Token → Prop} {tokens : List Token} (nested : Nested flat tokens) :
    ∀ t ∈ tokens, t ≠ .mark .lbrace ∧ t ≠ .mark .rbrace ∧ t ≠ .mark .semicolon := by
  induction nested with
  | nil => exact List.forall_mem_nil _
  | plain own noDelimiter _ ih =>
    refine List.forall_mem_cons.2 ⟨?_, ih⟩
    refine ⟨?_, ?_, ?_⟩ <;> (rintro rfl; cases noDelimiter)
  | enclosed closes _ _ ihWithin ihBehind =>
    refine List.forall_mem_cons.2
      ⟨?_, List.forall_mem_append.2 ⟨ihWithin, List.forall_mem_cons.2 ⟨?_, ihBehind⟩⟩⟩
    · rcases closer?_cases closes with ⟨rfl, rfl⟩ | ⟨rfl, rfl⟩ <;> simp
    · rcases closer?_cases closes with ⟨rfl, rfl⟩ | ⟨rfl, rfl⟩ <;> simp

theorem nest_of_isPlain {token : Token} (noDelimiter : token.isPlain = true) (depth : Nat) :
    token.nest depth = depth := by
  unfold Token.nest
  split <;> first | rfl | cases noDelimiter

theorem nest_opener {opener closer : Mark} (closes : opener.closer? = some closer) (depth : Nat) :
    (Token.mark opener).nest depth = depth + 1 := by
  rcases closer?_cases closes with ⟨rfl, rfl⟩ | ⟨rfl, rfl⟩ <;> rfl

theorem nest_closer {opener closer : Mark} (closes : opener.closer? = some closer) (depth : Nat) :
    (Token.mark closer).nest (depth + 1) = depth := by
  rcases closer?_cases closes with ⟨rfl, rfl⟩ | ⟨rfl, rfl⟩ <;> rfl

-- =================================================================== closing

/-- A result whose first part has more tokens in front. -/
def inFront {β : Type} (front : List Token) (result : List Token × β) : List Token × β :=
  (front ++ result.1, result.2)

theorem map_inFront_nil {β : Type} (result : Option (List Token × β)) :
    result.map (inFront []) = result :=
  Option.map_id'

theorem map_inFront_map {β : Type} (front behind : List Token)
    (result : Option (List Token × β)) :
    (result.map (inFront behind)).map (inFront front) = result.map (inFront (front ++ behind)) := by
  cases result with
  | none => rfl
  | some p => simp [inFront]

section

variable {flat : Token → Prop} {tokens : List Token} {opener closer : Mark}

/-- A plain token closes nothing and opens nothing. -/
theorem ne_of_isPlain {token : Token} (noDelimiter : token.isPlain = true)
    (closes : opener.closer? = some closer) : token ≠ .mark opener ∧ token ≠ .mark closer := by
  constructor <;> rintro rfl <;>
    rcases closer?_cases closes with ⟨rfl, rfl⟩ | ⟨rfl, rfl⟩ <;> cases noDelimiter

theorem splitClosing_other {token : Token} (notOpener : token ≠ .mark opener)
    (notCloser : token ≠ .mark closer) (depth : Nat) (rest : List Token) :
    Token.splitClosing opener closer depth (token :: rest)
      = (Token.splitClosing opener closer depth rest).map (inFront [token]) := by
  rw [Token.splitClosing, if_neg notCloser]
  simp only [if_neg notOpener]
  rfl

theorem splitClosing_opener (closes : opener.closer? = some closer) (depth : Nat)
    (rest : List Token) :
    Token.splitClosing opener closer depth (.mark opener :: rest)
      = (Token.splitClosing opener closer (depth + 1) rest).map
          (inFront [.mark opener]) := by
  have distinct : Token.mark opener ≠ .mark closer := by
    rcases closer?_cases closes with ⟨rfl, rfl⟩ | ⟨rfl, rfl⟩ <;> simp
  rw [Token.splitClosing, if_neg distinct]
  simp only [↓reduceIte]
  rfl

theorem splitClosing_closer (depth : Nat) (rest : List Token) :
    Token.splitClosing opener closer (depth + 2) (.mark closer :: rest)
      = (Token.splitClosing opener closer (depth + 1) rest).map
          (inFront [.mark closer]) := by
  rw [Token.splitClosing, if_pos rfl, if_neg (by omega)]
  rfl

/-- The search for a closing delimiter passes nested tokens. -/
theorem splitClosing_nested (nested : Nested flat tokens)
    (closes : opener.closer? = some closer) (depth : Nat) (rest : List Token) :
    Token.splitClosing opener closer (depth + 1) (tokens ++ rest)
      = (Token.splitClosing opener closer (depth + 1) rest).map (inFront tokens) := by
  induction nested generalizing depth rest with
  | nil => exact (map_inFront_nil _).symm
  | plain own noDelimiter _ ih =>
    obtain ⟨notOpener, notCloser⟩ := ne_of_isPlain noDelimiter closes
    rw [List.cons_append, splitClosing_other notOpener notCloser, ih, map_inFront_map]
    rfl
  | @enclosed _ opener' closer' inside after closes' within behind ihWithin ihBehind =>
    rw [List.cons_append, List.append_assoc, List.cons_append]
    by_cases same : opener' = opener
    · -- one delimiter more is open up to the one that closes it
      subst same
      have : closer' = closer := Option.some.inj (closes'.symm.trans closes)
      subst this
      rw [splitClosing_opener closes, ihWithin, splitClosing_closer, ihBehind,
        map_inFront_map, map_inFront_map, map_inFront_map]
      simp
    · have others : opener' ≠ closer ∧ closer' ≠ closer ∧ closer' ≠ opener := by
        rcases closer?_cases closes with ⟨rfl, rfl⟩ | ⟨rfl, rfl⟩ <;>
          rcases closer?_cases closes' with ⟨rfl, rfl⟩ | ⟨rfl, rfl⟩ <;> simp_all
      obtain ⟨first, second, third⟩ := others
      rw [splitClosing_other (by simpa) (by simpa), ihWithin,
        splitClosing_other (by simpa) (by simpa), ihBehind,
        map_inFront_map, map_inFront_map, map_inFront_map]
      simp

/-- What a delimiter encloses is found. -/
theorem splitClosing_enclosed (nested : Nested flat tokens)
    (closes : opener.closer? = some closer) (rest : List Token) :
    Token.splitClosing opener closer 1 (tokens ++ .mark closer :: rest)
      = some (tokens, rest) := by
  rw [splitClosing_nested nested closes 0, Token.splitClosing, if_pos rfl, if_pos (by omega)]
  simp [inFront]

end

-- ==================================================== commas and assignments

section

variable {flat : Token → Prop} {tokens : List Token}

/-- Pieces whose first one has more tokens in front. -/
def prepend (front : List Token) : List (List Token) → List (List Token)
  | [] => [front]
  | piece :: pieces => (front ++ piece) :: pieces

theorem splitCommas_ne_nil (depth : Nat) (rest : List Token) :
    Token.splitCommas depth rest ≠ [] := by
  cases rest with
  | nil => simp [Token.splitCommas]
  | cons token rest =>
    rw [Token.splitCommas]
    split
    · exact List.cons_ne_nil _ _
    · split <;> exact List.cons_ne_nil _ _

theorem prepend_prepend (front behind : List Token) (pieces : List (List Token)) :
    prepend front (prepend behind pieces) = prepend (front ++ behind) pieces := by
  cases pieces with
  | nil => rfl
  | cons piece pieces => simp [prepend]

theorem splitCommas_other {depth : Nat} {token : Token}
    (noComma : ¬(depth = 0 ∧ token = .mark .comma)) (rest : List Token) :
    Token.splitCommas depth (token :: rest)
      = prepend [token] (Token.splitCommas (token.nest depth) rest) := by
  rw [Token.splitCommas, if_neg noComma]
  cases Token.splitCommas (token.nest depth) rest <;> rfl

/-- Commas in nested tokens do not count, save those that stand outside. -/
theorem splitCommas_nested (nested : Nested flat tokens) (depth : Nat)
    (noComma : depth = 0 → ∀ token, flat token → token ≠ .mark .comma) (rest : List Token) :
    Token.splitCommas depth (tokens ++ rest)
      = prepend tokens (Token.splitCommas depth rest) := by
  induction nested generalizing depth rest with
  | nil =>
    obtain ⟨piece, pieces, eq⟩ := List.exists_cons_of_ne_nil (splitCommas_ne_nil depth rest)
    rw [List.nil_append, eq]
    rfl
  | plain own noDelimiter _ ih =>
    rw [List.cons_append, splitCommas_other fun h => noComma h.1 _ own h.2,
      nest_of_isPlain noDelimiter, ih depth noComma, prepend_prepend]
    rfl
  | @enclosed _ opener closer inside after closes within behind ihWithin ihBehind =>
    have notComma : opener ≠ .comma ∧ closer ≠ .comma := by
      rcases closer?_cases closes with ⟨rfl, rfl⟩ | ⟨rfl, rfl⟩ <;> simp
    rw [List.cons_append, List.append_assoc, List.cons_append,
      splitCommas_other (by simp [notComma.1]), nest_opener closes,
      ihWithin _ (by omega), splitCommas_other (by simp [notComma.2]), nest_closer closes,
      ihBehind depth noComma, prepend_prepend, prepend_prepend, prepend_prepend]
    simp

theorem splitAssignment_other {depth : Nat} {token : Token}
    (noAssignment : depth = 0 → token.assignment? = none) (rest : List Token) :
    Token.splitAssignment depth (token :: rest)
      = (Token.splitAssignment (token.nest depth) rest).map (inFront [token]) := by
  have : (if depth = 0 then token.assignment? else none) = none := by
    split
    · exact noAssignment ‹_›
    · rfl
  rw [Token.splitAssignment, this]
  rfl

/-- Assignments in nested tokens do not count, save those that stand
outside. -/
theorem splitAssignment_nested (nested : Nested flat tokens) (depth : Nat)
    (noAssignment : depth = 0 → ∀ token, flat token → token.assignment? = none)
    (rest : List Token) :
    Token.splitAssignment depth (tokens ++ rest)
      = (Token.splitAssignment depth rest).map (inFront tokens) := by
  induction nested generalizing depth rest with
  | nil => exact (map_inFront_nil _).symm
  | plain own noDelimiter _ ih =>
    rw [List.cons_append, splitAssignment_other fun h => noAssignment h _ own,
      nest_of_isPlain noDelimiter, ih depth noAssignment, map_inFront_map]
    rfl
  | @enclosed _ opener closer inside after closes within behind ihWithin ihBehind =>
    have neither : (Token.mark opener).assignment? = none
        ∧ (Token.mark closer).assignment? = none := by
      rcases closer?_cases closes with ⟨rfl, rfl⟩ | ⟨rfl, rfl⟩ <;> exact ⟨rfl, rfl⟩
    rw [List.cons_append, List.append_assoc, List.cons_append,
      splitAssignment_other fun _ => neither.1, nest_opener closes,
      ihWithin _ (by omega), splitAssignment_other fun _ => neither.2, nest_closer closes,
      ihBehind depth noAssignment, map_inFront_map, map_inFront_map, map_inFront_map]
    simp

end

-- =================================================================== chains

section

variable {flat : Token → Prop} {tokens : List Token}

/-- Whether an operand begins behind some tokens. -/
def leadsBehind (leading : Bool) (tokens : List Token) : Bool :=
  tokens.foldl (fun _ token => token.leadsOperand) leading

/-- A chain whose first operand has more tokens in front. -/
def Chain.inFront (front : List Token) (chain : Chain) : Chain :=
  ⟨front ++ chain.first, chain.rest⟩

theorem ofTokens_other {depth : Nat} {leading : Bool} {token : Token}
    (noOperator : token.operatorAt? depth leading = none) (rest : List Token) :
    Chain.ofTokens depth leading (token :: rest)
      = (Chain.ofTokens (token.nest depth) token.leadsOperand rest).inFront [token] := by
  rw [Chain.ofTokens, noOperator]
  rfl

theorem operatorAt?_eq_none {depth : Nat} {leading : Bool} {token : Token}
    (noOperator : depth = 0 → token.binaryOp? = none) :
    token.operatorAt? depth leading = none := by
  rw [Token.operatorAt?]
  split
  · rw [noOperator ‹_›]
    rfl
  · rfl

/-- Operators in nested tokens do not count, save those that stand outside. -/
theorem ofTokens_nested (nested : Nested flat tokens) (depth : Nat) (leading : Bool)
    (noOperator : depth = 0 → ∀ token, flat token → token.binaryOp? = none)
    (rest : List Token) :
    Chain.ofTokens depth leading (tokens ++ rest)
      = (Chain.ofTokens depth (leadsBehind leading tokens) rest).inFront tokens := by
  induction nested generalizing depth leading rest with
  | nil => rfl
  | plain own noDelimiter _ ih =>
    rw [List.cons_append, ofTokens_other (operatorAt?_eq_none fun h => noOperator h _ own),
      nest_of_isPlain noDelimiter, ih depth _ noOperator]
    rfl
  | @enclosed _ opener closer inside after closes within behind ihWithin ihBehind =>
    have neither : (Token.mark opener).binaryOp? = none
        ∧ (Token.mark closer).binaryOp? = none := by
      rcases closer?_cases closes with ⟨rfl, rfl⟩ | ⟨rfl, rfl⟩ <;> exact ⟨rfl, rfl⟩
    rw [List.cons_append, List.append_assoc, List.cons_append,
      ofTokens_other (operatorAt?_eq_none fun _ => neither.1), nest_opener closes,
      ihWithin _ _ (by omega), ofTokens_other (operatorAt?_eq_none fun _ => neither.2),
      nest_closer closes, ihBehind depth _ noOperator]
    simp [Chain.inFront, leadsBehind, List.foldl_append]

theorem showsString_deep (token : Token) (depth : Nat) (rest : List Token) :
    Chain.showsString (depth + 1) (token :: rest)
      = Chain.showsString (token.nest (depth + 1)) rest := by
  cases token <;> rfl

/-- Within parentheses and brackets no string shows. -/
theorem showsString_nested (nested : Nested flat tokens) (depth : Nat) (rest : List Token) :
    Chain.showsString (depth + 1) (tokens ++ rest) = Chain.showsString (depth + 1) rest := by
  induction nested generalizing depth rest with
  | nil => rfl
  | plain own noDelimiter _ ih =>
    rw [List.cons_append, showsString_deep, nest_of_isPlain noDelimiter, ih]
  | @enclosed _ opener closer inside after closes within behind ihWithin ihBehind =>
    rw [List.cons_append, List.append_assoc, List.cons_append, showsString_deep,
      nest_opener closes, ihWithin, showsString_deep, nest_closer closes, ihBehind]

end

end RoutineScript
