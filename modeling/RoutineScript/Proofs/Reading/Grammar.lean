/-
A grammar of expressions, which all that is read obeys.

The reader of expressions cuts tokens at operators and delimiters that it
finds by counting. `Phrase.Derives` says which tokens an expression is made
of without cutting anything: operands with operators between them, signs in
front of a value, and what may be attached to it.

# The argument

Every cut of the reader leaves shorter tokens. The operands of a chain with
their operators are the tokens it was read from, and the pieces between commas
are what they were cut from; so what is read is derived, by recursion on the
length of the tokens.
-/
import RoutineScript.Proofs.Offsets.Operands

namespace RoutineScript

-- ================================================================= grammar

/-- What expressions are made of. -/
inductive Phrase where
  /-- Operands with operators between them. -/
  | expression
  /-- Signs in front of a value. -/
  | operand
  /-- A primary with its attachments. -/
  | value
  | attachments
  | primary
  | arguments
  /-- Expressions with commas between them, one at least. -/
  | items

/-- The tokens that are a phrase. -/
inductive Phrase.Derives : Phrase → List Token → Prop where
  | single {tokens : List Token} (own : Derives .operand tokens) : Derives .expression tokens
  | binary {first behind : List Token} (op : BinaryOp) (own : Derives .operand first)
      (others : Derives .expression behind) :
    Derives .expression (first ++ .mark op.mark :: behind)
  | unsigned {tokens : List Token} (own : Derives .value tokens) : Derives .operand tokens
  | signed {tokens : List Token} (op : UnaryOp) (own : Derives .operand tokens) :
    Derives .operand (.mark op.mark :: tokens)
  | attached {first behind : List Token} (own : Derives .primary first)
      (others : Derives .attachments behind) : Derives .value (first ++ behind)
  | bare : Derives .attachments []
  | member {behind : List Token} (m : String) (others : Derives .attachments behind) :
    Derives .attachments (.mark .dot :: .name m :: behind)
  | method {args behind : List Token} (m : String) (own : Derives .arguments args)
      (others : Derives .attachments behind) :
    Derives .attachments (.mark .dot :: .name m :: (Token.parens args ++ behind))
  | index {position behind : List Token} (own : Derives .expression position)
      (others : Derives .attachments behind) :
    Derives .attachments (Token.brackets position ++ behind)
  | number (x : Float) : Derives .primary [.number x]
  | string (s : String) : Derives .primary [.string s]
  | bool (b : Bool) : Derives .primary [.keyword (Keyword.ofBool b)]
  | null : Derives .primary [.keyword .null]
  | name (x : String) : Derives .primary [.name x]
  | call {args : List Token} (f : String) (own : Derives .arguments args) :
    Derives .primary (.name f :: Token.parens args)
  | new {args : List Token} (c : String) (own : Derives .arguments args) :
    Derives .primary (.keyword .new :: .name c :: Token.parens args)
  | parens {inside : List Token} (own : Derives .expression inside) :
    Derives .primary (Token.parens inside)
  | list {inside : List Token} (own : Derives .arguments inside) :
    Derives .primary (Token.brackets inside)
  | noArguments : Derives .arguments []
  | someArguments {tokens : List Token} (own : Derives .items tokens) : Derives .arguments tokens
  | last {tokens : List Token} (own : Derives .expression tokens) : Derives .items tokens
  | more {first behind : List Token} (own : Derives .expression first)
      (others : Derives .items behind) : Derives .items (first ++ .mark .comma :: behind)

-- ================================================================== chains

namespace Chain

variable {chain : Chain}

/-- An expression is read as the chain of its tokens is. -/
theorem read_ofTokens (tokens : List Token) :
    Expr.ofTokens tokens = (ofTokens 0 true tokens).read := by
  rw [Expr.ofTokens]
  rfl

/-- What two chains with an operator between them are read from. -/
theorem tokens_cut {i : Nat} {op : BinaryOp} {operand : List Token}
    {behind : List (BinaryOp × List Token)} (cut : chain.rest.drop i = (op, operand) :: behind) :
    chain.tokens = Chain.tokens ⟨chain.first, chain.rest.take i⟩ ++
      .mark op.mark :: Chain.tokens ⟨operand, behind⟩ := by
  have whole : chain.rest = chain.rest.take i ++ (op, operand) :: behind := by
    rw [← cut, List.take_append_drop]
  simp only [tokens, List.append_assoc]
  conv => lhs; rw [whole]
  rw [List.flatMap_append, List.flatMap_cons]
  rfl

theorem operators_cut {i : Nat} {op : BinaryOp} {operand : List Token}
    {behind : List (BinaryOp × List Token)} (cut : chain.rest.drop i = (op, operand) :: behind) :
    chain.operators = Chain.operators ⟨chain.first, chain.rest.take i⟩ ++
      op :: Chain.operators ⟨operand, behind⟩ := by
  have whole : chain.rest = chain.rest.take i ++ (op, operand) :: behind := by
    rw [← cut, List.take_append_drop]
  simp only [operators]
  conv => lhs; rw [whole]
  simp

theorem operands_cut {i : Nat} {op : BinaryOp} {operand : List Token}
    {behind : List (BinaryOp × List Token)} (cut : chain.rest.drop i = (op, operand) :: behind) :
    chain.operands = Chain.operands ⟨chain.first, chain.rest.take i⟩ ++
      Chain.operands ⟨operand, behind⟩ := by
  have whole : chain.rest = chain.rest.take i ++ (op, operand) :: behind := by
    rw [← cut, List.take_append_drop]
  simp only [operands]
  conv => lhs; rw [whole]
  simp

/-- The operator that a chain is cut at is written like the one that stands
there. -/
theorem mark_of_pivot? {joins : Bool} {ops : List BinaryOp} {i : Nat} {op : BinaryOp}
    (pivot : pivot? joins ops = some (i, op)) : ∃ own, ops[i]? = some own ∧ op.mark = own.mark := by
  have first : ∀ {found op' : BinaryOp}, op'.mark = found.mark →
      ((ops.idxOf? found).map fun i => (i, op')) = some (i, op) →
      ∃ own, ops[i]? = some own ∧ op.mark = own.mark := by
    intro found op' alike mapped
    obtain ⟨j, isIdx, same⟩ := Option.map_eq_some_iff.1 mapped
    obtain ⟨rfl, rfl⟩ := Prod.mk.inj same
    obtain ⟨inside, isOp, -⟩ := List.idxOf?_eq_some_iff.1 isIdx
    exact ⟨found, by rw [List.getElem?_eq_getElem inside, isOp], alike⟩
  rw [pivot?] at pivot
  rcases (Option.orElse_eq_some ..).1 pivot with found | ⟨-, pivot⟩
  · obtain ⟨op', -, found⟩ := List.exists_of_findSome?_eq_some found
    exact first rfl found
  rcases (Option.orElse_eq_some ..).1 pivot with found | ⟨-, found⟩
  · split at found
    · exact first (show BinaryOp.concat.mark = BinaryOp.add.mark from rfl) found
    · cases found
  · obtain ⟨j, -, found⟩ := Option.bind_eq_some_iff.1 found
    obtain ⟨op', isOp, same⟩ := Option.map_eq_some_iff.1 found
    obtain ⟨rfl, rfl⟩ := Prod.mk.inj same
    exact ⟨op', isOp, rfl⟩

/-- At a place of a chain that has an operator, the operator and its right
operand stand there. -/
theorem exists_cut {i : Nat} {op : BinaryOp} (here : chain.operators[i]? = some op) :
    ∃ operand behind, chain.rest.drop i = (op, operand) :: behind := by
  rw [operators, List.getElem?_map] at here
  obtain ⟨⟨op', operand⟩, isRest, rfl⟩ := Option.map_eq_some_iff.1 here
  obtain ⟨inside, isElem⟩ := List.getElem?_eq_some_iff.1 isRest
  exact ⟨operand, chain.rest.drop (i + 1), by rw [List.drop_eq_getElem_cons inside, isElem]⟩

/-- A chain of one operand. -/
theorem read_single (operand : List Token) :
    Chain.read ⟨operand, []⟩ = Expr.readOperand operand := by
  have none : pivot? (joinsText ⟨operand, []⟩) (operators ⟨operand, []⟩) = none := by
    cases joinsText ⟨operand, []⟩ <;> rfl
  rw [read_of_none none, tokens, List.flatMap_nil, List.append_nil]

/-- What is read is no blank. -/
theorem isBlank_of_read {e : Expr} (read : chain.read = .ok e) : chain.isBlank = false := by
  obtain ⟨first, rest⟩ := chain
  cases first with
  | cons token first => rfl
  | nil =>
    cases rest with
    | cons link rest => rfl
    | nil =>
      rw [read_single, Expr.readOperand] at read
      cases read

/-- A chain whose two sides are read is read. -/
theorem read_cut {i : Nat} {op own : BinaryOp} {operand : List Token}
    {behind : List (BinaryOp × List Token)} {l r : Expr}
    (pivot : pivot? chain.joinsText chain.operators = some (i, op))
    (sides : chain.rest.drop i = (own, operand) :: behind)
    (left : Chain.read ⟨chain.first, chain.rest.take i⟩ = .ok l)
    (right : Chain.read ⟨operand, behind⟩ = .ok r) : chain.read = .ok (.binary op l r) := by
  have noBlank : (Chain.isBlank ⟨chain.first, chain.rest.take i⟩ ||
      Chain.isBlank ⟨operand, behind⟩) = false := by
    rw [isBlank_of_read left, isBlank_of_read right]
    rfl
  rw [read_of_pivot pivot sides, noBlank, left, right]
  rfl

/-- Whatever holds of a chain that is not cut, and of one that is cut if it
holds of the two sides, holds of all chains. -/
theorem cut_induction {motive : Chain → Prop}
    (uncut : ∀ chain, pivot? chain.joinsText chain.operators = none → motive chain)
    (cut : ∀ (chain : Chain) (i : Nat) (op own : BinaryOp) (operand : List Token)
      (behind : List (BinaryOp × List Token)),
      pivot? chain.joinsText chain.operators = some (i, op) →
      chain.rest.drop i = (own, operand) :: behind → op.mark = own.mark →
      motive ⟨chain.first, chain.rest.take i⟩ → motive ⟨operand, behind⟩ → motive chain)
    (chain : Chain) : motive chain := by
  obtain ⟨n, size⟩ : ∃ n, chain.rest.length = n := ⟨_, rfl⟩
  induction n using Nat.strongRecOn generalizing chain with
  | ind n ih =>
    cases pivot : pivot? chain.joinsText chain.operators with
    | none => exact uncut chain pivot
    | some found =>
      obtain ⟨i, op⟩ := found
      obtain ⟨own, isOp, alike⟩ := mark_of_pivot? pivot
      obtain ⟨operand, behind, sides⟩ := exists_cut isOp
      have sizes := congrArg List.length sides
      rw [List.length_drop, List.length_cons] at sizes
      refine cut chain i op own operand behind pivot sides alike
        (ih _ ?_ _ rfl) (ih _ ?_ _ rfl)
      · simp only [List.length_take]
        omega
      · simp only
        omega

end Chain

-- ======================================================= what is read is derived

namespace Phrase

open RoutineScript.Expr

/-- Two expressions with an operator between them are one. -/
theorem Derives.join {first behind : List Token} (op : BinaryOp)
    (own : Derives .expression first) (others : Derives .expression behind) :
    Derives .expression (first ++ .mark op.mark :: behind) := by
  generalize isExpression : Phrase.expression = phrase at own
  induction own with
  | single own => exact .binary op own others
  | binary op' own _ _ ih =>
    rw [List.append_assoc, List.cons_append]
    exact .binary op' own (ih isExpression)
  | _ => cases isExpression

/-- Expressions with commas between them. -/
theorem derives_items {pieces : List (List Token)} (some : pieces ≠ [])
    (own : ∀ piece ∈ pieces, Derives .expression piece) :
    Derives .items ([Token.mark .comma].intercalate pieces) := by
  induction pieces with
  | nil => exact absurd rfl some
  | cons piece pieces ih =>
    obtain ⟨first, others⟩ := List.forall_mem_cons.1 own
    cases pieces with
    | nil =>
      rw [List.intercalate_singleton]
      exact .last first
    | cons next pieces =>
      rw [List.intercalate_cons_cons, List.append_assoc]
      exact .more first (ih (List.cons_ne_nil _ _) others)

/-- The pieces between commas are what they were cut from. -/
theorem intercalate_splitCommas (depth : Nat) (tokens : List Token) :
    [Token.mark .comma].intercalate (Token.splitCommas depth tokens) = tokens := by
  induction tokens generalizing depth with
  | nil => rfl
  | cons token tokens ih =>
    by_cases comma : depth = 0 ∧ token = .mark .comma
    · rw [Token.splitCommas, if_pos comma, comma.2]
      have behind := ih 0
      obtain ⟨piece, pieces, cut⟩ := List.exists_cons_of_ne_nil (splitCommas_ne_nil 0 tokens)
      rw [cut] at behind ⊢
      rw [List.intercalate_cons_cons, behind]
      rfl
    · rw [splitCommas_other comma]
      have behind := ih (token.nest depth)
      obtain ⟨piece, pieces, cut⟩ :=
        List.exists_cons_of_ne_nil (splitCommas_ne_nil (token.nest depth) tokens)
      rw [cut] at behind ⊢
      rw [← behind]
      cases pieces <;> simp [prepend, List.intercalate_cons_cons]

section

variable {bound : Nat} {tokens after : List Token} {value e : Expr}

/-- What is read is derived, of tokens that are shorter. -/
def SoundBelow (bound : Nat) : Prop :=
  ∀ tokens : List Token, tokens.length < bound → ∀ e, Expr.ofTokens tokens = .ok e →
    Derives .expression tokens

theorem exists_of_mapM {α β ε : Type} {f : α → Except ε β} {items : List α} {results : List β}
    (all : items.mapM f = .ok results) : ∀ item ∈ items, ∃ result, f item = .ok result := by
  induction items generalizing results with
  | nil => exact List.forall_mem_nil _
  | cons item items ih =>
    rw [List.mapM_cons] at all
    cases first : f item with
    | error fault =>
      rw [first] at all
      cases all
    | ok result =>
      rw [first] at all
      cases others : items.mapM f with
      | error fault =>
        rw [others] at all
        cases all
      | ok results' => exact List.forall_mem_cons.2 ⟨⟨result, first⟩, ih others⟩

theorem derives_arguments (sound : SoundBelow bound) (shorter : tokens.length < bound)
    {items : List Expr} (read : readArguments tokens = .ok items) :
    Derives .arguments tokens := by
  cases empty : tokens.isEmpty with
  | true =>
    rw [List.isEmpty_iff.1 empty]
    exact .noArguments
  | false =>
    rw [readArguments_eq empty] at read
    have own : ∀ piece ∈ Token.splitCommas 0 tokens, Derives .expression piece := by
      intro piece mem
      obtain ⟨e, readPiece⟩ := exists_of_mapM read piece mem
      split at readPiece
      · cases readPiece
      · exact sound piece
          (Nat.lt_of_le_of_lt (Token.length_of_mem_splitCommas mem) shorter) e readPiece
    have derived := derives_items (splitCommas_ne_nil 0 tokens) own
    rw [intercalate_splitCommas] at derived
    exact .someArguments derived

/-- What a result was made from. -/
theorem ok_of_map {α β ε : Type} {f : α → β} {result : Except ε α} {b : β}
    (mapped : result.map f = .ok b) : ∃ a, result = .ok a := by
  cases result with
  | error fault => cases mapped
  | ok a => exact ⟨a, rfl⟩

/-- Something enclosed at the front of tokens. -/
theorem enclosed_of_map {α : Type} {opener closer : Mark} {build : List Token → α}
    {rest : List Token} {found : α}
    (first : (Token.splitClosing opener closer 1 rest).map
      (fun (inside, after) => (build inside, after)) = some (found, after)) :
    ∃ inside, found = build inside ∧ inside.length < rest.length ∧
      rest = inside ++ .mark closer :: after := by
  obtain ⟨⟨inside, after'⟩, closes, same⟩ := Option.map_eq_some_iff.1 first
  obtain ⟨rfl, rfl⟩ := Prod.mk.inj same
  have sizes := Token.length_splitClosing closes
  exact ⟨inside, rfl, by omega, ByOffset.append_of_splitClosing closes⟩

/-- Something in parentheses at the front of tokens. -/
theorem parens_of_map {α : Type} {build : List Token → α} {rest : List Token} {found : α}
    (first : (Token.inParens? rest).map (fun (inside, after) => (build inside, after)) =
      some (found, after)) :
    ∃ inside, found = build inside ∧ inside.length < rest.length ∧
      .mark .lparen :: rest = Token.parens inside ++ after := by
  obtain ⟨inside, eq, shorter, whole⟩ := enclosed_of_map first
  exact ⟨inside, eq, shorter, by simp [whole, Token.parens]⟩

/-- Something in brackets at the front of tokens. -/
theorem brackets_of_map {α : Type} {build : List Token → α} {rest : List Token} {found : α}
    (first : (Token.inBrackets? rest).map (fun (inside, after) => (build inside, after)) =
      some (found, after)) :
    ∃ inside, found = build inside ∧ inside.length < rest.length ∧
      .mark .lbracket :: rest = Token.brackets inside ++ after := by
  obtain ⟨inside, eq, shorter, whole⟩ := enclosed_of_map first
  exact ⟨inside, eq, shorter, by simp [whole, Token.brackets]⟩

theorem derives_primary (sound : SoundBelow bound) (fits : tokens.length ≤ bound)
    {primary : Primary} (first : Token.primary? tokens = some (primary, after))
    (read : readPrimary primary = .ok value) :
    ∃ front, tokens = front ++ after ∧ Derives .primary front := by
  unfold Token.primary? at first
  split at first
  case h_1 x rest =>
    obtain ⟨-, rfl⟩ := Prod.mk.inj (Option.some.inj first)
    exact ⟨[.number x], rfl, .number x⟩
  case h_2 s rest =>
    obtain ⟨-, rfl⟩ := Prod.mk.inj (Option.some.inj first)
    exact ⟨[.string s], rfl, .string s⟩
  case h_3 rest =>
    obtain ⟨-, rfl⟩ := Prod.mk.inj (Option.some.inj first)
    exact ⟨[.keyword .true], rfl, .bool true⟩
  case h_4 rest =>
    obtain ⟨-, rfl⟩ := Prod.mk.inj (Option.some.inj first)
    exact ⟨[.keyword .false], rfl, .bool false⟩
  case h_5 rest =>
    obtain ⟨-, rfl⟩ := Prod.mk.inj (Option.some.inj first)
    exact ⟨[.keyword .null], rfl, .null⟩
  case h_6 c rest =>
    obtain ⟨inside, rfl, shorter, whole⟩ := parens_of_map first
    rw [readPrimary] at read
    obtain ⟨items, read⟩ := ok_of_map read
    simp only [List.length_cons] at fits
    exact ⟨_, by rw [whole]; rfl, .new c (derives_arguments sound (by omega) read)⟩
  case h_7 f rest =>
    obtain ⟨inside, rfl, shorter, whole⟩ := parens_of_map first
    rw [readPrimary] at read
    obtain ⟨items, read⟩ := ok_of_map read
    simp only [List.length_cons] at fits
    exact ⟨_, by rw [whole]; rfl, .call f (derives_arguments sound (by omega) read)⟩
  case h_8 x rest _ =>
    obtain ⟨-, rfl⟩ := Prod.mk.inj (Option.some.inj first)
    exact ⟨[.name x], rfl, .name x⟩
  case h_9 rest =>
    obtain ⟨inside, rfl, shorter, whole⟩ := parens_of_map first
    rw [readPrimary] at read
    simp only [List.length_cons] at fits
    exact ⟨_, whole, .parens (sound inside (by omega) value read)⟩
  case h_10 rest =>
    obtain ⟨inside, rfl, shorter, whole⟩ := brackets_of_map first
    rw [readPrimary] at read
    obtain ⟨items, read⟩ := ok_of_map read
    simp only [List.length_cons] at fits
    exact ⟨_, whole, .list (derives_arguments sound (by omega) read)⟩
  case h_11 => cases first

/-- A suffix that is read is one more attachment. -/
theorem derives_suffix (sound : SoundBelow bound) (fits : tokens.length ≤ bound)
    {suffix : Suffix} (first : Token.suffix? tokens = some (suffix, after))
    (read : readSuffix value suffix = .ok e) (others : Derives .attachments after) :
    Derives .attachments tokens := by
  unfold Token.suffix? at first
  split at first
  case h_1 m rest =>
    obtain ⟨inside, rfl, shorter, whole⟩ := parens_of_map first
    rw [readSuffix] at read
    obtain ⟨items, read⟩ := ok_of_map read
    simp only [List.length_cons] at fits
    rw [whole]
    exact .method m (derives_arguments sound (by omega) read) others
  case h_2 m rest _ =>
    obtain ⟨-, rfl⟩ := Prod.mk.inj (Option.some.inj first)
    exact .member m others
  case h_3 rest =>
    obtain ⟨inside, rfl, shorter, whole⟩ := brackets_of_map first
    rw [readSuffix] at read
    obtain ⟨position, read⟩ := ok_of_map read
    simp only [List.length_cons] at fits
    rw [whole]
    exact .index (sound inside (by omega) position read) others
  case h_4 => cases first

theorem derives_attachments (sound : SoundBelow bound) (whole : List Token)
    (fits : tokens.length ≤ bound) (read : readSuffixes whole value tokens = .ok e) :
    Derives .attachments tokens := by
  obtain ⟨n, size⟩ : ∃ n, tokens.length = n := ⟨_, rfl⟩
  induction n using Nat.strongRecOn generalizing tokens value with
  | ind n ih =>
    cases tokens with
    | nil => exact .bare
    | cons token rest =>
      cases suffix : Token.suffix? (token :: rest) with
      | none =>
        rw [ByOffset.readSuffixes_of_none suffix] at read
        cases read
      | some found =>
        obtain ⟨suffix', after⟩ := found
        have shorter := (Token.length_suffix? suffix).2
        rw [ByOffset.readSuffixes_of_some suffix] at read
        cases own : readSuffix value suffix' with
        | error fault =>
          rw [own] at read
          cases read
        | ok attached =>
          rw [own] at read
          exact derives_suffix sound fits suffix own
            (ih after.length (by omega) (by omega) read rfl)

theorem mark_of_unaryOp? {token : Token} {op : UnaryOp} (sign : token.unaryOp? = some op) :
    token = .mark op.mark := by
  unfold Token.unaryOp? at sign
  split at sign <;> cases sign <;> rfl

theorem derives_operand (sound : SoundBelow bound) (fits : tokens.length ≤ bound)
    (read : readOperand tokens = .ok e) : Derives .operand tokens := by
  induction tokens generalizing e with
  | nil =>
    rw [readOperand] at read
    cases read
  | cons token rest ih =>
    rw [readOperand] at read
    cases sign : token.unaryOp? with
    | some op =>
      simp only [sign] at read
      split at read
      · cases read
      · obtain ⟨own, read⟩ := ok_of_map read
        rw [mark_of_unaryOp? sign]
        exact .signed op (ih (Nat.le_of_succ_le fits) read)
    | none =>
      simp only [sign] at read
      split at read
      · cases read
      · rename_i primary after first
        cases own : readPrimary primary with
        | error fault =>
          rw [own] at read
          cases read
        | ok value =>
          rw [own] at read
          obtain ⟨front, whole, derived⟩ := derives_primary sound fits first own
          have size := congrArg List.length whole
          rw [List.length_append] at size
          rw [whole]
          exact .unsigned (.attached derived
            (derives_attachments sound (token :: rest) (by omega) read))

/-- A chain that is read is an expression. -/
theorem derives_chain (sound : SoundBelow bound) {chain : Chain}
    (fits : chain.tokens.length ≤ bound) (read : chain.read = .ok e) :
    Derives .expression chain.tokens := by
  induction chain using Chain.cut_induction generalizing e with
  | uncut chain none =>
    rw [Chain.read_of_none none] at read
    exact .single (derives_operand sound fits read)
  | cut chain i op own operand behind pivot sides alike ihLeft ihRight =>
    have whole := Chain.tokens_cut sides
    have size := congrArg List.length whole
    rw [List.length_append, List.length_cons] at size
    rw [Chain.read_of_pivot pivot sides] at read
    split at read
    · cases read
    · cases left : Chain.read ⟨chain.first, chain.rest.take i⟩ with
      | error fault =>
        rw [left] at read
        cases read
      | ok l =>
        cases right : Chain.read ⟨operand, behind⟩ with
        | error fault =>
          rw [left, right] at read
          cases read
        | ok r =>
          rw [whole]
          exact .join own (ihLeft (by omega) left) (ihRight (by omega) right)

end

/-- What is read is derived. -/
theorem derives_of_read {tokens : List Token} {e : Expr} (read : Expr.ofTokens tokens = .ok e) :
    Derives .expression tokens := by
  obtain ⟨n, size⟩ : ∃ n, tokens.length = n := ⟨_, rfl⟩
  induction n using Nat.strongRecOn generalizing tokens e with
  | ind n ih =>
    have sound : SoundBelow n := fun inner shorter e read => ih inner.length shorter read rfl
    have same := Chain.tokens_ofTokens 0 true tokens
    rw [Chain.read_ofTokens] at read
    have derived := derives_chain sound (by rw [same, size]) read
    rwa [same] at derived

end Phrase

end RoutineScript
