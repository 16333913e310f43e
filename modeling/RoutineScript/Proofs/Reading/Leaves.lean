/-
Every expression of the grammar is read, and its tree has all its tokens.

`Expr.leaves` writes a tree down from left to right. That is what was read
less the parentheses that only group. `Token.ungroup` takes those out of the
tokens by looking at the one before them, as the parentheses of arguments
stand behind a name.

# The argument

The reader follows the grammar, one lemma for each production
(`Derives.accepted`): what encloses is found because the delimiters of a phrase
match, and a chain of operands is cut without end until each stands alone,
with none missing. What each production gives off is what its parts give off
(`Ungroups`), so the leaves are carried along in the same induction.
-/
import RoutineScript.Proofs.Reading.Phrases

namespace RoutineScript

-- ================================================================== leaves

namespace Expr

mutual

/-- The tokens of a tree from left to right: its literals and names, its
operators and its delimiters. -/
def leaves : Expr → List Token
  | number x => [.number x]
  | string s => [.string s]
  | bool b => [.keyword (Keyword.ofBool b)]
  | null => [.keyword .null]
  | list items => Token.brackets (listLeaves items)
  | name x => [.name x]
  | call f args => .name f :: Token.parens (listLeaves args)
  | member object m => object.leaves ++ [.mark .dot, .name m]
  | methodCall object m args =>
    object.leaves ++ .mark .dot :: .name m :: Token.parens (listLeaves args)
  | index target position => target.leaves ++ Token.brackets position.leaves
  | new c args => .keyword .new :: .name c :: Token.parens (listLeaves args)
  | unary op operand => .mark op.mark :: operand.leaves
  | binary op left right => left.leaves ++ .mark op.mark :: right.leaves

/-- The leaves of expressions with commas between them. -/
def listLeaves : List Expr → List Token
  | [] => []
  | [item] => item.leaves
  | item :: next :: items => item.leaves ++ .mark .comma :: listLeaves (next :: items)

end

end Expr

/-- Whether a token is a name. -/
def Token.isName : Token → Bool
  | name _ => true
  | _ => false

/-- Tokens without the parentheses that only group. Those of arguments stand
behind a name and are kept; `opened` tells of each open parenthesis whether it
was. -/
def Token.ungroup (behindName : Bool) (opened : List Bool) : List Token → List Token
  | [] => []
  | mark .lparen :: rest =>
    if behindName then mark .lparen :: ungroup false (true :: opened) rest
    else ungroup false (false :: opened) rest
  | mark .rparen :: rest =>
    match opened with
    | [] => mark .rparen :: ungroup false [] rest
    | true :: opened => mark .rparen :: ungroup false opened rest
    | false :: opened => ungroup false opened rest
  | token :: rest => token :: ungroup token.isName opened rest

-- ================================================================ ungrouping

namespace Token

/-- Tokens that give others when the parentheses that group are dropped,
whatever is open around them, if no parenthesis opens behind them. -/
def Ungroups (tokens out : List Token) : Prop :=
  ∀ (opened : List Bool) (rest : List Token), rest.head? ≠ some (.mark .lparen) →
    ungroup false opened (tokens ++ rest) = out ++ ungroup false opened rest

theorem ungroup_other {token : Token} (notOpener : token ≠ .mark .lparen)
    (notCloser : token ≠ .mark .rparen) (behindName : Bool) (opened : List Bool)
    (rest : List Token) :
    ungroup behindName opened (token :: rest) = token :: ungroup token.isName opened rest := by
  rw [ungroup]
  · exact notOpener
  · exact notCloser

/-- Only parentheses matter behind a name. -/
theorem ungroup_behind {rest : List Token} (notOpener : rest.head? ≠ some (.mark .lparen))
    (behindName : Bool) (opened : List Bool) :
    ungroup behindName opened rest = ungroup false opened rest := by
  cases rest with
  | nil => rfl
  | cons token rest =>
    have other : token ≠ .mark .lparen := fun same => notOpener (by rw [same]; rfl)
    by_cases closes : token = .mark .rparen
    · subst closes
      rfl
    · rw [ungroup_other other closes, ungroup_other other closes]

/-- What stands behind tokens begins with a parenthesis only if one of the two
does. -/
theorem head?_append_ne {tokens rest : List Token} (own : tokens.head? ≠ some (.mark .lparen))
    (behind : rest.head? ≠ some (.mark .lparen)) :
    (tokens ++ rest).head? ≠ some (.mark .lparen) := by
  cases tokens with
  | nil => exact behind
  | cons token tokens => exact own

namespace Ungroups

variable {tokens out : List Token}

theorem nil : Ungroups [] [] :=
  fun _ _ _ => rfl

theorem cons {token : Token} (notOpener : token ≠ .mark .lparen)
    (notCloser : token ≠ .mark .rparen)
    (free : token.isName = true → tokens.head? ≠ some (.mark .lparen))
    (others : Ungroups tokens out) : Ungroups (token :: tokens) (token :: out) := by
  intro opened rest closed
  rw [List.cons_append, ungroup_other notOpener notCloser, List.cons_append,
    ← others opened rest closed]
  congr 1
  cases named : token.isName with
  | false => rfl
  | true => exact ungroup_behind (head?_append_ne (free named) closed) true opened

theorem append {behind outBehind : List Token} (own : Ungroups tokens out)
    (others : Ungroups behind outBehind) (free : behind.head? ≠ some (.mark .lparen)) :
    Ungroups (tokens ++ behind) (out ++ outBehind) := by
  intro opened rest closed
  rw [List.append_assoc, own opened _ (head?_append_ne free closed), others opened rest closed,
    List.append_assoc]

/-- Parentheses that group are dropped. -/
theorem grouped (inside : Ungroups tokens out) : Ungroups (Token.parens tokens) out := by
  intro opened rest closed
  have whole : Token.parens tokens ++ rest
      = .mark .lparen :: (tokens ++ .mark .rparen :: rest) := by
    simp [Token.parens]
  rw [whole, ungroup, if_neg Bool.false_ne_true, inside _ _ (by simp)]
  rfl

/-- Those of arguments are kept. -/
theorem applied (f : String) (inside : Ungroups tokens out) :
    Ungroups (.name f :: Token.parens tokens) (.name f :: Token.parens out) := by
  intro opened rest closed
  have whole : .name f :: Token.parens tokens ++ rest
      = .name f :: .mark .lparen :: (tokens ++ .mark .rparen :: rest) := by
    simp [Token.parens]
  have kept : ungroup true opened (.mark .lparen :: (tokens ++ .mark .rparen :: rest))
      = .mark .lparen :: ungroup false (true :: opened) (tokens ++ .mark .rparen :: rest) := by
    rw [ungroup, if_pos rfl]
  rw [whole, ungroup_other (by simp) (by simp), isName, kept, inside _ _ (by simp)]
  simp [Token.parens, ungroup]

theorem brackets (inside : Ungroups tokens out) :
    Ungroups (Token.brackets tokens) (Token.brackets out) := by
  refine .cons (by simp) (by simp) (fun named => by cases named) ?_
  refine inside.append (.cons (by simp) (by simp) (fun named => by cases named) .nil) (by simp)

end Ungroups

end Token

-- ================================================================== chains

namespace Chain

open Token

variable {chain : Chain} {p : BinaryOp → Bool} {ops : List BinaryOp}

theorem lastIdx?_eq_none (none : lastIdx? p ops = none) : ∀ op ∈ ops, p op = false := by
  induction ops with
  | nil => exact List.forall_mem_nil _
  | cons op ops ih =>
    rw [lastIdx?] at none
    split at none
    · cases none
    · split at none
      · cases none
      · exact List.forall_mem_cons.2 ⟨Bool.eq_false_iff.2 ‹_›, ih ‹_›⟩

/-- The place at which arithmetic is cut is one in the chain. -/
theorem lt_of_arithmeticPivot? {i : Nat} (pivot : arithmeticPivot? ops = some i) :
    i < ops.length := by
  rw [arithmeticPivot?] at pivot
  cases lastA : lastIdx? BinaryOp.isAdditive ops with
  | none =>
    rw [lastA] at pivot
    exact lt_of_lastIdx? (by simpa using pivot)
  | some a =>
    have inside := lt_of_lastIdx? lastA
    rw [lastA] at pivot
    cases lastM : lastIdx? BinaryOp.isMultiplicative ops with
    | none =>
      rw [lastM] at pivot
      obtain rfl := Option.some.inj pivot
      exact inside
    | some m =>
      rw [lastM] at pivot
      obtain rfl := Option.some.inj pivot
      omega

/-- Arithmetic is cut if there is any. -/
theorem eq_false_of_arithmeticPivot? (none : arithmeticPivot? ops = none) :
    ∀ op ∈ ops, op.isAdditive = false ∧ op.isMultiplicative = false := by
  rw [arithmeticPivot?] at none
  cases lastA : lastIdx? BinaryOp.isAdditive ops with
  | some a =>
    rw [lastA] at none
    split at none <;> simp_all
  | none =>
    rw [lastA] at none
    have noMultiplicative : lastIdx? BinaryOp.isMultiplicative ops = Option.none := by
      simpa using none
    exact fun op mem => ⟨lastIdx?_eq_none lastA op mem, lastIdx?_eq_none noMultiplicative op mem⟩

/-- The sorts of operators. Joining texts is none that is found. -/
theorem sort_cases (op : BinaryOp) :
    op ∈ loosest ∨ op.isAdditive = true ∨ op.isMultiplicative = true ∨ op = .concat := by
  cases op <;> decide

/-- A chain with an operator is cut. -/
theorem eq_concat_of_pivot? {joins : Bool} (none : pivot? joins ops = none) :
    ∀ op ∈ ops, op = .concat := by
  rw [pivot?, Option.orElse_eq_none, Option.orElse_eq_none] at none
  obtain ⟨noLoosest, -, noArithmetic⟩ := none
  have arithmetic : arithmeticPivot? ops = Option.none := by
    cases pivot : arithmeticPivot? ops with
    | none => rfl
    | some i =>
      rw [pivot, Option.bind_some, List.getElem?_eq_getElem (lt_of_arithmeticPivot? pivot)]
        at noArithmetic
      cases noArithmetic
  intro op mem
  obtain ⟨notAdditive, notMultiplicative⟩ := eq_false_of_arithmeticPivot? arithmetic op mem
  rcases sort_cases op with isLoosest | isAdditive | isMultiplicative | isConcat
  · have notFound := List.findSome?_eq_none_iff.1 noLoosest op isLoosest
    exact absurd mem (List.idxOf?_eq_none_iff.1 (Option.map_eq_none_iff.1 notFound))
  · cases notAdditive.symm.trans isAdditive
  · cases notMultiplicative.symm.trans isMultiplicative
  · exact isConcat

/-- Operands that are read, each with the tokens it has, make a chain that is
read and has their tokens and its operators. -/
theorem exists_read (noConcat : .concat ∉ chain.operators)
    (operands : ∀ operand ∈ chain.operands,
      ∃ e, Expr.readOperand operand = .ok e ∧ Ungroups operand e.leaves) :
    ∃ e, chain.read = .ok e ∧ Ungroups chain.tokens e.leaves := by
  induction chain using cut_induction with
  | uncut chain none =>
    obtain ⟨first, rest⟩ := chain
    cases rest with
    | nil =>
      rw [read_single, tokens, List.flatMap_nil, List.append_nil]
      exact operands first (List.mem_cons_self ..)
    | cons link rest =>
      have isConcat := eq_concat_of_pivot? none link.1 (List.mem_cons_self ..)
      rw [operators, List.map_cons, isConcat] at noConcat
      exact absurd (List.mem_cons_self ..) noConcat
  | cut chain i op own operand behind pivot sides alike ihLeft ihRight =>
    rw [operands_cut sides] at operands
    rw [operators_cut sides] at noConcat
    obtain ⟨first, second⟩ := List.forall_mem_append.1 operands
    obtain ⟨l, readL, leavesL⟩ := ihLeft (fun mem => noConcat (List.mem_append_left _ mem)) first
    obtain ⟨r, readR, leavesR⟩ := ihRight
      (fun mem => noConcat (List.mem_append_right _ (List.mem_cons_of_mem _ mem))) second
    refine ⟨.binary op l r, read_cut pivot sides readL readR, ?_⟩
    rw [tokens_cut sides, Expr.leaves, alike]
    exact leavesL.append
      (.cons (by cases own <;> simp [BinaryOp.mark]) (by cases own <;> simp [BinaryOp.mark])
        (fun named => by cases named) leavesR)
      (by cases own <;> simp [BinaryOp.mark])

end Chain

-- ==================================================== what is derived is read

namespace Phrase

open Token

/-- A phrase that is read. Its tree gives back its tokens, those of the
parentheses apart that group. -/
def Accepted : Phrase → List Token → Prop
  | .expression, tokens => ∃ chain : Chain, chain.tokens = tokens ∧ chain.Derived ∧
      ∀ operand ∈ chain.operands, ∃ e, Expr.readOperand operand = .ok e ∧
        Ungroups operand e.leaves
  | .operand, tokens | .value, tokens => ∃ e, Expr.readOperand tokens = .ok e ∧
      Ungroups tokens e.leaves
  | .attachments, tokens => tokens.head? ≠ some (.mark .lparen) ∧
      ∃ out, Ungroups tokens out ∧ ∀ (whole : List Token) (value : Expr),
        ∃ e, Expr.readSuffixes whole value tokens = .ok e ∧ e.leaves = value.leaves ++ out
  | .primary, tokens => ∃ token rest primary e, tokens = token :: rest ∧
      token.unaryOp? = none ∧ Expr.readPrimary primary = .ok e ∧ Ungroups tokens e.leaves ∧
      ∀ behind : List Token, behind.head? ≠ some (.mark .lparen) →
        Token.primary? (tokens ++ behind) = some (primary, behind)
  | .arguments, tokens => ∃ items, Expr.readArguments tokens = .ok items ∧
      Ungroups tokens (Expr.listLeaves items)
  | .items, tokens => tokens ≠ [] ∧ ∃ item items,
      Ungroups tokens (Expr.listLeaves (item :: items)) ∧ ∀ fault : Fault,
        ((Token.splitCommas 0 tokens).mapM fun piece =>
          if piece.isEmpty then .error fault else Expr.ofTokens piece) = .ok (item :: items)

variable {phrase : Phrase} {tokens : List Token}

/-- An expression whose operands are read is read. -/
theorem exists_of_accepted (accepted : Accepted .expression tokens) :
    ∃ e, Expr.ofTokens tokens = .ok e ∧ Ungroups tokens e.leaves := by
  obtain ⟨chain, rfl, derived, operands⟩ := accepted
  rw [Chain.read_ofTokens, derived.ofTokens_tokens]
  exact Chain.exists_read derived.2 operands

/-- A literal, or a name that nothing is applied to. -/
theorem accepted_alone {token : Token} {primary : Primary} {e : Expr}
    (noUnary : token.unaryOp? = none) (read : Expr.readPrimary primary = .ok e)
    (notOpener : token ≠ .mark .lparen) (notCloser : token ≠ .mark .rparen)
    (leaf : e.leaves = [token])
    (first : ∀ behind : List Token, behind.head? ≠ some (.mark .lparen) →
      Token.primary? (token :: behind) = some (primary, behind)) :
    Accepted .primary [token] := by
  refine ⟨token, [], primary, e, rfl, noUnary, read, ?_, first⟩
  rw [leaf]
  exact .cons notOpener notCloser (fun _ => by simp) .nil

theorem append_parens (inside behind : List Token) :
    Token.parens inside ++ behind = .mark .lparen :: (inside ++ .mark .rparen :: behind) := by
  simp [Token.parens]

theorem append_brackets (inside behind : List Token) :
    Token.brackets inside ++ behind =
      .mark .lbracket :: (inside ++ .mark .rbracket :: behind) := by
  simp [Token.brackets]

/-- A name is a primary of its own where no parenthesis follows. -/
theorem primary?_name (x : String) {behind : List Token}
    (free : behind.head? ≠ some (.mark .lparen)) :
    Token.primary? (.name x :: behind) = some (.name x, behind) := by
  rw [Token.primary?]
  rintro rest rfl
  exact free rfl

/-- A member is read where no parenthesis follows. -/
theorem suffix?_member (m : String) {behind : List Token}
    (free : behind.head? ≠ some (.mark .lparen)) :
    Token.suffix? (.mark .dot :: .name m :: behind) = some (.member m, behind) := by
  rw [Token.suffix?]
  rintro rest rfl
  exact free rfl

/-- What is read has tokens. -/
theorem ne_nil_of_read {e : Expr} (read : Expr.ofTokens tokens = .ok e) : tokens ≠ [] := by
  rintro rfl
  rw [Chain.read_ofTokens] at read
  cases Chain.isBlank_of_read read

/-- One more attachment. -/
theorem accepted_suffix (own : List Token) {out behind : List Token} {token : Token}
    {rest : List Token} {suffix : Suffix} (others : Accepted .attachments behind)
    (shape : own ++ behind = token :: rest) (notOpener : token ≠ .mark .lparen)
    (first : Token.suffix? (token :: rest) = some (suffix, behind)) (ungroups : Ungroups own out)
    (read : ∀ value : Expr, ∃ e, Expr.readSuffix value suffix = .ok e ∧
      e.leaves = value.leaves ++ out) : Accepted .attachments (own ++ behind) := by
  obtain ⟨free, outBehind, ungroupsBehind, readBehind⟩ := others
  refine ⟨by rw [shape]; simpa using notOpener, out ++ outBehind,
    ungroups.append ungroupsBehind free, fun whole value => ?_⟩
  obtain ⟨attached, readOwn, leavesOwn⟩ := read value
  obtain ⟨e, readOthers, leaves⟩ := readBehind whole attached
  refine ⟨e, ?_, by rw [leaves, leavesOwn, List.append_assoc]⟩
  rw [shape, Expr.readSuffixes_of_suffix first readOwn, readOthers]

-- ------------------------------------------------------------- rule by rule

section

variable {first behind inside args : List Token}

theorem accepted_binary (op : BinaryOp) (derived : Derives .operand first)
    (own : Accepted .operand first) (others : Accepted .expression behind) :
    Accepted .expression (first ++ .mark op.mark :: behind) := by
  obtain ⟨chain, rfl, links, operands⟩ := others
  obtain ⟨longer, whole, same, links'⟩ := links.exists_link op derived
  exact ⟨longer, whole, links', by rw [same]; exact List.forall_mem_cons.2 ⟨own, operands⟩⟩

theorem accepted_signed (op : UnaryOp) (own : Accepted .operand tokens) :
    Accepted .operand (.mark op.mark :: tokens) := by
  obtain ⟨e, read, ungroups⟩ := own
  have isSign : (Token.mark op.mark).unaryOp? = some op := by
    cases op <;> rfl
  have some : tokens.isEmpty = false := by
    cases tokens with
    | nil =>
      rw [Expr.readOperand] at read
      cases read
    | cons token tokens => rfl
  refine ⟨.unary op e, ?_, ?_⟩
  · rw [Expr.readOperand, isSign]
    simp only [some, Bool.false_eq_true, ↓reduceIte, read]
    rfl
  · exact .cons (by cases op <;> simp [UnaryOp.mark]) (by cases op <;> simp [UnaryOp.mark])
      (fun named => by cases named) ungroups

theorem accepted_attached (own : Accepted .primary first)
    (others : Accepted .attachments behind) : Accepted .value (first ++ behind) := by
  obtain ⟨token, rest, primary, value, rfl, noUnary, readOwn, ungroups, cut⟩ := own
  obtain ⟨free, out, ungroupsBehind, readBehind⟩ := others
  obtain ⟨e, read, leaves⟩ := readBehind (token :: rest ++ behind) value
  refine ⟨e, ?_, by rw [leaves]; exact ungroups.append ungroupsBehind free⟩
  have cut' : Token.primary? (token :: (rest ++ behind)) = some (primary, behind) :=
    cut behind free
  rw [List.cons_append, Expr.readOperand_of_primary noUnary cut' readOwn]
  exact read

theorem accepted_bare : Accepted .attachments [] :=
  ⟨by simp, [], .nil, fun whole value =>
    ⟨value, Expr.readSuffixes_nil whole value, (List.append_nil _).symm⟩⟩

theorem accepted_member (m : String) (others : Accepted .attachments behind) :
    Accepted .attachments (.mark .dot :: .name m :: behind) := by
  refine accepted_suffix [.mark .dot, .name m] others rfl (by simp)
    (suffix?_member m others.1) (.cons ?_ ?_ ?_ (.cons ?_ ?_ ?_ .nil)) fun value =>
      ⟨.member value m, by rw [Expr.readSuffix], rfl⟩
  all_goals simp

theorem accepted_method (m : String) (derived : Derives .arguments args)
    (own : Accepted .arguments args) (others : Accepted .attachments behind) :
    Accepted .attachments (.mark .dot :: .name m :: (Token.parens args ++ behind)) := by
  obtain ⟨items, readArgs, ungroups⟩ := own
  have cut : Token.suffix? (.mark .dot :: .name m :: (Token.parens args ++ behind))
      = some (.methodCall m args, behind) := by
    rw [append_parens, Token.suffix?, Expr.inParens?_parens derived.nested]
    rfl
  refine accepted_suffix (.mark .dot :: .name m :: Token.parens args) others rfl (by simp)
    cut (.cons (by simp) (by simp) (by simp) (ungroups.applied m)) fun value =>
      ⟨.methodCall value m items, ?_, rfl⟩
  rw [Expr.readSuffix, readArgs]
  rfl

theorem accepted_index (derived : Derives .expression inside)
    (own : Accepted .expression inside) (others : Accepted .attachments behind) :
    Accepted .attachments (Token.brackets inside ++ behind) := by
  obtain ⟨e, readInside, ungroups⟩ := exists_of_accepted own
  have cut : Token.suffix? (.mark .lbracket :: (inside ++ .mark .rbracket :: behind))
      = some (.index inside, behind) := by
    rw [Token.suffix?, Expr.inBrackets?_brackets derived.nested.loose]
    rfl
  refine accepted_suffix (Token.brackets inside) others (append_brackets inside behind)
    (by simp) cut ungroups.brackets fun value => ⟨.index value e, ?_, rfl⟩
  rw [Expr.readSuffix, readInside]
  rfl

theorem accepted_call (f : String) (derived : Derives .arguments args)
    (own : Accepted .arguments args) : Accepted .primary (.name f :: Token.parens args) := by
  obtain ⟨items, readArgs, ungroups⟩ := own
  refine ⟨.name f, Token.parens args, .call f args, .call f items, rfl, rfl, ?_,
    ungroups.applied f, fun behind _ => ?_⟩
  · rw [Expr.readPrimary, readArgs]
    rfl
  · rw [List.cons_append, append_parens, Token.primary?, Expr.inParens?_parens derived.nested]
    rfl

theorem accepted_new (c : String) (derived : Derives .arguments args)
    (own : Accepted .arguments args) :
    Accepted .primary (.keyword .new :: .name c :: Token.parens args) := by
  obtain ⟨items, readArgs, ungroups⟩ := own
  refine ⟨.keyword .new, .name c :: Token.parens args, .new c args, .new c items, rfl, rfl, ?_,
    .cons (by simp) (by simp) (by simp [Token.isName]) (ungroups.applied c), fun behind _ => ?_⟩
  · rw [Expr.readPrimary, readArgs]
    rfl
  · rw [List.cons_append, List.cons_append, append_parens, Token.primary?,
      Expr.inParens?_parens derived.nested]
    rfl

theorem accepted_parens (derived : Derives .expression inside)
    (own : Accepted .expression inside) : Accepted .primary (Token.parens inside) := by
  obtain ⟨e, readInside, ungroups⟩ := exists_of_accepted own
  refine ⟨.mark .lparen, inside ++ [.mark .rparen], .parens inside, e, rfl, rfl, ?_,
    ungroups.grouped, fun behind _ => ?_⟩
  · rw [Expr.readPrimary, readInside]
  · rw [append_parens, Token.primary?, Expr.inParens?_parens derived.nested.loose]
    rfl

theorem accepted_list (derived : Derives .arguments inside) (own : Accepted .arguments inside) :
    Accepted .primary (Token.brackets inside) := by
  obtain ⟨items, readInside, ungroups⟩ := own
  refine ⟨.mark .lbracket, inside ++ [.mark .rbracket], .list inside, .list items, rfl, rfl,
    ?_, ungroups.brackets, fun behind _ => ?_⟩
  · rw [Expr.readPrimary, readInside]
    rfl
  · rw [append_brackets, Token.primary?, Expr.inBrackets?_brackets derived.nested]
    rfl

theorem accepted_arguments (own : Accepted .items tokens) : Accepted .arguments tokens := by
  obtain ⟨some, item, items, ungroups, read⟩ := own
  refine ⟨item :: items, ?_, ungroups⟩
  rw [Expr.readArguments_eq (by simpa using some), read]

theorem accepted_last (derived : Derives .expression tokens)
    (own : Accepted .expression tokens) : Accepted .items tokens := by
  obtain ⟨e, read, ungroups⟩ := exists_of_accepted own
  have some := ne_nil_of_read read
  refine ⟨some, e, [], ungroups, fun fault => ?_⟩
  have alone := splitCommas_nested derived.nested 0 (fun _ _ flat => flat) []
  rw [List.append_nil] at alone
  rw [alone, Token.splitCommas, prepend, List.append_nil, List.mapM_cons,
    if_neg (by simpa using some), read]
  rfl

theorem accepted_more (derived : Derives .expression first) (own : Accepted .expression first)
    (others : Accepted .items behind) : Accepted .items (first ++ .mark .comma :: behind) := by
  obtain ⟨e, read, ungroups⟩ := exists_of_accepted own
  obtain ⟨-, item, items, ungroupsBehind, readBehind⟩ := others
  have some := ne_nil_of_read read
  refine ⟨by simp, e, item :: items, ?_, fun fault => ?_⟩
  · exact ungroups.append
      (.cons (by simp) (by simp) (by simp [Token.isName]) ungroupsBehind) (by simp)
  · rw [splitCommas_nested derived.nested 0 (fun _ _ flat => flat), Token.splitCommas,
      if_pos ⟨rfl, rfl⟩, prepend, List.append_nil, List.mapM_cons,
      if_neg (by simpa using some), read, readBehind fault]
    rfl

end

/-- What the grammar derives is read. -/
theorem Derives.accepted (derived : Derives phrase tokens) : phrase.Accepted tokens := by
  induction derived with
  | @single tokens own ih =>
    exact ⟨⟨tokens, []⟩, List.append_nil _,
      ⟨List.forall_mem_singleton.2 own, List.not_mem_nil⟩, List.forall_mem_singleton.2 ih⟩
  | binary op own others ihFirst ihBehind => exact accepted_binary op own ihFirst ihBehind
  | unsigned own ih => exact ih
  | signed op own ih => exact accepted_signed op ih
  | attached own others ihFirst ihBehind => exact accepted_attached ihFirst ihBehind
  | bare => exact accepted_bare
  | member m others ih => exact accepted_member m ih
  | method m own others ihArgs ihBehind => exact accepted_method m own ihArgs ihBehind
  | index own others ihPosition ihBehind => exact accepted_index own ihPosition ihBehind
  | number x =>
    exact accepted_alone rfl (by rw [Expr.readPrimary]) (by simp) (by simp) rfl fun _ _ => rfl
  | string s =>
    exact accepted_alone rfl (by rw [Expr.readPrimary]) (by simp) (by simp) rfl fun _ _ => rfl
  | bool b =>
    exact accepted_alone rfl (by rw [Expr.readPrimary]) (by simp) (by simp) rfl fun _ _ => by
      cases b <;> rfl
  | null =>
    exact accepted_alone rfl (by rw [Expr.readPrimary]) (by simp) (by simp) rfl fun _ _ => rfl
  | name x =>
    exact accepted_alone rfl (by rw [Expr.readPrimary]) (by simp) (by simp) rfl fun _ free =>
      primary?_name x free
  | call f own ih => exact accepted_call f own ih
  | new c own ih => exact accepted_new c own ih
  | parens own ih => exact accepted_parens own ih
  | list own ih => exact accepted_list own ih
  | noArguments => exact ⟨[], by rw [Expr.readArguments]; rfl, .nil⟩
  | someArguments own ih => exact accepted_arguments ih
  | last own ih => exact accepted_last own ih
  | more own others ihFirst ihBehind => exact accepted_more own ihFirst ihBehind

end Phrase

/-- Every operand of a chain is read, and is read alike when it stands alone. -/
theorem Chain.Derived.exists_tree {chain : Chain} (derived : chain.Derived) :
    ∃ tree : List Token → Expr,
      (∀ operand ∈ chain.operands, Expr.readOperand operand = .ok (tree operand)) ∧
      ∀ operand ∈ chain.operands, Expr.ofTokens operand = .ok (tree operand) := by
  have each : ∀ operand, ∃ e, operand ∈ chain.operands → Expr.readOperand operand = .ok e := by
    intro operand
    by_cases mem : operand ∈ chain.operands
    · obtain ⟨e, read, -⟩ := (derived.1 operand mem).accepted
      exact ⟨e, fun _ => read⟩
    · exact ⟨default, fun isOperand => absurd isOperand mem⟩
  choose tree reads using each
  refine ⟨tree, reads, fun operand mem => ?_⟩
  have single : Chain.Derived ⟨operand, []⟩ :=
    ⟨List.forall_mem_singleton.2 (derived.1 operand mem), List.not_mem_nil⟩
  have alone := single.ofTokens_tokens
  rw [Chain.tokens, List.flatMap_nil, List.append_nil] at alone
  rw [Chain.read_ofTokens, alone, Chain.read_single, reads operand mem]

-- ==================================================================== result

namespace Expr

/-- The tree of what is read has all its tokens, those of the parentheses apart
that group. -/
theorem leaves_of_read {tokens : List Token} {e : Expr} (read : ofTokens tokens = .ok e) :
    e.leaves = Token.ungroup false [] tokens := by
  obtain ⟨e', read', ungroups⟩ :=
    Phrase.exists_of_accepted (Phrase.derives_of_read read).accepted
  obtain rfl := Except.ok.inj (read.symm.trans read')
  have leaves := ungroups [] [] (by simp)
  rw [List.append_nil, Token.ungroup, List.append_nil] at leaves
  exact leaves.symm

/-- An expression is read exactly if the grammar derives it, and its tree has
all its tokens in their order, those of the parentheses apart that group. -/
theorem ofTokens_iff_derives (tokens : List Token) :
    ((∃ e, Expr.ofTokens tokens = .ok e) ↔ Phrase.Derives .expression tokens) ∧
    ∀ e, Expr.ofTokens tokens = .ok e → e.leaves = Token.ungroup false [] tokens := by
  constructor
  · constructor
    · rintro ⟨e, read⟩
      exact Phrase.derives_of_read read
    · intro derived
      obtain ⟨e, read, -⟩ := Phrase.exists_of_accepted derived.accepted
      exact ⟨e, read⟩
  · exact fun e read => leaves_of_read read

end Expr

end RoutineScript
