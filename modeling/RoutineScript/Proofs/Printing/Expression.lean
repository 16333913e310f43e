/-
Printing expressions, and reading what was printed.

The operands of an operator and the receiver of a member, a method or an
index are put in parentheses, so that how operators group does not matter:
the chain of a printed expression has one operator at most. Arguments, list
items and positions are closed off by their own delimiters and commas, and
stand bare.

Reading is shown to undo printing by recursion over expressions and lists of
them. The lemmas before that take one step of the reader each.
-/
import RoutineScript.Proofs.Printing.Nesting
import RoutineScript.Proofs.Printing.Spelling

namespace RoutineScript

-- ================================================================= printing

/-- Tokens in parentheses. -/
def Token.parens (tokens : List Token) : List Token :=
  .mark .lparen :: (tokens ++ [.mark .rparen])

/-- Tokens in brackets. -/
def Token.brackets (tokens : List Token) : List Token :=
  .mark .lbracket :: (tokens ++ [.mark .rbracket])

/-- The mark of an operator that stands in front of its operand. -/
def UnaryOp.mark : UnaryOp → Mark
  | neg => .minus
  | plus => .plus
  | not => .bang

/-- The keyword of a truth value. -/
def Keyword.ofBool : Bool → Keyword
  | Bool.true => .true
  | Bool.false => .false

namespace Expr

mutual

/-- The tokens that an expression is written with. -/
def tokens : Expr → List Token
  | number x => [.number x]
  | string s => [.string s]
  | bool b => [.keyword (Keyword.ofBool b)]
  | null => [.keyword .null]
  | list items => Token.brackets (listTokens items)
  | name x => [.name x]
  | call f args => .name f :: Token.parens (listTokens args)
  | member object m => Token.parens object.tokens ++ [.mark .dot, .name m]
  | methodCall object m args =>
    Token.parens object.tokens ++ .mark .dot :: .name m :: Token.parens (listTokens args)
  | index target position => Token.parens target.tokens ++ Token.brackets position.tokens
  | new c args => .keyword .new :: .name c :: Token.parens (listTokens args)
  | unary op operand => .mark op.mark :: Token.parens operand.tokens
  | binary op left right =>
    Token.parens left.tokens ++ .mark op.mark :: Token.parens right.tokens

/-- The tokens of expressions with commas between them. -/
def listTokens : List Expr → List Token
  | [] => []
  | [item] => item.tokens
  | item :: next :: items => item.tokens ++ .mark .comma :: listTokens (next :: items)

end

end Expr

/-- A text that scans as a name, and does not continue a branch. -/
def IsName (x : String) : Prop :=
  Token.scan x.toList = .ok [.name x] ∧ x ≠ "elseif"

namespace Expr

mutual

/-- What can be printed: all names scan as names, the numbers as they are
spelled, and no operator joins texts, as that one is written like addition. -/
def Printable (sp : Spelling) : Expr → Prop
  | number x => sp.Reads (.number x)
  | string _ | bool _ | null => True
  | list items => ListPrintable sp items
  | name x => IsName x
  | call f args => IsName f ∧ ListPrintable sp args
  | member object m => object.Printable sp ∧ IsName m
  | methodCall object m args => object.Printable sp ∧ IsName m ∧ ListPrintable sp args
  | index target position => target.Printable sp ∧ position.Printable sp
  | new c args => IsName c ∧ ListPrintable sp args
  | unary _ operand => operand.Printable sp
  | binary op left right => op ≠ .concat ∧ left.Printable sp ∧ right.Printable sp

def ListPrintable (sp : Spelling) : List Expr → Prop
  | [] => True
  | item :: items => item.Printable sp ∧ ListPrintable sp items

end

end Expr

-- ================================================================== nesting

/-- A token that is no comma and does not assign. -/
def Token.IsQuiet (token : Token) : Prop :=
  token ≠ .mark .comma ∧ token.assignment? = none

theorem nested_parens {flat flat' : Token → Prop} {tokens : List Token}
    (nested : Nested flat tokens) : Nested flat' (Token.parens tokens) :=
  .enclosed rfl nested.loose .nil

theorem nested_brackets {flat flat' : Token → Prop} {tokens : List Token}
    (nested : Nested flat tokens) : Nested flat' (Token.brackets tokens) :=
  .enclosed rfl nested.loose .nil

theorem isQuiet_operator (op : BinaryOp) :
    (Token.mark op.mark).IsQuiet ∧ (Token.mark op.mark).isPlain = true := by
  cases op <;> exact ⟨⟨by decide, rfl⟩, rfl⟩

theorem isQuiet_unary (op : UnaryOp) :
    (Token.mark op.mark).IsQuiet ∧ (Token.mark op.mark).isPlain = true := by
  cases op <;> exact ⟨⟨by decide, rfl⟩, rfl⟩

namespace Expr

mutual

/-- Delimiters match in printed expressions, and no comma stands outside
them. -/
theorem nested_tokens : ∀ e : Expr, Nested Token.IsQuiet e.tokens
  | number x => .plain ⟨by simp, rfl⟩ rfl .nil
  | string s => .plain ⟨by simp, rfl⟩ rfl .nil
  | bool b => .plain ⟨by simp, rfl⟩ rfl .nil
  | null => .plain ⟨by simp, rfl⟩ rfl .nil
  | list items => nested_brackets (nested_listTokens items)
  | name x => .plain ⟨by simp, rfl⟩ rfl .nil
  | call f args => .plain ⟨by simp, rfl⟩ rfl (nested_parens (nested_listTokens args))
  | member object m =>
    (nested_parens (nested_tokens object)).append
      (.plain ⟨by simp, rfl⟩ rfl (.plain ⟨by simp, rfl⟩ rfl .nil))
  | methodCall object m args =>
    (nested_parens (nested_tokens object)).append
      (.plain ⟨by simp, rfl⟩ rfl
        (.plain ⟨by simp, rfl⟩ rfl (nested_parens (nested_listTokens args))))
  | index target position =>
    (nested_parens (nested_tokens target)).append (nested_brackets (nested_tokens position))
  | new c args =>
    .plain ⟨by simp, rfl⟩ rfl
      (.plain ⟨by simp, rfl⟩ rfl (nested_parens (nested_listTokens args)))
  | unary op operand =>
    .plain (isQuiet_unary op).1 (isQuiet_unary op).2 (nested_parens (nested_tokens operand))
  | binary op left right =>
    (nested_parens (nested_tokens left)).append
      (.plain (isQuiet_operator op).1 (isQuiet_operator op).2
        (nested_parens (nested_tokens right)))

theorem nested_listTokens : ∀ items : List Expr, Nested (fun _ => True) (listTokens items)
  | [] => .nil
  | [item] => (nested_tokens item).loose
  | item :: next :: items =>
    (nested_tokens item).loose.append (.plain trivial rfl (nested_listTokens (next :: items)))

end

end Expr

-- ================================================================= operands

/-- No operator between operands. -/
def Token.IsOperandToken (token : Token) : Prop :=
  token.binaryOp? = none

theorem ofTokens_of_nested {tokens : List Token} (nested : Nested Token.IsOperandToken tokens)
    (leading : Bool) : Chain.ofTokens 0 leading tokens = ⟨tokens, []⟩ := by
  have := ofTokens_nested nested 0 leading (fun _ _ own => own) []
  rw [List.append_nil] at this
  rw [this, Chain.ofTokens, Chain.inFront, List.append_nil]

/-- A chain without operators is one operand. -/
theorem group_operand (tokens : List Token) :
    (⟨tokens, []⟩ : Chain).group = .operand tokens := by
  have noPivot : Chain.pivot? (Chain.joinsText ⟨tokens, []⟩) (Chain.operators ⟨tokens, []⟩)
      = none := by
    cases Chain.joinsText ⟨tokens, []⟩ <;> rfl
  rw [Chain.group, noPivot]
  simp [Chain.tokens]

theorem showsString_parens {tokens : List Token} (nested : Nested (fun _ => True) tokens) :
    Chain.showsString 0 (Token.parens tokens) = false := by
  have inside : Chain.showsString 0 (Token.parens tokens)
      = Chain.showsString 1 (tokens ++ [.mark .rparen]) :=
    Bool.false_or _
  rw [inside, showsString_nested nested]
  rfl

/-- A chain of two operands in parentheses is cut at its operator. -/
theorem group_binary {op : BinaryOp} {left right : List Token} (own : op ≠ .concat)
    (nestedLeft : Nested (fun _ => True) left) (nestedRight : Nested (fun _ => True) right) :
    (⟨Token.parens left, [(op, Token.parens right)]⟩ : Chain).group
      = .node op (.operand (Token.parens left)) (.operand (Token.parens right)) := by
  have noText : Chain.joinsText ⟨Token.parens left, [(op, Token.parens right)]⟩ = false := by
    simp [Chain.joinsText, Chain.operands, showsString_parens nestedLeft,
      showsString_parens nestedRight]
  have pivot : Chain.pivot? false [op] = some (0, op) := by
    cases op <;> first | rfl | exact absurd rfl own
  rw [Chain.group, noText]
  simp only [Chain.operators, List.map_cons, List.map_nil]
  rw [pivot]
  split
  · rename_i found
    cases found
  · rename_i found
    cases found
    split
    · rename_i cut
      cases cut
    · rename_i cut
      cases cut
      simp only [List.take_zero, group_operand]
      rfl

/-- Elements that are read back one by one are read back as a list. -/
theorem mapM_written {α β ε : Type} {write : α → β} {read : β → Except ε α} {items : List α}
    (undone : ∀ item ∈ items, read (write item) = .ok item) :
    (items.map write).mapM read = .ok items := by
  induction items with
  | nil => rfl
  | cons item items ih =>
    obtain ⟨first, others⟩ := List.forall_mem_cons.1 undone
    rw [List.map_cons, List.mapM_cons, first, ih others]
    rfl

namespace Expr

theorem ofTokens_operand {tokens : List Token}
    (chain : Chain.ofTokens 0 true tokens = ⟨tokens, []⟩) :
    Expr.ofTokens tokens = readOperand tokens := by
  have one : Grouping.ofTokens tokens = .operand tokens := by
    rw [Grouping.ofTokens, chain, group_operand]
  rw [Expr.ofTokens]
  generalize Grouping.ofTokens tokens = grouping at one
  subst one
  rfl

theorem ofTokens_binary {op : BinaryOp} {left right : List Token} {l r : Expr}
    (own : op ≠ .concat) (nestedLeft : Nested (fun _ => True) left)
    (nestedRight : Nested (fun _ => True) right)
    (readLeft : readOperand (Token.parens left) = .ok l)
    (readRight : readOperand (Token.parens right) = .ok r) :
    Expr.ofTokens (Token.parens left ++ .mark op.mark :: Token.parens right)
      = .ok (.binary op l r) := by
  have chain : Chain.ofTokens 0 true (Token.parens left ++ .mark op.mark :: Token.parens right)
      = ⟨Token.parens left, [(op, Token.parens right)]⟩ := by
    have first : Nested Token.IsOperandToken (Token.parens left) := nested_parens nestedLeft
    -- behind the parenthesis that closes the first operand, no other one begins
    have behind : leadsBehind true (Token.parens left) = false := by
      simp [leadsBehind, Token.parens, List.foldl_append]
      rfl
    have operator : (Token.mark op.mark).operatorAt? 0 false = some op := by
      cases op <;> first | rfl | exact absurd rfl own
    rw [ofTokens_nested first 0 true (fun _ _ own => own), behind, Chain.ofTokens, operator]
    simp only [Chain.inFront]
    rw [ofTokens_of_nested (nested_parens nestedRight), List.append_nil]
  have one : Grouping.ofTokens (Token.parens left ++ .mark op.mark :: Token.parens right)
      = .node op (.operand (Token.parens left)) (.operand (Token.parens right)) := by
    rw [Grouping.ofTokens, chain, group_binary own nestedLeft nestedRight]
  rw [Expr.ofTokens]
  generalize Grouping.ofTokens _ = grouping at one
  subst one
  simp only [Grouping.read, readLeft, readRight]
  rfl

-- ======================================================== steps of the reader

/-- Parentheses in front of other tokens. -/
theorem inParens?_parens {tokens : List Token} (nested : Nested (fun _ => True) tokens)
    (rest : List Token) :
    Token.inParens? (tokens ++ .mark .rparen :: rest) = some (tokens, rest) :=
  splitClosing_enclosed nested rfl rest

theorem inBrackets?_brackets {tokens : List Token} (nested : Nested (fun _ => True) tokens)
    (rest : List Token) :
    Token.inBrackets? (tokens ++ .mark .rbracket :: rest) = some (tokens, rest) :=
  splitClosing_enclosed nested rfl rest

theorem readOperand_of_primary {token : Token} {rest after : List Token} {primary : Primary}
    {value : Expr} (noUnary : token.unaryOp? = none)
    (first : Token.primary? (token :: rest) = some (primary, after))
    (read : readPrimary primary = .ok value) :
    readOperand (token :: rest) = readSuffixes (token :: rest) value after := by
  rw [readOperand, noUnary]
  simp only
  split
  · rename_i none
    cases first.symm.trans none
  · rename_i some
    cases first.symm.trans some
    rw [read]
    rfl

theorem readSuffixes_of_suffix {whole : List Token} {value attached : Expr} {token : Token}
    {rest after : List Token} {suffix : Suffix}
    (first : Token.suffix? (token :: rest) = some (suffix, after))
    (read : readSuffix value suffix = .ok attached) :
    readSuffixes whole value (token :: rest) = readSuffixes whole attached after := by
  rw [readSuffixes]
  split
  · rename_i none
    cases first.symm.trans none
  · rename_i some
    cases first.symm.trans some
    rw [read]
    rfl

theorem readSuffixes_nil (whole : List Token) (value : Expr) :
    readSuffixes whole value [] = .ok value := by
  rw [readSuffixes]

/-- An operand that begins with parentheses. -/
theorem readOperand_parens {tokens : List Token} {value : Expr}
    (nested : Nested (fun _ => True) tokens) (read : Expr.ofTokens tokens = .ok value)
    (rest : List Token) :
    readOperand (Token.parens tokens ++ rest)
      = readSuffixes (Token.parens tokens ++ rest) value rest := by
  have shape : Token.parens tokens ++ rest
      = .mark .lparen :: (tokens ++ .mark .rparen :: rest) := by
    simp [Token.parens]
  have first : Token.primary? (.mark .lparen :: (tokens ++ .mark .rparen :: rest))
      = some (.parens tokens, rest) := by
    rw [Token.primary?, inParens?_parens nested]
    rfl
  rw [shape]
  exact readOperand_of_primary rfl first (by rw [readPrimary, read])

/-- An operand that is put in parentheses as a whole. -/
theorem readOperand_enclosed {tokens : List Token} {value : Expr}
    (nested : Nested (fun _ => True) tokens) (read : Expr.ofTokens tokens = .ok value) :
    readOperand (Token.parens tokens) = .ok value := by
  have := readOperand_parens nested read []
  rwa [List.append_nil, readSuffixes_nil] at this

theorem tokens_ne_nil (e : Expr) : e.tokens ≠ [] := by
  cases e <;> simp [tokens, Token.parens, Token.brackets]

/-- The pieces of printed expressions. -/
theorem splitCommas_listTokens (item : Expr) (items : List Expr) :
    Token.splitCommas 0 (listTokens (item :: items)) = (item :: items).map tokens := by
  induction items generalizing item with
  | nil =>
    have := splitCommas_nested (nested_tokens item) 0 (fun _ _ own => own.1) []
    rw [List.append_nil] at this
    rw [listTokens, this]
    simp [Token.splitCommas, prepend]
  | cons next items ih =>
    rw [listTokens, splitCommas_nested (nested_tokens item) 0 fun _ _ own => own.1,
      Token.splitCommas, if_pos ⟨rfl, rfl⟩, ih]
    simp [prepend]

theorem readArguments_eq {tokens : List Token} (some : tokens.isEmpty = false) :
    readArguments tokens = (Token.splitCommas 0 tokens).mapM fun piece =>
      if piece.isEmpty then .error (Cause.notAValue (Token.spellAll tokens))
      else Expr.ofTokens piece := by
  rw [readArguments, some, if_neg Bool.false_ne_true]
  refine (List.mapM_subtype ?_).trans (by rw [List.unattach_attach])
  intro piece mem
  rfl

/-- Printed arguments are read one by one. -/
theorem readArguments_listTokens {items : List Expr}
    (read : ∀ item ∈ items, Expr.ofTokens item.tokens = .ok item) :
    readArguments (listTokens items) = .ok items := by
  cases items with
  | nil => rw [listTokens, readArguments]; rfl
  | cons item items =>
    have some : (listTokens (item :: items)).isEmpty = false := by
      cases items <;> simp [listTokens, tokens_ne_nil]
    rw [readArguments_eq some, splitCommas_listTokens]
    refine mapM_written fun e mem => ?_
    rw [if_neg (by simp [tokens_ne_nil]), read e mem]

-- ================================================================== reading

/-- An expression that is a primary. -/
theorem ofTokens_primary {token : Token} {rest : List Token} {primary : Primary} {value : Expr}
    (nested : Nested Token.IsOperandToken (token :: rest)) (noUnary : token.unaryOp? = none)
    (first : Token.primary? (token :: rest) = some (primary, []))
    (read : readPrimary primary = .ok value) :
    Expr.ofTokens (token :: rest) = .ok value := by
  rw [ofTokens_operand (ofTokens_of_nested nested true),
    readOperand_of_primary noUnary first read, readSuffixes_nil]

theorem ofTokens_literal {token : Token} {value : Expr} (own : token.IsOperandToken)
    (noDelimiter : token.isPlain = true) (noUnary : token.unaryOp? = none)
    (first : Token.primary? [token] = some (.literal value, [])) :
    Expr.ofTokens [token] = .ok value :=
  ofTokens_primary (.plain own noDelimiter .nil) noUnary first (by rw [readPrimary])

theorem ofTokens_name (x : String) : Expr.ofTokens [.name x] = .ok (.name x) :=
  ofTokens_primary (.plain rfl rfl .nil) rfl rfl (by rw [readPrimary])

/-- An expression that is something attached to what is in parentheses. -/
theorem ofTokens_attached {tokens : List Token} {token : Token} {rest : List Token}
    {suffix : Suffix} {value attached : Expr} (nested : Nested (fun _ => True) tokens)
    (behind : Nested Token.IsOperandToken (token :: rest))
    (inside : Expr.ofTokens tokens = .ok value)
    (first : Token.suffix? (token :: rest) = some (suffix, []))
    (read : readSuffix value suffix = .ok attached) :
    Expr.ofTokens (Token.parens tokens ++ token :: rest) = .ok attached := by
  rw [ofTokens_operand (ofTokens_of_nested ((nested_parens nested).append behind) true),
    readOperand_parens nested inside, readSuffixes_of_suffix first read, readSuffixes_nil]

mutual

/-- Reading undoes printing. -/
theorem ofTokens_tokens {sp : Spelling} :
    ∀ e : Expr, e.Printable sp → Expr.ofTokens e.tokens = .ok e
  | number x, _ => ofTokens_literal rfl rfl rfl rfl
  | string s, _ => ofTokens_literal rfl rfl rfl rfl
  | bool b, _ => by cases b <;> exact ofTokens_literal rfl rfl rfl rfl
  | null, _ => ofTokens_literal rfl rfl rfl rfl
  | name x, _ => ofTokens_name x
  | list items, h => by
    have inside := nested_listTokens items
    have first : Token.primary? (Token.brackets (listTokens items))
        = some (.list (listTokens items), []) := by
      rw [Token.brackets, Token.primary?, inBrackets?_brackets inside]
      rfl
    refine ofTokens_primary (nested_brackets inside) rfl first ?_
    rw [readPrimary, readArguments_listTokens (ofTokens_listTokens items h)]
    rfl
  | call f args, h => by
    have inside := nested_listTokens args
    have first : Token.primary? (.name f :: Token.parens (listTokens args))
        = some (.call f (listTokens args), []) := by
      rw [Token.parens, Token.primary?, inParens?_parens inside]
      rfl
    refine ofTokens_primary (.plain rfl rfl (nested_parens inside)) rfl first ?_
    rw [readPrimary, readArguments_listTokens (ofTokens_listTokens args h.2)]
    rfl
  | member object m, h =>
    ofTokens_attached (nested_tokens object).loose (.plain rfl rfl (.plain rfl rfl .nil))
      (ofTokens_tokens object h.1) rfl (by rw [readSuffix])
  | methodCall object m args, h => by
    have inside := nested_listTokens args
    have first : Token.suffix? (.mark .dot :: .name m :: Token.parens (listTokens args))
        = some (.methodCall m (listTokens args), []) := by
      rw [Token.parens, Token.suffix?, inParens?_parens inside]
      rfl
    refine ofTokens_attached (nested_tokens object).loose
      (.plain rfl rfl (.plain rfl rfl (nested_parens inside))) (ofTokens_tokens object h.1)
      first ?_
    rw [readSuffix, readArguments_listTokens (ofTokens_listTokens args h.2.2)]
    rfl
  | index target position, h => by
    have inside := (nested_tokens position).loose
    have first : Token.suffix? (Token.brackets position.tokens)
        = some (.index position.tokens, []) := by
      rw [Token.brackets, Token.suffix?, inBrackets?_brackets inside]
      rfl
    refine ofTokens_attached (nested_tokens target).loose (nested_brackets inside)
      (ofTokens_tokens target h.1) first ?_
    rw [readSuffix, ofTokens_tokens position h.2]
    rfl
  | new c args, h => by
    have inside := nested_listTokens args
    have first : Token.primary? (.keyword .new :: .name c :: Token.parens (listTokens args))
        = some (.new c (listTokens args), []) := by
      rw [Token.parens, Token.primary?, inParens?_parens inside]
      rfl
    refine ofTokens_primary (.plain rfl rfl (.plain rfl rfl (nested_parens inside))) rfl first ?_
    rw [readPrimary, readArguments_listTokens (ofTokens_listTokens args h.2)]
    rfl
  | unary op operand, h => by
    have inside := (nested_tokens operand).loose
    have leads : (Token.mark op.mark).operatorAt? 0 true = none := by
      cases op <;> rfl
    have plain : (Token.mark op.mark).nest 0 = 0 := nest_of_isPlain (isQuiet_unary op).2 0
    have chain : Chain.ofTokens 0 true (.mark op.mark :: Token.parens operand.tokens)
        = ⟨.mark op.mark :: Token.parens operand.tokens, []⟩ := by
      rw [ofTokens_other leads, plain, ofTokens_of_nested (nested_parens inside)]
      rfl
    have own : (Token.mark op.mark).unaryOp? = some op := by
      cases op <;> rfl
    rw [tokens, ofTokens_operand chain, readOperand, own]
    simp only [Token.parens, List.isEmpty_cons, Bool.false_eq_true, ↓reduceIte]
    rw [← Token.parens, readOperand_enclosed inside (ofTokens_tokens operand h)]
    rfl
  | binary op left right, h => by
    obtain ⟨own, first, second⟩ := h
    exact ofTokens_binary own (nested_tokens left).loose (nested_tokens right).loose
      (readOperand_enclosed (nested_tokens left).loose (ofTokens_tokens left first))
      (readOperand_enclosed (nested_tokens right).loose (ofTokens_tokens right second))

theorem ofTokens_listTokens {sp : Spelling} :
    ∀ items : List Expr, ListPrintable sp items →
      ∀ item ∈ items, Expr.ofTokens item.tokens = .ok item
  | [], _ => List.forall_mem_nil _
  | item :: items, h =>
    List.forall_mem_cons.2 ⟨ofTokens_tokens item h.1, ofTokens_listTokens items h.2⟩

end

end Expr

-- ================================================================= spelling

section

variable {sp : Spelling}

theorem reads_parens {tokens : List Token} (reads : ∀ t ∈ tokens, sp.Reads t) :
    ∀ t ∈ Token.parens tokens, sp.Reads t := by
  simpa [Token.parens, Spelling.Reads, or_imp, forall_and] using reads

theorem reads_brackets {tokens : List Token} (reads : ∀ t ∈ tokens, sp.Reads t) :
    ∀ t ∈ Token.brackets tokens, sp.Reads t := by
  simpa [Token.brackets, Spelling.Reads, or_imp, forall_and] using reads

namespace Expr

mutual

/-- The tokens of a printed expression scan as they are spelled. -/
theorem reads_tokens : ∀ e : Expr, e.Printable sp → ∀ t ∈ e.tokens, sp.Reads t
  | number _, h => List.forall_mem_singleton.2 h
  | string _, _ => List.forall_mem_singleton.2 trivial
  | bool _, _ => List.forall_mem_singleton.2 trivial
  | null, _ => List.forall_mem_singleton.2 trivial
  | name _, h => List.forall_mem_singleton.2 h.1
  | list items, h => reads_brackets (reads_listTokens items h)
  | call _ args, h =>
    List.forall_mem_cons.2 ⟨h.1.1, reads_parens (reads_listTokens args h.2)⟩
  | member object _, h =>
    List.forall_mem_append.2 ⟨reads_parens (reads_tokens object h.1),
      List.forall_mem_cons.2 ⟨trivial, List.forall_mem_singleton.2 h.2.1⟩⟩
  | methodCall object _ args, h =>
    List.forall_mem_append.2 ⟨reads_parens (reads_tokens object h.1),
      List.forall_mem_cons.2 ⟨trivial,
        List.forall_mem_cons.2 ⟨h.2.1.1, reads_parens (reads_listTokens args h.2.2)⟩⟩⟩
  | index target position, h =>
    List.forall_mem_append.2 ⟨reads_parens (reads_tokens target h.1),
      reads_brackets (reads_tokens position h.2)⟩
  | new _ args, h =>
    List.forall_mem_cons.2 ⟨trivial,
      List.forall_mem_cons.2 ⟨h.1.1, reads_parens (reads_listTokens args h.2)⟩⟩
  | unary _ operand, h =>
    List.forall_mem_cons.2 ⟨trivial, reads_parens (reads_tokens operand h)⟩
  | binary _ left right, h =>
    List.forall_mem_append.2 ⟨reads_parens (reads_tokens left h.2.1),
      List.forall_mem_cons.2 ⟨trivial, reads_parens (reads_tokens right h.2.2)⟩⟩

theorem reads_listTokens :
    ∀ items : List Expr, ListPrintable sp items → ∀ t ∈ listTokens items, sp.Reads t
  | [], _ => List.forall_mem_nil _
  | [item], h => reads_tokens item h.1
  | item :: next :: items, h =>
    List.forall_mem_append.2 ⟨reads_tokens item h.1,
      List.forall_mem_cons.2 ⟨trivial, reads_listTokens (next :: items) h.2⟩⟩

end

end Expr

end

-- ================================================================== fitting

/-- Tokens that fit whatever fits behind a delimiter, a comma or a
terminator. -/
def Fitting (tokens : List Token) : Prop :=
  ∀ (m : Mark) (rest : List Token), (Token.mark m).isFree = true → Fit (.mark m :: rest) →
    Fit (tokens ++ .mark m :: rest)

theorem fit_parens {tokens rest : List Token} (inside : Fitting tokens)
    (behind : Fit (.mark .rparen :: rest)) : Fit (Token.parens tokens ++ rest) := by
  have shape : Token.parens tokens ++ rest
      = .mark .lparen :: (tokens ++ .mark .rparen :: rest) := by
    simp [Token.parens]
  rw [shape]
  exact fit_cons_of_isFree rfl (inside _ _ rfl behind)

theorem fit_brackets {tokens rest : List Token} (inside : Fitting tokens)
    (behind : Fit (.mark .rbracket :: rest)) : Fit (Token.brackets tokens ++ rest) := by
  have shape : Token.brackets tokens ++ rest
      = .mark .lbracket :: (tokens ++ .mark .rbracket :: rest) := by
    simp [Token.brackets]
  rw [shape]
  exact fit_cons_of_isFree rfl (inside _ _ rfl behind)

theorem fitting_parens {tokens : List Token} (inside : Fitting tokens) :
    Fitting (Token.parens tokens) :=
  fun _ _ _ behind => fit_parens inside (fit_cons_of_isFree rfl behind)

theorem fitting_brackets {tokens : List Token} (inside : Fitting tokens) :
    Fitting (Token.brackets tokens) :=
  fun _ _ _ behind => fit_brackets inside (fit_cons_of_isFree rfl behind)

theorem fitting_cons {token : Token} {tokens : List Token} (free : token.isFree = true)
    (behind : Fitting tokens) : Fitting (token :: tokens) :=
  fun m rest own fit => fit_cons_of_isFree free (behind m rest own fit)

theorem fitting_nil : Fitting [] :=
  fun _ _ _ fit => fit

namespace Expr

mutual

/-- Printed expressions fit. -/
theorem fitting_tokens : ∀ e : Expr, Fitting e.tokens
  | number _ => fun m rest free fit => by
    refine fit_cons.2 ⟨?_, fit⟩
    cases m <;> first | rfl | cases free
  | string _ => fitting_cons rfl fitting_nil
  | bool _ => fitting_cons rfl fitting_nil
  | null => fitting_cons rfl fitting_nil
  | name _ => fitting_cons rfl fitting_nil
  | list items => fitting_brackets (fitting_listTokens items)
  | call _ args => fitting_cons rfl (fitting_parens (fitting_listTokens args))
  | member object _ => fun mark rest free fit => by
    rw [tokens, List.append_assoc]
    refine fit_parens (fitting_tokens object) (fit_cons_of_isFree rfl ?_)
    exact fit_cons.2 ⟨rfl, fit_cons_of_isFree rfl fit⟩
  | methodCall object _ args => fun mark rest free fit => by
    rw [tokens, List.append_assoc]
    refine fit_parens (fitting_tokens object) (fit_cons_of_isFree rfl ?_)
    exact fit_cons.2 ⟨rfl, fitting_cons rfl (fitting_parens (fitting_listTokens args))
      mark rest free fit⟩
  | index target position => fun mark rest free fit => by
    rw [tokens, List.append_assoc]
    exact fit_parens (fitting_tokens target) (fit_cons_of_isFree rfl
      (fitting_brackets (fitting_tokens position) mark rest free fit))
  | new _ args =>
    fitting_cons rfl (fitting_cons rfl (fitting_parens (fitting_listTokens args)))
  | unary op operand => fun mark rest free fit =>
    fit_cons.2 ⟨by cases op <;> rfl, fitting_parens (fitting_tokens operand) mark rest free fit⟩
  | binary op left right => fun mark rest free fit => by
    rw [tokens, List.append_assoc]
    refine fit_parens (fitting_tokens left) (fit_cons_of_isFree rfl ?_)
    exact fit_cons.2 ⟨by cases op <;> rfl,
      fitting_parens (fitting_tokens right) mark rest free fit⟩

theorem fitting_listTokens : ∀ items : List Expr, Fitting (listTokens items)
  | [] => fitting_nil
  | [item] => fitting_tokens item
  | item :: next :: items => fun mark rest free fit => by
    rw [listTokens, List.append_assoc]
    exact fitting_tokens item .comma _ rfl
      (fit_cons_of_isFree rfl (fitting_listTokens (next :: items) mark rest free fit))

end

end Expr

end RoutineScript
