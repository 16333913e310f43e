/-
Reading expressions. The operands of a grouped chain are read from the
outside in: operators in front, then a primary (a literal, a name, a call, a
construction, a list or an expression in parentheses), then what is attached
to it (members, methods, indices), from left to right.

`Primary` and `Suffix` are the shapes that are found first, with the tokens
they enclose still unread; only then are the enclosed tokens read. What is
enclosed is shorter than what encloses it, which is why reading ends.
-/
import RoutineScript.Expr
import RoutineScript.Expr.Chain
import RoutineScript.Fault
import RoutineScript.Source.Normalized
import RoutineScript.Token.Scan

namespace RoutineScript

namespace Token

-- ================================================================ enclosing

/-- What stands before the delimiter that closes the one just read, and what
follows it. Only delimiters of that sort are counted; `depth` are open. -/
def splitClosing (opener closer : Mark) (depth : Nat) :
    List Token → Option (List Token × List Token)
  | [] => none
  | token :: rest =>
    if token = mark closer then
      if depth ≤ 1 then some ([], rest)
      else (splitClosing opener closer (depth - 1) rest).map fun (inside, after) =>
        (token :: inside, after)
    else
      let depth := if token = mark opener then depth + 1 else depth
      (splitClosing opener closer depth rest).map fun (inside, after) => (token :: inside, after)

/-- What an opening parenthesis just read encloses, and what follows. -/
def inParens? (rest : List Token) : Option (List Token × List Token) :=
  splitClosing .lparen .rparen 1 rest

/-- What an opening bracket just read encloses, and what follows. -/
def inBrackets? (rest : List Token) : Option (List Token × List Token) :=
  splitClosing .lbracket .rbracket 1 rest

theorem length_splitClosing {opener closer : Mark} {depth : Nat}
    {tokens inside after : List Token}
    (h : splitClosing opener closer depth tokens = some (inside, after)) :
    inside.length + after.length + 1 = tokens.length := by
  induction tokens generalizing depth inside with
  | nil => simp [splitClosing] at h
  | cons token rest ih =>
    have step : ∀ {d : Nat}, (splitClosing opener closer d rest).map
        (fun p => (token :: p.1, p.2)) = some (inside, after) →
          inside.length + after.length + 1 = (token :: rest).length := by
      intro d hm
      obtain ⟨⟨i, a⟩, hs, he⟩ := Option.map_eq_some_iff.1 hm
      simp only [Prod.mk.injEq] at he
      obtain ⟨rfl, rfl⟩ := he
      have := ih hs
      simp only [List.length_cons]
      omega
    simp only [splitClosing] at h
    split at h
    · split at h
      · simp_all
      · exact step h
    · exact step h

-- =================================================================== commas

/-- The pieces between the commas that stand outside parentheses and
brackets. -/
def splitCommas (depth : Nat) : List Token → List (List Token)
  | [] => [[]]
  | token :: rest =>
    if depth = 0 ∧ token = mark .comma then [] :: splitCommas 0 rest
    else
      match splitCommas (token.nest depth) rest with
      | [] => [[token]]
      | piece :: pieces => (token :: piece) :: pieces

theorem length_of_mem_splitCommas {depth : Nat} {tokens piece : List Token}
    (h : piece ∈ splitCommas depth tokens) : piece.length ≤ tokens.length := by
  induction tokens generalizing depth piece with
  | nil => simp_all [splitCommas]
  | cons token rest ih =>
    simp only [splitCommas] at h
    split at h
    · rcases List.mem_cons.1 h with rfl | h
      · simp
      · exact Nat.le_succ_of_le (ih h)
    · split at h
      · simp_all
      · rename_i first pieces hs
        rcases List.mem_cons.1 h with rfl | h
        · have := ih (hs ▸ List.mem_cons_self)
          simpa using this
        · exact Nat.le_succ_of_le (ih (hs ▸ List.mem_cons_of_mem _ h))

end Token

-- ================================================================== phrases

/-- What an operand begins with, enclosed tokens unread. -/
inductive Primary where
  | literal (value : Expr)
  | name (name : String)
  | call (name : String) (args : List Token)
  | new (className : String) (args : List Token)
  | parens (inside : List Token)
  | list (items : List Token)

/-- What may be attached to a primary, enclosed tokens unread. -/
inductive Suffix where
  | member (name : String)
  | methodCall (name : String) (args : List Token)
  | index (position : List Token)

/-- The tokens that a primary encloses. -/
def Primary.inside : Primary → List Token
  | literal _ | name _ => []
  | call _ inside | new _ inside | parens inside | list inside => inside

/-- The tokens that a suffix encloses. -/
def Suffix.inside : Suffix → List Token
  | member _ => []
  | methodCall _ inside | index inside => inside

namespace Token

/-- The primary at the front of some tokens, and what follows it. -/
def primary? : List Token → Option (Primary × List Token)
  | number x :: rest => some (.literal (.number x), rest)
  | string s :: rest => some (.literal (.string s), rest)
  | keyword .true :: rest => some (.literal (.bool true), rest)
  | keyword .false :: rest => some (.literal (.bool false), rest)
  | keyword .null :: rest => some (.literal .null, rest)
  | keyword .new :: name c :: mark .lparen :: rest =>
    (inParens? rest).map fun (inside, after) => (.new c inside, after)
  | name f :: mark .lparen :: rest =>
    (inParens? rest).map fun (inside, after) => (.call f inside, after)
  | name x :: rest => some (.name x, rest)
  | mark .lparen :: rest => (inParens? rest).map fun (inside, after) => (.parens inside, after)
  | mark .lbracket :: rest => (inBrackets? rest).map fun (inside, after) => (.list inside, after)
  | _ => none

/-- The suffix at the front of some tokens, and what follows it. -/
def suffix? : List Token → Option (Suffix × List Token)
  | mark .dot :: name m :: mark .lparen :: rest =>
    (inParens? rest).map fun (inside, after) => (.methodCall m inside, after)
  | mark .dot :: name m :: rest => some (.member m, rest)
  | mark .lbracket :: rest => (inBrackets? rest).map fun (inside, after) => (.index inside, after)
  | _ => none

theorem length_primary? {tokens after : List Token} {p : Primary}
    (h : primary? tokens = some (p, after)) :
    p.inside.length < tokens.length ∧ after.length < tokens.length := by
  have enclosed : ∀ {opener closer : Mark} {rest : List Token} {f : List Token → Primary},
      (∀ i, (f i).inside = i) →
      (splitClosing opener closer 1 rest).map (fun q => (f q.1, q.2)) = some (p, after) →
        p.inside.length + after.length + 1 = rest.length := by
    intro opener closer rest f hf hm
    obtain ⟨⟨i, a⟩, hs, he⟩ := Option.map_eq_some_iff.1 hm
    simp only [Prod.mk.injEq] at he
    obtain ⟨rfl, rfl⟩ := he
    rw [hf]
    exact length_splitClosing hs
  unfold primary? at h
  split at h
  case h_6 => have := enclosed (fun _ => rfl) h; simp only [List.length_cons]; omega
  case h_7 => have := enclosed (fun _ => rfl) h; simp only [List.length_cons]; omega
  case h_9 => have := enclosed (fun _ => rfl) h; simp only [List.length_cons]; omega
  case h_10 => have := enclosed (fun _ => rfl) h; simp only [List.length_cons]; omega
  case h_11 => simp at h
  all_goals
    obtain ⟨rfl, rfl⟩ := Prod.mk.inj (Option.some.inj h)
    simp [Primary.inside]

theorem length_suffix? {tokens after : List Token} {s : Suffix}
    (h : suffix? tokens = some (s, after)) :
    s.inside.length < tokens.length ∧ after.length < tokens.length := by
  have enclosed : ∀ {opener closer : Mark} {rest : List Token} {f : List Token → Suffix},
      (∀ i, (f i).inside = i) →
      (splitClosing opener closer 1 rest).map (fun q => (f q.1, q.2)) = some (s, after) →
        s.inside.length + after.length + 1 = rest.length := by
    intro opener closer rest f hf hm
    obtain ⟨⟨i, a⟩, hs, he⟩ := Option.map_eq_some_iff.1 hm
    simp only [Prod.mk.injEq] at he
    obtain ⟨rfl, rfl⟩ := he
    rw [hf]
    exact length_splitClosing hs
  unfold suffix? at h
  split at h
  case h_1 => have := enclosed (fun _ => rfl) h; simp only [List.length_cons]; omega
  case h_2 =>
    obtain ⟨rfl, rfl⟩ := Prod.mk.inj (Option.some.inj h)
    simp only [Suffix.inside, List.length_nil, List.length_cons]
    omega
  case h_3 => have := enclosed (fun _ => rfl) h; simp only [List.length_cons]; omega
  case h_4 => simp at h

end Token

-- ================================================================== reading

/-- Reads the operands of a grouping from left to right and builds its tree.
A dangling operator is reported before anything to its right is read. -/
def Grouping.read (g : Grouping)
    (readOperand : (tokens : List Token) → tokens ∈ g.operands → Except Fault Expr) :
    Except Fault Expr :=
  match g with
  | operand tokens => readOperand tokens (by simp [operands])
  | dangling tokens => .error (Cause.notAValue (Token.spellAll tokens))
  | node op left right => do
    let l ← left.read fun tokens h => readOperand tokens (by simp [operands, h])
    let r ← right.read fun tokens h => readOperand tokens (by simp [operands, h])
    return .binary op l r

namespace Expr

mutual

/-- Reads the tokens of one complete expression. -/
def ofTokens (tokens : List Token) : Except Fault Expr :=
  (Grouping.ofTokens tokens).read fun operand _h => readOperand operand
termination_by (tokens.length, 3)
decreasing_by
  have := Grouping.length_of_mem_ofTokens _h
  simp only [Prod.lex_def]
  omega

/-- Reads an operand: operators in front of a primary with its suffixes. -/
def readOperand (tokens : List Token) : Except Fault Expr :=
  match tokens with
  | [] => .error (Cause.notAValue "")
  | token :: rest =>
    match token.unaryOp? with
    | some op =>
      if rest.isEmpty then .error (Cause.notAValue (Token.spellAll [token]))
      else (readOperand rest).map (.unary op)
    | none =>
      match _h : Token.primary? (token :: rest) with
      | none => .error (Cause.notAValue (Token.spellAll (token :: rest)))
      | some (primary, after) => do
        let value ← readPrimary primary
        readSuffixes (token :: rest) value after
termination_by (tokens.length, 2)
decreasing_by
  · simp [Prod.lex_def]
  · have := (Token.length_primary? _h).1
    simp only [Prod.lex_def]
    omega
  · have := (Token.length_primary? _h).2
    simp only [Prod.lex_def]
    omega

/-- Reads a primary. -/
def readPrimary (primary : Primary) : Except Fault Expr :=
  match primary with
  | .literal value => .ok value
  | .name x => .ok (.name x)
  | .call f args => (readArguments args).map (.call f)
  | .new c args => (readArguments args).map (.new c)
  | .parens inside => ofTokens inside
  | .list items => (readArguments items).map .list
termination_by (primary.inside.length, 5)
decreasing_by all_goals simp [Prod.lex_def, Primary.inside]

/-- Reads what is attached to a value. `whole` are the tokens of the operand
that all this belongs to. -/
def readSuffixes (whole : List Token) (value : Expr) (tokens : List Token) :
    Except Fault Expr :=
  match tokens with
  | [] => .ok value
  | token :: rest =>
    match _h : Token.suffix? (token :: rest) with
    | none => .error (Cause.notAValue (Token.spellAll whole))
    | some (suffix, after) => do
      let attached ← readSuffix value suffix
      readSuffixes whole attached after
termination_by (tokens.length, 2)
decreasing_by
  · have := (Token.length_suffix? _h).1
    simp only [Prod.lex_def]
    omega
  · have := (Token.length_suffix? _h).2
    simp only [Prod.lex_def]
    omega

/-- Reads one suffix of a value. -/
def readSuffix (value : Expr) (suffix : Suffix) : Except Fault Expr :=
  match suffix with
  | .member m => .ok (.member value m)
  | .methodCall m args => (readArguments args).map (.methodCall value m)
  | .index position => (ofTokens position).map (.index value)
termination_by (suffix.inside.length, 5)
decreasing_by all_goals simp [Prod.lex_def, Suffix.inside]

/-- Reads expressions between commas. No tokens are no expressions, but
between two commas there has to be one. -/
def readArguments (tokens : List Token) : Except Fault (List Expr) :=
  if tokens.isEmpty then .ok []
  else
    (Token.splitCommas 0 tokens).attach.mapM fun ⟨piece, _h⟩ =>
      if piece.isEmpty then .error (Cause.notAValue (Token.spellAll tokens))
      else ofTokens piece
termination_by (tokens.length, 4)
decreasing_by
  have := Token.length_of_mem_splitCommas _h
  simp only [Prod.lex_def]
  omega

end

/-- Reads the expression that a text spells. Terminators around it are
dropped. -/
def ofText (text : String) : Except Fault Expr := do
  let span ← Span.normalize text
  let body := span.trimTerminators
  match Token.scan body.chars with
  | .error _ => .error (Cause.notAValue body.text)
  | .ok tokens => ofTokens tokens

end Expr

end RoutineScript
