/-
Printing instructions and the headers of blocks, and reading them.

These are the parts of a statement that hold no other statements, so all
their tokens are scanned and read at once. An instruction is told apart by
its first keyword, else by the one assignment or step outside parentheses,
else it is a call; a header is told by the name in front of it.
-/
import RoutineScript.Proofs.Printing.Expression

namespace RoutineScript

-- ================================================================= printing

/-- The expression that a place is written like. -/
def Place.expr : Place → Expr
  | name x => .name x
  | member object m => .member object m

/-- The expression that a call is written like. -/
def Callee.applied (args : List Expr) : Callee → Expr
  | name f => .call f args
  | method object m => .methodCall object m args

/-- The mark that combines a place with a value; only arithmetic has one. -/
def BinaryOp.assignment : BinaryOp → Mark
  | add => .plusEq
  | sub => .minusEq
  | mul => .starEq
  | div => .slashEq
  | mod => .percentEq
  | and | or | ge | le | gt | lt | eq | ne | concat => .eq

/-- The mark of a step. -/
def stepMark (delta : Float) : Mark :=
  if delta = 1 then .plusPlus else .minusMinus

namespace Stmt

/-- The tokens of an instruction. -/
def instructionTokens : Stmt → List Token
  | assign place value => place.expr.tokens ++ .mark .eq :: value.tokens
  | compound place op value => place.expr.tokens ++ .mark op.assignment :: value.tokens
  | step place delta => place.expr.tokens ++ [.mark (stepMark delta)]
  | delete place => .keyword .del :: place.expr.tokens
  | make x => [.keyword .make, .name x]
  | call callee args => (callee.applied args).tokens
  | .return none => [.keyword .return]
  | .return (some value) => .keyword .return :: value.tokens
  | _ => []

/-- The tokens of a header. -/
def Header.tokens : Header → List Token
  | branch condition => .name "if" :: Token.parens condition.tokens
  | attempt => [.name "try"]
  | whileLoop condition => .name "while" :: Token.parens condition.tokens
  | forLoop count => .name "for" :: Token.parens count.tokens
  | countLoop x start stop =>
    .name "count" :: Token.parens (Expr.listTokens [.name x, start, stop])
  | thread => [.name "thread"]
  | define f params =>
    .name "def" :: .name f :: Token.parens (Expr.listTokens (params.map .name))
  | declareClass c none => [.name "class", .name c]
  | declareClass c (some parent) => .name "class" :: .name c :: Token.parens parent.tokens

end Stmt

-- ====================================================== what can be printed

namespace Stmt

/-- The instructions that can be printed. -/
def InstructionPrintable (sp : Spelling) : Stmt → Prop
  | assign place value => place.expr.Printable sp ∧ value.Printable sp
  | compound place op value =>
    place.expr.Printable sp ∧ op ∈ [.add, .sub, .mul, .div, .mod] ∧ value.Printable sp
  | step place delta => place.expr.Printable sp ∧ (delta = 1 ∨ delta = -1)
  | delete place => place.expr.Printable sp
  | make x => IsName x
  | call callee args => (callee.applied args).Printable sp
  | .return none => True
  | .return (some value) => value.Printable sp
  | _ => False

def Header.Printable (sp : Spelling) : Header → Prop
  | branch condition | whileLoop condition => condition.Printable sp
  | forLoop count => count.Printable sp
  | attempt | thread => True
  | countLoop x start stop => IsName x ∧ start.Printable sp ∧ stop.Printable sp
  | define f params => IsName f ∧ ∀ x ∈ params, IsName x
  | declareClass c none => IsName c
  | declareClass c (some parent) => IsName c ∧ parent.Printable sp

end Stmt

-- ================================================================== reading

variable {sp : Spelling}

theorem Place.ofTokens_expr (place : Place) (printable : place.expr.Printable sp) :
    Place.ofTokens place.expr.tokens = .ok place := by
  cases place with
  | name x => rfl
  | member object m =>
    have read := Expr.ofTokens_tokens (.member object m) printable
    rw [Expr.tokens] at read
    rw [Place.expr, Expr.tokens, Place.ofTokens, read]
    simp [Token.parens]

/-- No keyword begins the tokens. -/
def BeginsPlain (tokens : List Token) : Prop :=
  ∃ token behind, tokens = token :: behind ∧ ∀ word, token ≠ .keyword word

theorem Place.beginsPlain (place : Place) (rest : List Token) :
    BeginsPlain (place.expr.tokens ++ rest) := by
  cases place with
  | name x => exact ⟨.name x, rest, rfl, by simp⟩
  | member object m => exact ⟨.mark .lparen, _, rfl, by simp⟩

theorem Callee.beginsPlain (callee : Callee) (args : List Expr) :
    BeginsPlain (callee.applied args).tokens := by
  cases callee with
  | name f => exact ⟨.name f, _, rfl, by simp⟩
  | method object m => exact ⟨.mark .lparen, _, rfl, by simp⟩

/-- A call ends with a parenthesis. -/
theorem Callee.getLast?_applied (callee : Callee) (args : List Expr) :
    (callee.applied args).tokens.getLast? = some (.mark .rparen) := by
  have ends : ∀ front tokens : List Token,
      (front ++ Token.parens tokens).getLast? = some (.mark .rparen) := by
    intro front tokens
    have shape : front ++ Token.parens tokens
        = (front ++ .mark .lparen :: tokens) ++ [.mark .rparen] := by
      simp [Token.parens]
    rw [shape, List.getLast?_concat]
  cases callee with
  | name f => exact ends [.name f] _
  | method object m =>
    have := ends (Token.parens object.tokens ++ [.mark .dot, .name m]) (Expr.listTokens args)
    rwa [List.append_assoc] at this

/-- Where nothing assigns, nothing is split. -/
theorem splitAssignment_eq_none {tokens : List Token} (nested : Nested Token.IsQuiet tokens) :
    Token.splitAssignment 0 tokens = none := by
  have := splitAssignment_nested nested 0 (fun _ _ own => own.2) []
  rwa [List.append_nil] at this

theorem isQuiet_step (delta : Float) : Nested Token.IsQuiet [.mark (stepMark delta)] := by
  unfold stepMark
  split <;> exact .plain ⟨by simp, rfl⟩ rfl .nil

theorem assignment?_assignment {op : BinaryOp}
    (arithmetic : op ∈ [.add, .sub, .mul, .div, .mod]) :
    (Token.mark op.assignment).assignment? = some (some op) := by
  simp only [List.mem_cons, List.not_mem_nil, or_false] at arithmetic
  rcases arithmetic with rfl | rfl | rfl | rfl | rfl <;> rfl

namespace Stmt

variable {refused : Fault}

theorem ofTokens_plain {tokens : List Token} (plain : BeginsPlain tokens) :
    Stmt.ofTokens refused tokens = ofPlainTokens refused tokens := by
  obtain ⟨token, behind, rfl, noKeyword⟩ := plain
  unfold Stmt.ofTokens
  split
  case h_1 h => cases h
  case h_2 h | h_3 h | h_4 h | h_5 h => exact absurd (List.cons.inj h).1 (noKeyword _)
  case h_6 => rfl

/-- The first mark that assigns is the one behind the place. -/
theorem ofTokens_assignment {place : Place} {value : Expr} {assigns : Mark}
    {op : Option BinaryOp} (own : (Token.mark assigns).assignment? = some op)
    (printable : place.expr.Printable sp) (printableValue : value.Printable sp) :
    Stmt.ofTokens refused (place.expr.tokens ++ .mark assigns :: value.tokens)
      = .ok (op.elim (.assign place value) (.compound place · value)) := by
  have split : Token.splitAssignment 0 (place.expr.tokens ++ .mark assigns :: value.tokens)
      = some (place.expr.tokens, op, value.tokens) := by
    rw [splitAssignment_nested place.expr.nested_tokens 0 fun _ _ own => own.2,
      Token.splitAssignment, if_pos rfl, own]
    simp [inFront]
  rw [ofTokens_plain (place.beginsPlain _), ofPlainTokens, split]
  simp only [place.ofTokens_expr printable, Expr.ofTokens_tokens value printableValue]
  cases op <;> rfl

theorem ofTokens_step {place : Place} {delta : Float} (printable : place.expr.Printable sp)
    (unit : delta = 1 ∨ delta = -1) :
    Stmt.ofTokens refused (place.expr.tokens ++ [.mark (stepMark delta)])
      = .ok (.step place delta) := by
  have noAssignment :=
    splitAssignment_eq_none (place.expr.nested_tokens.append (isQuiet_step delta))
  have step : Token.splitStep (place.expr.tokens ++ [.mark (stepMark delta)])
      = some (place.expr.tokens, delta) := by
    rcases unit with rfl | rfl
    · simp [Token.splitStep, stepMark]
    · have : stepMark (-1) = .minusMinus := by decide
      simp [Token.splitStep, this]
  rw [ofTokens_plain (place.beginsPlain _), ofPlainTokens, noAssignment]
  simp only [step, place.ofTokens_expr printable]
  rfl

theorem ofTokens_call {callee : Callee} {args : List Expr}
    (printable : (callee.applied args).Printable sp) :
    Stmt.ofTokens refused (callee.applied args).tokens = .ok (.call callee args) := by
  have noAssignment := splitAssignment_eq_none (callee.applied args).nested_tokens
  have read := Expr.ofTokens_tokens (callee.applied args) printable
  rw [ofTokens_plain (callee.beginsPlain args), ofPlainTokens, noAssignment]
  simp only [Token.splitStep, callee.getLast?_applied, read]
  cases callee <;> rfl

/-- Reading undoes printing of instructions. -/
theorem ofTokens_instructionTokens (s : Stmt) (printable : s.InstructionPrintable sp) :
    Stmt.ofTokens refused s.instructionTokens = .ok s := by
  cases s with
  | assign place value =>
    have own : (Token.mark .eq).assignment? = some none := rfl
    exact ofTokens_assignment own printable.1 printable.2
  | compound place op value =>
    obtain ⟨first, arithmetic, second⟩ := printable
    exact ofTokens_assignment (assignment?_assignment arithmetic) first second
  | step place delta => exact ofTokens_step printable.1 printable.2
  | delete place =>
    rw [instructionTokens, Stmt.ofTokens, place.ofTokens_expr printable]
    rfl
  | make x => rfl
  | call callee args => exact ofTokens_call printable
  | «return» value =>
    cases value with
    | none => rfl
    | some value =>
      obtain ⟨token, rest, eq⟩ := List.exists_cons_of_ne_nil value.tokens_ne_nil
      have read := Expr.ofTokens_tokens value printable
      rw [eq] at read
      rw [instructionTokens, eq, Stmt.ofTokens, read]
      · rfl
      · simp
  | branch | whileLoop | forLoop | countLoop | attempt | thread | define | declareClass
  | invalid => cases printable

-- ================================================================== headers

theorem allInParens?_parens {tokens : List Token} (nested : Nested (fun _ => True) tokens) :
    Token.allInParens? (Token.parens tokens) = some tokens := by
  rw [Token.parens, Token.allInParens?, Expr.inParens?_parens nested]

theorem readCondition_parens {condition : Expr} (printable : condition.Printable sp) :
    readCondition refused (Token.parens condition.tokens) = .ok condition := by
  rw [readCondition, allInParens?_parens condition.nested_tokens.loose]
  exact Expr.ofTokens_tokens condition printable

theorem readParams_listTokens (params : List String) :
    readParams (Expr.listTokens (params.map .name)) = .ok params := by
  cases params with
  | nil => rfl
  | cons x params =>
    have some : (Expr.listTokens ((x :: params).map .name)).isEmpty = false := by
      cases params <;> simp [Expr.listTokens, Expr.tokens]
    rw [readParams, some, if_neg Bool.false_ne_true, List.map_cons,
      Expr.splitCommas_listTokens, ← List.map_cons, List.map_map]
    exact mapM_written fun _ _ => rfl

theorem readCount_parens {x : String} {start stop : Expr} (first : start.Printable sp)
    (second : stop.Printable sp) :
    readCount refused (Token.parens (Expr.listTokens [.name x, start, stop]))
      = .ok (.countLoop x start stop) := by
  rw [readCount, allInParens?_parens (Expr.nested_listTokens _)]
  simp only [Expr.splitCommas_listTokens, List.map_cons, List.map_nil,
    Expr.ofTokens_tokens start first, Expr.ofTokens_tokens stop second]
  rfl

theorem splitParen_name (x : String) (tokens : List Token) :
    splitParen (.name x :: Token.parens tokens) = ([.name x], Token.parens tokens) :=
  rfl

theorem readDefinition_parens (f : String) (params : List String) :
    readDefinition refused (.name f :: Token.parens (Expr.listTokens (params.map .name)))
      = .ok (.define f params) := by
  have inside := allInParens?_parens (Expr.nested_listTokens (params.map .name))
  rw [readDefinition, splitParen_name]
  simp only [Token.parens] at inside ⊢
  rw [inside, Token.soleName]
  simp only [readParams_listTokens]
  rfl

theorem readClass_parens {c : String} {parent : Expr} (printable : parent.Printable sp) :
    readClass refused (.name c :: Token.parens parent.tokens)
      = .ok (.declareClass c (some parent)) := by
  have inside := allInParens?_parens parent.nested_tokens.loose
  rw [readClass, splitParen_name]
  simp only [Token.parens] at inside ⊢
  rw [inside, Token.soleName]
  simp only [Expr.ofTokens_tokens parent printable]
  rfl

/-- Whether something may stand behind the body of a block. -/
def Header.mayGoOn : Header → Prop
  | branch _ | attempt => True
  | _ => False

/-- Reading undoes printing of headers. -/
theorem Header.ofTokens_tokens (header : Header) (printable : header.Printable sp)
    {goesOn : Bool} (may : goesOn = true → header.mayGoOn) :
    Header.ofTokens refused goesOn header.tokens = .ok header := by
  cases header with
  | branch condition =>
    rw [tokens, Header.ofTokens, if_pos rfl, readCondition_parens printable]
    rfl
  | attempt => rfl
  | whileLoop condition =>
    have := Bool.eq_false_iff.2 may
    subst this
    rw [tokens, Header.ofTokens, readCondition_parens printable]
    rfl
  | forLoop count =>
    have := Bool.eq_false_iff.2 may
    subst this
    rw [tokens, Header.ofTokens, readCondition_parens printable]
    rfl
  | countLoop x start stop =>
    have := Bool.eq_false_iff.2 may
    subst this
    rw [tokens, Header.ofTokens, readCount_parens printable.2.1 printable.2.2]
    rfl
  | thread =>
    have := Bool.eq_false_iff.2 may
    subst this
    rfl
  | define f params =>
    have := Bool.eq_false_iff.2 may
    subst this
    rw [tokens, Header.ofTokens, readDefinition_parens]
    rfl
  | declareClass c parent =>
    have := Bool.eq_false_iff.2 may
    subst this
    cases parent with
    | none => rfl
    | some parent =>
      rw [tokens, Header.ofTokens, readClass_parens printable.2]
      rfl

end Stmt

-- ========================================================== texts and fitting

/-- A word that is no keyword scans as a name. -/
theorem reads_name {s : String} (word : Token.IsWord s.toList) (own : Token.ofWord s = .name s) :
    sp.Reads (.name s) := by
  have noMore : ∀ d ∈ ([] : List Char).head?, Text.isWordChar d = false := by
    intro d mem
    cases mem
  have scanned := Token.scan_word word noMore
  rw [List.append_nil, String.ofList_toList, own, Token.scan] at scanned
  exact scanned

/-- The words that blocks are written with. -/
def blockWords : List String :=
  ["if", "elseif", "else", "try", "catch", "while", "for", "count", "thread", "def", "class"]

theorem isWord_of_mem_blockWords {s : String} (mem : s ∈ blockWords) :
    Token.IsWord s.toList ∧ Token.ofWord s = .name s := by
  simp only [blockWords, List.mem_cons, List.not_mem_nil, or_false] at mem
  rcases mem with rfl | rfl | rfl | rfl | rfl | rfl | rfl | rfl | rfl | rfl | rfl <;>
    exact ⟨⟨_, _, rfl, by decide, List.all_eq_true.1 (by decide)⟩, by decide⟩

theorem reads_blockWord {s : String} (mem : s ∈ blockWords) : sp.Reads (.name s) :=
  reads_name (isWord_of_mem_blockWords mem).1 (isWord_of_mem_blockWords mem).2

/-- A place fits what fits behind a name. -/
theorem Place.fit_append (place : Place) {rest : List Token} (fit : Fit rest) :
    Fit (place.expr.tokens ++ rest) := by
  cases place with
  | name x => exact fit_cons_of_isFree rfl fit
  | member object m =>
    rw [Place.expr, Expr.tokens, List.append_assoc]
    refine fit_parens object.fitting_tokens (fit_cons_of_isFree rfl ?_)
    exact fit_cons.2 ⟨rfl, fit_cons_of_isFree rfl fit⟩

/-- A value fits behind an assignment. -/
theorem fit_assignment {assigns : Mark} {op : Option BinaryOp}
    (own : (Token.mark assigns).assignment? = some op) {value : Expr} {rest : List Token}
    (fit : Fit (value.tokens ++ rest)) : Fit (.mark assigns :: (value.tokens ++ rest)) := by
  have first : ∃ token behind, value.tokens = token :: behind ∧
      (Token.mark assigns).fits token = true := by
    cases value with
    | unary op operand =>
      refine ⟨_, _, rfl, ?_⟩
      cases op <;> cases assigns <;> first | rfl | cases own
    | number | string | bool | null | list | name | call | member | methodCall | index | new
    | binary =>
      refine ⟨_, _, rfl, ?_⟩
      cases assigns <;> first | rfl | cases own
  obtain ⟨token, behind, eq, fits⟩ := first
  rw [eq, List.cons_append] at fit ⊢
  exact fit_cons.2 ⟨fits, fit⟩

namespace Stmt

/-- What stands in instructions needs nothing but matching delimiters. -/
theorem nested_instructionTokens (s : Stmt) :
    Nested (fun _ => True) s.instructionTokens := by
  cases s with
  | assign place value =>
    exact place.expr.nested_tokens.loose.append (.plain trivial rfl value.nested_tokens.loose)
  | compound place op value =>
    have plain : (Token.mark op.assignment).isPlain = true := by
      cases op <;> rfl
    exact place.expr.nested_tokens.loose.append (.plain trivial plain value.nested_tokens.loose)
  | step place delta => exact place.expr.nested_tokens.loose.append (isQuiet_step delta).loose
  | delete place => exact .plain trivial rfl place.expr.nested_tokens.loose
  | make x => exact .plain trivial rfl (.plain trivial rfl .nil)
  | call callee args => exact (callee.applied args).nested_tokens.loose
  | «return» value =>
    cases value with
    | none => exact .plain trivial rfl .nil
    | some value => exact .plain trivial rfl value.nested_tokens.loose
  | branch | whileLoop | forLoop | countLoop | attempt | thread | define | declareClass
  | invalid => exact .nil

theorem reads_instructionTokens (s : Stmt) (printable : s.InstructionPrintable sp) :
    ∀ t ∈ s.instructionTokens, sp.Reads t := by
  cases s with
  | assign place value =>
    exact List.forall_mem_append.2 ⟨place.expr.reads_tokens printable.1,
      List.forall_mem_cons.2 ⟨trivial, value.reads_tokens printable.2⟩⟩
  | compound place op value =>
    exact List.forall_mem_append.2 ⟨place.expr.reads_tokens printable.1,
      List.forall_mem_cons.2 ⟨trivial, value.reads_tokens printable.2.2⟩⟩
  | step place delta =>
    exact List.forall_mem_append.2 ⟨place.expr.reads_tokens printable.1,
      List.forall_mem_singleton.2 trivial⟩
  | delete place => exact List.forall_mem_cons.2 ⟨trivial, place.expr.reads_tokens printable⟩
  | make x => exact List.forall_mem_cons.2 ⟨trivial, List.forall_mem_singleton.2 printable.1⟩
  | call callee args => exact (callee.applied args).reads_tokens printable
  | «return» value =>
    cases value with
    | none => exact List.forall_mem_singleton.2 trivial
    | some value => exact List.forall_mem_cons.2 ⟨trivial, value.reads_tokens printable⟩
  | branch | whileLoop | forLoop | countLoop | attempt | thread | define | declareClass
  | invalid => cases printable

theorem fitting_instructionTokens (s : Stmt) : Fitting s.instructionTokens := by
  have assigned : ∀ (place : Place) (value : Expr) {assigns : Mark} {op : Option BinaryOp},
      (Token.mark assigns).assignment? = some op →
        Fitting (place.expr.tokens ++ .mark assigns :: value.tokens) := by
    intro place value assigns op own m rest free fit
    rw [List.append_assoc, List.cons_append]
    exact place.fit_append (fit_assignment own (value.fitting_tokens m rest free fit))
  cases s with
  | assign place value =>
    have own : (Token.mark .eq).assignment? = some none := rfl
    exact assigned place value own
  | compound place op value =>
    have own : ∃ combined, (Token.mark op.assignment).assignment? = some combined := by
      cases op <;> exact ⟨_, rfl⟩
    obtain ⟨_, own⟩ := own
    exact assigned place value own
  | step place delta =>
    intro m rest free fit
    rw [instructionTokens, List.append_assoc]
    refine place.fit_append (fit_cons.2 ⟨?_, fit⟩)
    unfold stepMark
    split <;> cases m <;> first | rfl | cases free
  | delete place => exact fitting_cons rfl place.expr.fitting_tokens
  | make x => exact fitting_cons rfl (fitting_cons rfl fitting_nil)
  | call callee args => exact (callee.applied args).fitting_tokens
  | «return» value =>
    cases value with
    | none => exact fitting_cons rfl fitting_nil
    | some value => exact fitting_cons rfl value.fitting_tokens
  | branch | whileLoop | forLoop | countLoop | attempt | thread | define | declareClass
  | invalid => exact fitting_nil

namespace Header

theorem nested_tokens (header : Header) : Nested (fun _ => True) header.tokens := by
  cases header with
  | branch e | whileLoop e | forLoop e =>
    exact .plain trivial rfl (nested_parens e.nested_tokens)
  | attempt | thread => exact .plain trivial rfl .nil
  | countLoop x start stop =>
    exact .plain trivial rfl (nested_parens (Expr.nested_listTokens [.name x, start, stop]))
  | define f params =>
    exact .plain trivial rfl
      (.plain trivial rfl (nested_parens (Expr.nested_listTokens (params.map .name))))
  | declareClass c parent =>
    cases parent with
    | none => exact .plain trivial rfl (.plain trivial rfl .nil)
    | some parent =>
      exact .plain trivial rfl (.plain trivial rfl (nested_parens parent.nested_tokens))

theorem reads_tokens (header : Header) (printable : header.Printable sp) :
    ∀ t ∈ header.tokens, sp.Reads t := by
  cases header with
  | branch e | whileLoop e | forLoop e =>
    exact List.forall_mem_cons.2
      ⟨reads_blockWord (by decide), reads_parens (e.reads_tokens printable)⟩
  | attempt | thread => exact List.forall_mem_singleton.2 (reads_blockWord (by decide))
  | countLoop x start stop =>
    have items : Expr.ListPrintable sp [.name x, start, stop] :=
      ⟨printable.1, printable.2.1, printable.2.2, trivial⟩
    exact List.forall_mem_cons.2
      ⟨reads_blockWord (by decide), reads_parens (Expr.reads_listTokens _ items)⟩
  | define f params =>
    have items : Expr.ListPrintable sp (params.map .name) := by
      obtain ⟨-, names⟩ := printable
      induction params with
      | nil => trivial
      | cons x params ih =>
        obtain ⟨first, others⟩ := List.forall_mem_cons.1 names
        exact ⟨first, ih others⟩
    exact List.forall_mem_cons.2 ⟨reads_blockWord (by decide),
      List.forall_mem_cons.2 ⟨printable.1.1, reads_parens (Expr.reads_listTokens _ items)⟩⟩
  | declareClass c parent =>
    cases parent with
    | none =>
      exact List.forall_mem_cons.2
        ⟨reads_blockWord (by decide), List.forall_mem_singleton.2 printable.1⟩
    | some parent =>
      exact List.forall_mem_cons.2 ⟨reads_blockWord (by decide),
        List.forall_mem_cons.2 ⟨printable.1.1, reads_parens (parent.reads_tokens printable.2)⟩⟩

theorem fitting_tokens (header : Header) : Fitting header.tokens := by
  cases header with
  | branch e | whileLoop e | forLoop e =>
    exact fitting_cons rfl (fitting_parens e.fitting_tokens)
  | attempt | thread => exact fitting_cons rfl fitting_nil
  | countLoop x start stop =>
    exact fitting_cons rfl (fitting_parens (Expr.fitting_listTokens [.name x, start, stop]))
  | define f params =>
    exact fitting_cons rfl
      (fitting_cons rfl (fitting_parens (Expr.fitting_listTokens (params.map .name))))
  | declareClass c parent =>
    cases parent with
    | none => exact fitting_cons rfl (fitting_cons rfl fitting_nil)
    | some parent =>
      exact fitting_cons rfl (fitting_cons rfl (fitting_parens parent.fitting_tokens))

end Header

-- ============================================================ continuations

/-- Tokens that would continue the block in front of them. -/
def Continues (tokens : List Token) : Prop :=
  ∃ rest, tokens = .name "elseif" :: .mark .lparen :: rest ∨
    tokens = .name "else" :: .mark .lbrace :: rest ∨
    tokens = .name "catch" :: .mark .lbrace :: rest

/-- No expression that can be printed begins like a continued branch. -/
theorem head_ne_elseif {e : Expr} (printable : e.Printable sp) (rest : List Token) :
    ∀ t ∈ (e.tokens ++ rest).head?, t ≠ .name "elseif" := by
  cases e with
  | name x =>
    rintro t ⟨⟩ eq
    exact printable.2 (Token.name.inj eq)
  | call f args =>
    rintro t ⟨⟩ eq
    exact printable.1.2 (Token.name.inj eq)
  | number | string | bool | null | list | member | methodCall | index | new | unary
  | binary => rintro t ⟨⟩ ⟨⟩

/-- An instruction continues nothing. -/
theorem not_continues_instruction (s : Stmt) (printable : s.InstructionPrintable sp)
    (rest : List Token) :
    ¬Continues (s.instructionTokens ++ .mark .semicolon :: rest) := by
  have noElseif : ∀ t ∈ (s.instructionTokens ++ .mark .semicolon :: rest).head?,
      t ≠ .name "elseif" := by
    cases s with
    | assign | compound | step =>
      rw [instructionTokens, List.append_assoc]
      exact head_ne_elseif printable.1 _
    | delete | make => rintro t ⟨⟩ ⟨⟩
    | call callee args => exact head_ne_elseif printable _
    | «return» value => cases value <;> rintro t ⟨⟩ ⟨⟩
    | branch | whileLoop | forLoop | countLoop | attempt | thread | define | declareClass
    | invalid => cases printable
  have inner := (nested_instructionTokens s).isInner
  -- a brace behind the first word would be one of the instruction's own tokens
  have noBrace : ∀ word rest', s.instructionTokens ++ .mark .semicolon :: rest
      ≠ .name word :: .mark .lbrace :: rest' := by
    intro word rest' eq
    rcases tokens : s.instructionTokens with _ | ⟨first, _ | ⟨second, others⟩⟩
    · rw [tokens] at eq
      cases eq
    · rw [tokens] at eq
      cases eq
    · rw [tokens] at eq inner
      cases eq
      exact (inner (.mark .lbrace) (by simp)).1 rfl
  rintro ⟨rest', eq | eq | eq⟩
  · rw [eq] at noElseif
    exact noElseif _ rfl rfl
  · exact noBrace _ _ eq
  · exact noBrace _ _ eq

/-- A header continues nothing. -/
theorem not_continues_header (header : Header) (rest : List Token) :
    ¬Continues (header.tokens ++ .mark .lbrace :: rest) := by
  rintro ⟨rest', eq | eq | eq⟩ <;> revert eq
  all_goals
    cases header with
    | declareClass c parent => cases parent <;> simp [Header.tokens]
    | branch | attempt | whileLoop | forLoop | countLoop | thread | define => simp [Header.tokens]

end Stmt

end RoutineScript
