/-
Cutting a printed program into its statements.

A text is cut before it is scanned, by what stands at its beginning. What a
written text begins with is told by its tokens, since it scans as they are: a
text that begins like the part that continues a block has tokens that do. No
statement has such tokens, so a block ends where its own parts do, and the
segments of a printed body are its statements.
-/
import RoutineScript.Proofs.Printing.Statement

namespace RoutineScript

-- ================================================================ beginnings

theorem standsBefore_of_isFree {m : Mark} (free : (Token.mark m).isFree = true) (d : Char) :
    Token.standsBefore m d = true := by
  cases m <;> first | rfl | cases free

variable {sp : Spelling} {tokens rest : List Token}

theorem chars_span (tokens : List Token) : (sp.span tokens).chars = sp.render tokens := by
  simp [Span.chars, Spelling.span, oneLine, Function.comp_def]

/-- What is written on one line begins on it. -/
theorem firstLine_span (tokens : List Token) : (sp.span tokens).firstLine = 1 := by
  rw [Spelling.span]
  cases sp.render tokens <;> rfl

/-- A word is cut off in front of a mark. -/
theorem span_name_mark (x : String) (m : Mark) (rest : List Token) :
    sp.span (.name x :: .mark m :: rest) = oneLine x.toList ++ sp.span (.mark m :: rest) := by
  rw [Spelling.span, Spelling.render, gap_mark, List.append_nil, oneLine_append]
  rfl

theorem startsWith_span {front : String} (x : String) (m : Mark)
    (shape : front.toList = x.toList ++ m.spelling.toList) (rest : List Token) :
    (sp.span (.name x :: .mark m :: rest)).startsWith front = true := by
  rw [Span.startsWith, chars_span, Spelling.render, gap_mark, List.append_nil, render_mark_cons,
    ← List.append_assoc, List.isPrefixOf_iff_prefix, shape]
  exact List.prefix_append _ _

/-- Tokens with no terminator in front. -/
def NoTerminator (tokens : List Token) : Prop :=
  ∀ rest, tokens ≠ .mark .semicolon :: rest

theorem noTerminator_nil : NoTerminator [] := by
  intro rest same
  cases same

theorem noTerminator_name (x : String) (rest : List Token) : NoTerminator (.name x :: rest) := by
  intro rest' same
  cases same

namespace Whole

theorem tidy (whole : Whole sp tokens) : ∀ t ∈ tokens, sp.tidy.Reads t :=
  fun t mem => reads_tidy (whole.reads t mem)

theorem fit (whole : Whole sp tokens) : Fit tokens := by
  have ended : Fit (tokens ++ [.mark .semicolon]) :=
    whole.fitting _ _ rfl (List.isChain_singleton _)
  exact List.IsChain.left_of_append ended

/-- A part scans as it is written. -/
theorem scan_span (whole : Whole sp tokens) :
    Token.scan (sp.tidy.span tokens).chars = .ok tokens := by
  rw [chars_span]
  exact scan_render whole.tidy whole.fit

theorem span_ne_nil (whole : Whole sp tokens) (some : tokens ≠ []) :
    sp.tidy.span tokens ≠ [] := by
  obtain ⟨token, rest, rfl⟩ := List.exists_cons_of_ne_nil some
  have text : sp.tidy.text token ≠ [] := text_ne_nil (whole.tidy token List.mem_cons_self)
  simp [Spelling.span, Spelling.render, oneLine, text]

/-- A text that begins with a delimiter has tokens that do. -/
theorem exists_of_mark {m : Mark} {behind : List Char} (whole : Whole sp tokens)
    (free : (Token.mark m).isFree = true)
    (begins : sp.tidy.render tokens = m.spelling.toList ++ behind) :
    ∃ rest, tokens = .mark m :: rest := by
  have stands : ∀ d ∈ behind.head?, Token.standsBefore m d = true :=
    fun d _ => standsBefore_of_isFree free d
  have scanned := whole.scan_span
  rw [chars_span, begins, Token.scan_mark stands] at scanned
  cases eq : Token.scan behind with
  | error fault =>
    rw [eq] at scanned
    cases scanned
  | ok rest =>
    rw [eq] at scanned
    exact ⟨rest, (Except.ok.inj scanned).symm⟩

/-- A text that begins with a word and a delimiter has tokens that do. -/
theorem exists_of_startsWith {front : String} (whole : Whole sp tokens) (x : String) (m : Mark)
    (mem : x ∈ blockWords) (free : (Token.mark m).isFree = true)
    (shape : front.toList = x.toList ++ m.spelling.toList)
    (starts : (sp.tidy.span tokens).startsWith front = true) :
    ∃ rest, tokens = .name x :: .mark m :: rest := by
  obtain ⟨word, own⟩ := isWord_of_mem_blockWords mem
  rw [Span.startsWith, chars_span, shape, List.isPrefixOf_iff_prefix] at starts
  obtain ⟨behind, begins⟩ := starts
  have ends : ∀ d ∈ (m.spelling.toList ++ behind).head?, Text.isWordChar d = false := by
    obtain ⟨c, tail, spelled, ownChar⟩ := exists_head_mark m
    rw [spelled]
    intro d mem
    cases mem
    exact (Token.classes_of_isMarkChar ownChar).2.2.1
  have stands : ∀ d ∈ behind.head?, Token.standsBefore m d = true :=
    fun d _ => standsBefore_of_isFree free d
  have scanned := whole.scan_span
  rw [chars_span, ← begins, List.append_assoc, Token.scan_word word ends, Token.scan_mark stands,
    String.ofList_toList, own] at scanned
  cases eq : Token.scan behind with
  | error fault =>
    rw [eq] at scanned
    cases scanned
  | ok rest =>
    rw [eq] at scanned
    exact ⟨rest, (Except.ok.inj scanned).symm⟩

theorem startsWith_eq_false {front : String} (whole : Whole sp tokens) (x : String) (m : Mark)
    (mem : x ∈ blockWords) (free : (Token.mark m).isFree = true)
    (shape : front.toList = x.toList ++ m.spelling.toList)
    (other : ∀ rest, tokens ≠ .name x :: .mark m :: rest) :
    (sp.tidy.span tokens).startsWith front = false := by
  by_cases starts : (sp.tidy.span tokens).startsWith front = true
  · obtain ⟨rest, same⟩ := whole.exists_of_startsWith x m mem free shape starts
    exact absurd same (other rest)
  · exact eq_false_of_ne_true starts

theorem skipTerminators_span (whole : Whole sp tokens) (begins : NoTerminator tokens) :
    (sp.tidy.span tokens).skipTerminators = sp.tidy.span tokens := by
  cases eq : sp.tidy.render tokens with
  | nil =>
    rw [Spelling.span, eq]
    rfl
  | cons c behind =>
    have other : c ≠ ';' := by
      intro terminator
      subst terminator
      have spelled : sp.tidy.render tokens = Mark.semicolon.spelling.toList ++ behind := eq
      obtain ⟨rest, same⟩ := whole.exists_of_mark rfl spelled
      exact begins rest same
    rw [Spelling.span, eq]
    simp [Span.skipTerminators, oneLine, other]

theorem skipTerminators_terminator (whole : Whole sp tokens) (begins : NoTerminator tokens) :
    (sp.tidy.span (.mark .semicolon :: tokens)).skipTerminators = sp.tidy.span tokens := by
  rw [span_mark_cons]
  show Span.skipTerminators (⟨1, ';'⟩ :: sp.tidy.span tokens) = _
  rw [Span.skipTerminators, List.dropWhile_cons_of_pos rfl]
  exact whole.skipTerminators_span begins

end Whole

-- ============================================================= continuations

/-- A text that begins like a part that continues a block has such tokens. -/
theorem Whole.continues {front : String} (whole : Whole sp tokens)
    (mem : front ∈ ["elseif(", "else\x7b", "catch\x7b"])
    (starts : (sp.tidy.span tokens).startsWith front = true) : Stmt.Continues tokens := by
  simp only [List.mem_cons, List.not_mem_nil, or_false] at mem
  rcases mem with rfl | rfl | rfl
  · obtain ⟨rest, same⟩ := whole.exists_of_startsWith "elseif" .lparen (by decide) rfl rfl starts
    exact ⟨rest, .inl same⟩
  · obtain ⟨rest, same⟩ := whole.exists_of_startsWith "else" .lbrace (by decide) rfl rfl starts
    exact ⟨rest, .inr (.inl same)⟩
  · obtain ⟨rest, same⟩ := whole.exists_of_startsWith "catch" .lbrace (by decide) rfl rfl starts
    exact ⟨rest, .inr (.inr same)⟩

/-- Behind its terminator a block does not go on. -/
theorem continuation?_terminator (whole : Whole sp rest) (begins : NoTerminator rest)
    (other : ¬Stmt.Continues rest) :
    (sp.tidy.span (.mark .semicolon :: rest)).continuation? = none := by
  have no : ∀ front ∈ ["elseif(", "else\x7b", "catch\x7b"],
      (sp.tidy.span rest).startsWith front = false := by
    intro front mem
    by_cases starts : (sp.tidy.span rest).startsWith front = true
    · exact absurd (whole.continues mem starts) other
    · exact eq_false_of_ne_true starts
  simp only [Span.continuation?, whole.skipTerminators_terminator begins]
  rw [no _ (by simp), no _ (by simp), no _ (by simp)]
  rfl

namespace Stmt

theorem noTerminator_armHeader (condition : Option Expr) (rest : List Token) :
    NoTerminator (armHeader condition ++ rest) := by
  cases condition with
  | none => exact noTerminator_name "else" rest
  | some e => exact noTerminator_name "elseif" _

/-- A part that continues a block starts with its word, and not with the
word of a sort that is tried before it. -/
theorem startsWith_elseif_armHeader {condition : Option Expr} {body : List Token}
    (whole : Whole sp (Token.block (armHeader condition) body rest)) :
    (sp.tidy.span (Token.block (armHeader condition) body rest)).startsWith "elseif("
      = condition.isSome := by
  cases condition with
  | none =>
    exact whole.startsWith_eq_false "elseif" .lparen (by decide)
      rfl rfl (by simp [Token.block, armHeader])
  | some e =>
    exact startsWith_span "elseif" .lparen rfl _

/-- What a body is followed by that has one word in front. -/
theorem enclosed?_drop_word (x : String) {body : List Token} (wholeBody : Whole sp body) :
    (Span.enclosed? ((sp.tidy.span (Token.block [.name x] body rest)).drop x.toList.length)).map
        Prod.snd = some (sp.tidy.span rest) := by
  have behind : (sp.tidy.span (Token.block [.name x] body rest)).drop x.toList.length
      = sp.tidy.span (.mark .lbrace :: (body ++ .mark .rbrace :: rest)) := by
    show (sp.tidy.span (.name x :: .mark .lbrace :: (body ++ .mark .rbrace :: rest))).drop _ = _
    rw [span_name_mark, List.drop_left' (by rw [oneLine, List.length_map])]
  rw [behind, enclosed?_braces (wholeBody.walks 0) wholeBody.tidy]
  rfl

/-- An arm continues what stands in front of it, up to its end. -/
theorem continuation?_arm {condition : Option Expr} {body : List Token}
    (printable : ConditionPrintable sp condition) (wholeBody : Whole sp body)
    (wholeRest : Whole sp rest) :
    (sp.tidy.span (Token.block (armHeader condition) body rest)).continuation?
      = some (sp.tidy.span rest) := by
  have whole : Whole sp (Token.block (armHeader condition) body rest) :=
    whole_block (whole_armHeader printable) wholeBody wholeRest
  have begins : NoTerminator (Token.block (armHeader condition) body rest) :=
    noTerminator_armHeader condition _
  simp only [Span.continuation?, whole.skipTerminators_span begins]
  rw [startsWith_elseif_armHeader whole]
  cases condition with
  | none =>
    rw [Option.isSome_none, if_neg Bool.false_ne_true, if_pos]
    · exact enclosed?_drop_word "else" wholeBody
    · exact startsWith_span "else" .lbrace rfl _
  | some e =>
    have found : (sp.tidy.span (Token.block (armHeader (some e)) body rest)).splitUnquoted '{'
        = some (sp.tidy.span (armHeader (some e)),
            sp.tidy.span (.mark .lbrace :: (body ++ .mark .rbrace :: rest))) := by
      rw [splitUnquoted_eq]
      exact cut_before (walks_nested (nested_armHeader (some e)) (whole_armHeader printable).tidy 0)
        (whole_armHeader printable).tidy rfl rfl
    rw [Option.isSome_some, if_pos rfl, found]
    show (Span.enclosed? _).map Prod.snd = _
    rw [enclosed?_braces (wholeBody.walks 0) wholeBody.tidy]
    rfl

/-- A handler continues what stands in front of it, up to its end. -/
theorem continuation?_catch {body : List Token} (wholeBody : Whole sp body)
    (wholeRest : Whole sp rest) :
    (sp.tidy.span (Token.block [.name "catch"] body rest)).continuation?
      = some (sp.tidy.span rest) := by
  have whole : Whole sp (Token.block [.name "catch"] body rest) :=
    whole_block whole_catch wholeBody wholeRest
  have begins : NoTerminator (Token.block [.name "catch"] body rest) :=
    noTerminator_name "catch" _
  have noElseif : (sp.tidy.span (Token.block [.name "catch"] body rest)).startsWith "elseif("
      = false :=
    whole.startsWith_eq_false "elseif" .lparen (by decide) rfl
      rfl (by simp [Token.block])
  have noElse : (sp.tidy.span (Token.block [.name "catch"] body rest)).startsWith "else\x7b"
      = false :=
    whole.startsWith_eq_false "else" .lbrace (by decide) rfl
      rfl (by simp [Token.block])
  simp only [Span.continuation?, whole.skipTerminators_span begins]
  rw [noElseif, noElse, if_neg Bool.false_ne_true, if_neg Bool.false_ne_true, if_pos]
  · exact enclosed?_drop_word "catch" wholeBody
  · exact startsWith_span "catch" .lbrace rfl _

/-- The parts that continue a block. -/
inductive Trailing (sp : Spelling) : List Token → Prop where
  | nil : Trailing sp []
  | arm {condition : Option Expr} {body rest : List Token}
      (printable : ConditionPrintable sp condition) (inner : Whole sp body)
      (behind : Trailing sp rest) : Trailing sp (Token.block (armHeader condition) body rest)
  | handler {body : List Token} (inner : Whole sp body) :
    Trailing sp (Token.block [.name "catch"] body [])

theorem Trailing.whole {tokens : List Token} (trailing : Trailing sp tokens) :
    Whole sp tokens := by
  induction trailing with
  | nil => exact whole_nil
  | arm printable inner _ ih => exact whole_block (whole_armHeader printable) inner ih
  | handler inner => exact whole_block whole_catch inner whole_nil

theorem Trailing.noTerminator {tokens : List Token} (trailing : Trailing sp tokens) :
    NoTerminator tokens := by
  cases trailing with
  | nil => exact noTerminator_nil
  | @arm condition => exact noTerminator_armHeader condition _
  | handler => exact noTerminator_name "catch" _

theorem afterContinuations_of_none {span : Span} (none : span.continuation? = none) :
    span.afterContinuations = span := by
  rw [Span.afterContinuations]
  split
  · rfl
  · rename_i some
    rw [none] at some
    cases some

theorem afterContinuations_of_some {span behind : Span}
    (goesOn : span.continuation? = some behind) :
    span.afterContinuations = behind.afterContinuations := by
  rw [Span.afterContinuations]
  split
  · rename_i none
    rw [goesOn] at none
    cases none
  · rename_i some
    rw [goesOn] at some
    cases some
    rfl

theorem block_append (header body behind rest : List Token) :
    Token.block header body behind ++ rest = Token.block header body (behind ++ rest) := by
  simp [Token.block]

/-- A block ends at its terminator, behind the parts that continue it. -/
theorem afterContinuations_trailing {tokens : List Token} (trailing : Trailing sp tokens)
    (whole : Whole sp rest) (begins : NoTerminator rest) (other : ¬Continues rest) :
    (sp.tidy.span (tokens ++ .mark .semicolon :: rest)).afterContinuations
      = sp.tidy.span (.mark .semicolon :: rest) := by
  induction trailing with
  | nil => exact afterContinuations_of_none (continuation?_terminator whole begins other)
  | arm printable inner behind ih =>
    have goesOn := continuation?_arm printable inner (whole_terminated behind.whole whole)
    rw [block_append, afterContinuations_of_some goesOn, ih]
  | handler inner =>
    have goesOn := continuation?_catch inner (whole_terminated whole_nil whole)
    rw [block_append, afterContinuations_of_some goesOn]
    exact afterContinuations_of_none (continuation?_terminator whole begins other)

theorem trailing_armsTokens (arms : List (Option Expr × List (Located Stmt)))
    (printable : ArmsPrintable sp arms) : Trailing sp (armsTokens arms) := by
  induction arms with
  | nil => exact .nil
  | cons arm arms ih =>
    obtain ⟨_ | condition, body⟩ := arm
    · exact .arm conditionPrintable_none (whole_blockTokens body printable.1) (ih printable.2)
    · exact .arm (conditionPrintable_some printable.1) (whole_blockTokens body printable.2.1)
        (ih printable.2.2)

-- ================================================================ statements

/-- A statement that can be printed is an instruction, or a header with a
body and what continues it. -/
theorem tokens_cases (s : Stmt) (printable : s.Printable sp) :
    (s.form = .instruction ∧ s.tokens = s.instructionTokens ∧ s.InstructionPrintable sp) ∨
      ∃ header body behind, s.form = .block ∧ s.tokens = Token.block header.tokens body behind ∧
        Header.Printable sp header ∧ Whole sp body ∧ Trailing sp behind := by
  cases s with
  | assign | compound | step | delete | make | call | «return» =>
    exact .inl ⟨rfl, rfl, printable⟩
  | invalid => cases printable
  | branch arms =>
    rcases arms with _ | ⟨⟨_ | condition, body⟩, arms⟩
    · cases printable
    · cases printable
    · exact .inr ⟨.branch condition, _, _, rfl, rfl, printable.1,
        whole_blockTokens body printable.2.1, trailing_armsTokens arms printable.2.2⟩
  | whileLoop condition body =>
    exact .inr ⟨.whileLoop condition, _, _, rfl, rfl, printable.1,
      whole_blockTokens body printable.2, .nil⟩
  | forLoop count body =>
    exact .inr ⟨.forLoop count, _, _, rfl, rfl, printable.1,
      whole_blockTokens body printable.2, .nil⟩
  | countLoop x start stop body =>
    exact .inr ⟨.countLoop x start stop, _, _, rfl, rfl, printable.1,
      whole_blockTokens body printable.2, .nil⟩
  | attempt body handler =>
    cases handler with
    | none =>
      exact .inr ⟨.attempt, _, _, rfl, rfl, trivial, whole_blockTokens body printable, .nil⟩
    | some handler =>
      exact .inr ⟨.attempt, _, _, rfl, rfl, trivial, whole_blockTokens body printable.1,
        .handler (whole_blockTokens handler printable.2)⟩
  | thread body =>
    exact .inr ⟨.thread, _, _, rfl, rfl, trivial, whole_blockTokens body printable, .nil⟩
  | define f params body =>
    exact .inr ⟨.define f params, _, _, rfl, rfl, printable.1,
      whole_blockTokens body printable.2, .nil⟩
  | declareClass c parent body =>
    exact .inr ⟨.declareClass c parent, _, _, rfl, rfl, printable.1,
      whole_blockTokens body printable.2, .nil⟩

theorem Header.exists_name (header : Header) :
    ∃ word behind, header.tokens = .name word :: behind := by
  cases header with
  | declareClass c parent => cases parent <;> exact ⟨_, _, rfl⟩
  | branch | attempt | whileLoop | forLoop | countLoop | thread | define => exact ⟨_, _, rfl⟩

theorem instructionTokens_ne_nil (s : Stmt) (printable : s.InstructionPrintable sp) :
    s.instructionTokens ≠ [] := by
  intro empty
  have read : Stmt.ofTokens (Cause.notAnInstruction "") s.instructionTokens = .ok s :=
    ofTokens_instructionTokens s printable
  rw [empty] at read
  cases read

/-- No terminator stands in front of a statement. -/
theorem noTerminator_tokens (s : Stmt) (printable : s.Printable sp) (rest : List Token) :
    NoTerminator (s.tokens ++ rest) := by
  intro rest' same
  obtain ⟨-, own, plain⟩ | ⟨header, body, behind, -, own, -⟩ := tokens_cases s printable
  · rw [own] at same
    obtain ⟨first, others, shape⟩ := List.exists_cons_of_ne_nil (instructionTokens_ne_nil s plain)
    have inner := (nested_instructionTokens s).isInner first (shape ▸ List.mem_cons_self)
    rw [shape] at same
    cases same
    exact inner.2.2 rfl
  · obtain ⟨word, others, shape⟩ := header.exists_name
    rw [own, Token.block, shape] at same
    cases same

/-- A statement does not continue the one in front of it. -/
theorem not_continues_tokens (s : Stmt) (printable : s.Printable sp) (rest : List Token) :
    ¬Continues (s.tokens ++ .mark .semicolon :: rest) := by
  obtain ⟨-, own, plain⟩ | ⟨header, body, behind, -, own, -⟩ := tokens_cases s printable
  · rw [own]
    exact not_continues_instruction s plain rest
  · rw [own, block_append, Token.block]
    exact not_continues_header header _

theorem noTerminator_blockTokens (block : List (Located Stmt))
    (printable : BlockPrintable sp block) : NoTerminator (blockTokens block) := by
  cases block with
  | nil => exact noTerminator_nil
  | cons s block => exact noTerminator_tokens s.val printable.1 _

theorem not_continues_blockTokens (block : List (Located Stmt))
    (printable : BlockPrintable sp block) : ¬Continues (blockTokens block) := by
  cases block with
  | nil =>
    intro continues
    obtain ⟨rest, same | same | same⟩ := continues <;> cases same
  | cons s block => exact not_continues_tokens s.val printable.1 _

-- ================================================================== segments

/-- The first statement of a printed body is cut off at its terminator. -/
theorem firstStatement_tokens (s : Stmt) (printable : s.Printable sp) (whole : Whole sp rest)
    (begins : NoTerminator rest) (other : ¬Continues rest) :
    Span.firstStatement (sp.tidy.span (s.tokens ++ .mark .semicolon :: rest))
      = ⟨s.form, sp.tidy.span s.tokens, sp.tidy.span (.mark .semicolon :: rest)⟩ := by
  have wholeTokens : Whole sp s.tokens := whole_tokens s printable
  obtain ⟨form, own, plain⟩ | ⟨header, body, behind, form, own, headed, inner, trailing⟩ :=
    tokens_cases s printable
  · have nested : Nested (fun _ => True) s.tokens := own ▸ nested_instructionTokens s
    have boundary : Span.splitBoundary (sp.tidy.span (s.tokens ++ .mark .semicolon :: rest))
        = some (sp.tidy.span s.tokens, sp.tidy.span (.mark .semicolon :: rest)) := by
      rw [splitBoundary_eq]
      exact cut_before (walks_nested nested wholeTokens.tidy 0) wholeTokens.tidy rfl rfl
    rw [Span.firstStatement, boundary, form, span_mark_cons]
    rfl
  · have wholeHeader : Whole sp header.tokens := whole_header header headed
    have shape : s.tokens ++ .mark .semicolon :: rest = header.tokens ++ .mark .lbrace ::
        (body ++ .mark .rbrace :: (behind ++ .mark .semicolon :: rest)) := by
      rw [own, block_append, Token.block]
    have boundary : Span.splitBoundary (sp.tidy.span (s.tokens ++ .mark .semicolon :: rest))
        = some (sp.tidy.span header.tokens, sp.tidy.span (.mark .lbrace ::
            (body ++ .mark .rbrace :: (behind ++ .mark .semicolon :: rest)))) := by
      rw [splitBoundary_eq, shape]
      exact cut_before (walks_nested header.nested_tokens wholeHeader.tidy 0) wholeHeader.tidy
        rfl rfl
    have enclosed : Span.enclosed? (sp.tidy.span (.mark .lbrace ::
        (body ++ .mark .rbrace :: (behind ++ .mark .semicolon :: rest))))
        = some (sp.tidy.span body, sp.tidy.span (behind ++ .mark .semicolon :: rest)) :=
      enclosed?_braces (inner.walks 0) inner.tidy
    have opens : (sp.tidy.span (.mark .lbrace ::
        (body ++ .mark .rbrace :: (behind ++ .mark .semicolon :: rest)))).head?.any
        (·.val == '{') = true := by
      rw [span_mark_cons]
      rfl
    rw [Span.firstStatement, boundary]
    simp only [opens, enclosed, if_true]
    rw [afterContinuations_trailing trailing whole begins other, span_append_mark wholeTokens.tidy,
      Span.upTo_append, form]

theorem exists_segments (offset : Nat) {span : Span} (some : span.skipTerminators ≠ []) :
    ∃ begins, span.segments offset =
      ⟨(Span.firstStatement span.skipTerminators).form, begins,
        (Span.firstStatement span.skipTerminators).span⟩ ::
      Span.segments (begins + (Span.firstStatement span.skipTerminators).span.bytes)
        (Span.firstStatement span.skipTerminators).rest := by
  rw [Span.segments]
  split
  · rename_i none
    exact absurd none some
  · rename_i c tail first
    rw [first]
    exact ⟨_, rfl⟩

theorem segments_eq_nil {offset : Nat} {span : Span} (none : span.skipTerminators = []) :
    span.segments offset = [] := by
  rw [Span.segments]
  split
  · rfl
  · rename_i some
    rw [none] at some
    cases some

/-- The segments of a printed body are its statements. -/
theorem segments_blockTokens (block : List (Located Stmt)) (printable : BlockPrintable sp block)
    (offset : Nat) {span : Span}
    (same : span.skipTerminators = sp.tidy.span (blockTokens block)) :
    (span.segments offset).map (fun segment => (segment.form, segment.span))
      = block.map fun s => (s.val.form, sp.tidy.span s.val.tokens) := by
  induction block generalizing offset span with
  | nil =>
    rw [segments_eq_nil same]
    rfl
  | cons s block ih =>
    have whole := whole_blockTokens block printable.2
    have begins := noTerminator_blockTokens block printable.2
    have first := firstStatement_tokens s.val printable.1 whole begins
      (not_continues_blockTokens block printable.2)
    have some : span.skipTerminators ≠ [] := by
      rw [same]
      exact (whole_blockTokens (s :: block) printable).span_ne_nil (by simp [blockTokens])
    obtain ⟨offset', segmented⟩ := exists_segments offset some
    rw [same, blockTokens, first] at segmented
    rw [segmented, List.map_cons, List.map_cons,
      ih printable.2 _ (whole.skipTerminators_terminator begins)]

end Stmt

end RoutineScript
