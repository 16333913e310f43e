/-
Reading a printed program.

A printed body is cut into the texts of its statements, and each of them is
read as the statement it was printed from. The induction is on the program:
what is read within the braces of a block is a smaller printed body.
-/
import RoutineScript.Proofs.Printing.Segmenting

namespace RoutineScript

namespace Stmt

variable {sp : Spelling}

-- ==================================================================== parts

/-- Reads a statement of one of the two forms. -/
def readForm : Segment.Form → Span → Except Fault Stmt
  | .instruction => readInstruction
  | .block => readCompound

/-- What a segment is read as, on the line where it begins. -/
def readPart (part : Segment.Form × Span) : Located Stmt :=
  match readForm part.1 part.2 with
  | .ok s => ⟨part.2.firstLine, s⟩
  | .error fault => ⟨part.2.firstLine, .invalid (fault.atLine part.2.firstLine)⟩

theorem readPart_of_ok {form : Segment.Form} {span : Span} {s : Stmt}
    (read : readForm form span = .ok s) : readPart (form, span) = ⟨span.firstLine, s⟩ := by
  rw [readPart, read]

/-- A body is read segment by segment. -/
theorem readBlock_eq (span : Span) :
    readBlock span
      = ((span.segments 0).map fun segment => (segment.form, segment.span)).map readPart := by
  rw [readBlock, List.map_map]
  conv_rhs => rw [← List.attach_map_subtype_val (span.segments 0), List.map_map]
  refine List.map_congr_left fun segment _ => ?_
  obtain ⟨⟨form, offset, part⟩, mem⟩ := segment
  cases form <;> rfl

-- ===================================================================== cuts

theorem cut?_block {flat : Token → Prop} {header body rest : List Token}
    (nested : Nested flat header) (wholeHeader : Whole sp header) (wholeBody : Whole sp body)
    (wholeRest : Whole sp rest) (begins : NoTerminator rest) :
    cut? (sp.tidy.span (Token.block header body rest))
      = some ⟨sp.tidy.span header, sp.tidy.span body, sp.tidy.span rest⟩ := by
  have found : Span.splitUnquoted '{' (sp.tidy.span (Token.block header body rest))
      = some (sp.tidy.span header,
          sp.tidy.span (.mark .lbrace :: (body ++ .mark .rbrace :: rest))) := by
    rw [splitUnquoted_eq, Token.block]
    exact cut_before (walks_nested nested wholeHeader.tidy 0) wholeHeader.tidy rfl rfl
  simp only [cut?, found, Option.bind_some, Option.map_some,
    enclosed?_braces (wholeBody.walks 0) wholeBody.tidy, wholeRest.skipTerminators_span begins]

variable {span header body : Span} {tokens : List Token}

/-- A block that nothing follows is its header with its body. -/
theorem readCompound_withBody {own : Header} (cut : cut? span = some ⟨header, body, []⟩)
    (scanned : Token.scan header.chars = .ok tokens)
    (headed : ∀ refused, Header.ofTokens refused false tokens = .ok own) :
    readCompound span = .ok (own.withBody (readBlock body)) := by
  rw [readCompound_of_cut cut]
  simp only [scanned, List.isEmpty_nil, Bool.not_true, headed]
  rfl

/-- A branch is read with the arms that follow it. -/
theorem readCompound_branch {condition : Expr} {rest : Span} {arms : List (Option Expr × Block)}
    (cut : cut? span = some ⟨header, body, rest⟩)
    (scanned : Token.scan header.chars = .ok tokens)
    (headed : ∀ refused, Header.ofTokens refused true tokens = .ok (.branch condition))
    (follows : rest ≠ []) (read : ∀ refused, readArms refused rest = .ok arms) :
    readCompound span = .ok (.branch ((some condition, readBlock body) :: arms)) := by
  obtain ⟨c, behind, rfl⟩ := List.exists_cons_of_ne_nil follows
  rw [readCompound_of_cut cut]
  simp only [scanned, List.isEmpty_cons, Bool.not_false, headed, read]
  rfl

/-- An attempt is read with the handler that follows it. -/
theorem readCompound_attempt {rest : Span} {handler : Block}
    (cut : cut? span = some ⟨header, body, rest⟩)
    (scanned : Token.scan header.chars = .ok tokens)
    (headed : ∀ refused, Header.ofTokens refused true tokens = .ok .attempt)
    (follows : rest ≠ []) (read : ∀ refused, readHandler refused rest = .ok handler) :
    readCompound span = .ok (.attempt (readBlock body) (some handler)) := by
  obtain ⟨c, behind, rfl⟩ := List.exists_cons_of_ne_nil follows
  rw [readCompound_of_cut cut]
  simp only [scanned, List.isEmpty_cons, Bool.not_false, headed, read]
  rfl

-- ==================================================================== arms

theorem readArms_nil (refused : Fault) : readArms refused [] = .ok [] := by
  rw [readArms]
  rfl

theorem readArms_cons {refused : Fault} {rest : Span} {condition : Option Expr}
    {arms : List (Option Expr × Block)} (cut : cut? span = some ⟨header, body, rest⟩)
    (some : span ≠ [])
    (conditioned : readArmCondition refused span header = .ok condition)
    (read : readArms refused rest = .ok arms) :
    readArms refused span = .ok ((condition, readBlock body) :: arms) := by
  rw [readArms_of_cut some cut, conditioned]
  simp only [read]
  rfl

/-- An arm's condition is told by its first word. -/
theorem readArmCondition_armHeader {refused : Fault} {condition : Option Expr}
    {inside rest : List Token} (printable : ConditionPrintable sp condition)
    (whole : Whole sp (Token.block (armHeader condition) inside rest)) :
    readArmCondition refused (sp.tidy.span (Token.block (armHeader condition) inside rest))
      (sp.tidy.span (armHeader condition)) = .ok condition := by
  rw [readArmCondition, startsWith_elseif_armHeader whole]
  cases condition with
  | none =>
    rw [Option.isSome_none, if_neg Bool.false_ne_true, if_pos]
    exact startsWith_span "else" .lbrace rfl _
  | some e =>
    rw [Option.isSome_some, if_pos rfl, (whole_armHeader printable).scan_span]
    show (readCondition refused (Token.parens e.tokens)).map some = _
    rw [readCondition_parens (printable e rfl)]
    rfl

theorem readHandler_catch {refused : Fault} {inside : List Token} (whole : Whole sp inside) :
    readHandler refused (sp.tidy.span (Token.block [.name "catch"] inside []))
      = .ok (readBlock (sp.tidy.span inside)) := by
  have nested : Nested (fun _ => True) [.name "catch"] := .plain trivial rfl .nil
  have cut := cut?_block nested whole_catch whole whole_nil noTerminator_nil
  have starts : (sp.tidy.span (Token.block [.name "catch"] inside [])).startsWith "catch\x7b"
      = true :=
    startsWith_span "catch" .lbrace rfl _
  rw [readHandler_eq, cut]
  dsimp only
  rw [starts]
  rfl

-- ============================================================== the induction

/-- A printed body is read as its statements, when each of them is. -/
theorem readBlock_of_parts {block : Block} (printable : BlockPrintable sp block)
    (parts : (block.map fun s => readPart (s.val.form, sp.tidy.span s.val.tokens))
      = blockOnLine 1 block) :
    readBlock (sp.tidy.span (blockTokens block)) = blockOnLine 1 block := by
  have whole := whole_blockTokens block printable
  have same := whole.skipTerminators_span (noTerminator_blockTokens block printable)
  rw [readBlock_eq, segments_blockTokens block printable 0 same, List.map_map]
  exact parts

/-- A header with a printed body, and nothing that continues it. -/
theorem readCompound_header (own : Header) (printable : own.Printable sp) {block : Block}
    (inner : BlockPrintable sp block)
    (parts : (block.map fun s => readPart (s.val.form, sp.tidy.span s.val.tokens))
      = blockOnLine 1 block) :
    readCompound (sp.tidy.span (Token.block own.tokens (blockTokens block) []))
      = .ok (own.withBody (blockOnLine 1 block)) := by
  have wholeHeader := whole_header own printable
  have cut := cut?_block own.nested_tokens wholeHeader (whole_blockTokens block inner) whole_nil
    noTerminator_nil
  rw [readCompound_withBody cut wholeHeader.scan_span, readBlock_of_parts inner parts]
  intro refused
  exact own.ofTokens_tokens printable fun goesOn => absurd goesOn Bool.false_ne_true

/-- A branch with its arms. -/
theorem readCompound_arms {condition : Expr} {block : Block}
    {arms : List (Option Expr × Block)} (printable : condition.Printable sp)
    (inner : BlockPrintable sp block) (printableArms : ArmsPrintable sp arms)
    (parts : (block.map fun s => readPart (s.val.form, sp.tidy.span s.val.tokens))
      = blockOnLine 1 block)
    (read : ∀ refused, readArms refused (sp.tidy.span (armsTokens arms))
      = .ok (armsOnLine 1 arms)) :
    readCompound (sp.tidy.span
        (Token.block (Header.branch condition).tokens (blockTokens block) (armsTokens arms)))
      = .ok (.branch ((some condition, blockOnLine 1 block) :: armsOnLine 1 arms)) := by
  cases arms with
  | nil => exact readCompound_header (.branch condition) printable inner parts
  | cons arm arms =>
    have trailing := trailing_armsTokens (arm :: arms) printableArms
    have wholeHeader := whole_header (.branch condition) printable
    have cut := cut?_block (Header.branch condition).nested_tokens wholeHeader
      (whole_blockTokens block inner) trailing.whole trailing.noTerminator
    have follows : sp.tidy.span (armsTokens (arm :: arms)) ≠ [] :=
      trailing.whole.span_ne_nil (by simp [armsTokens, Token.block])
    rw [readCompound_branch cut wholeHeader.scan_span _ follows read,
      readBlock_of_parts inner parts]
    intro refused
    exact (Header.branch condition).ofTokens_tokens printable fun _ => trivial

/-- An arm of a branch, with the arms behind it. -/
theorem readArms_arm {refused : Fault} {condition : Option Expr} {block : Block}
    {arms : List (Option Expr × Block)} (printable : ConditionPrintable sp condition)
    (inner : BlockPrintable sp block) (printableArms : ArmsPrintable sp arms)
    (parts : (block.map fun s => readPart (s.val.form, sp.tidy.span s.val.tokens))
      = blockOnLine 1 block)
    (read : readArms refused (sp.tidy.span (armsTokens arms)) = .ok (armsOnLine 1 arms)) :
    readArms refused (sp.tidy.span
        (Token.block (armHeader condition) (blockTokens block) (armsTokens arms)))
      = .ok ((condition, blockOnLine 1 block) :: armsOnLine 1 arms) := by
  have trailing := trailing_armsTokens arms printableArms
  have wholeHeader := whole_armHeader printable
  have wholeBody := whole_blockTokens block inner
  have whole := whole_block wholeHeader wholeBody trailing.whole
  have cut := cut?_block (nested_armHeader condition) wholeHeader wholeBody trailing.whole
    trailing.noTerminator
  rw [readArms_cons cut (whole.span_ne_nil (by simp [Token.block]))
    (readArmCondition_armHeader printable whole) read, readBlock_of_parts inner parts]

/-- An attempt with its handler. -/
theorem readCompound_handler {block handler : Block} (inner : BlockPrintable sp block)
    (printable : BlockPrintable sp handler)
    (parts : (block.map fun s => readPart (s.val.form, sp.tidy.span s.val.tokens))
      = blockOnLine 1 block)
    (handlerParts : (handler.map fun s => readPart (s.val.form, sp.tidy.span s.val.tokens))
      = blockOnLine 1 handler) :
    readCompound (sp.tidy.span (Token.block Header.attempt.tokens (blockTokens block)
        (Token.block [.name "catch"] (blockTokens handler) [])))
      = .ok (.attempt (blockOnLine 1 block) (some (blockOnLine 1 handler))) := by
  have attempt : Header.attempt.Printable sp := trivial
  have wholeHeader := whole_header .attempt attempt
  have wholeHandler := whole_blockTokens handler printable
  have wholeCatch : Whole sp (Token.block [.name "catch"] (blockTokens handler) []) :=
    whole_block whole_catch wholeHandler whole_nil
  have cut := cut?_block Header.attempt.nested_tokens wholeHeader (whole_blockTokens block inner)
    wholeCatch (noTerminator_name "catch" _)
  have read : ∀ refused, readHandler refused (sp.tidy.span
      (Token.block [.name "catch"] (blockTokens handler) [])) = .ok (blockOnLine 1 handler) := by
    intro refused
    rw [readHandler_catch wholeHandler, readBlock_of_parts printable handlerParts]
  rw [readCompound_attempt cut wholeHeader.scan_span _
    (wholeCatch.span_ne_nil (by simp [Token.block])) read, readBlock_of_parts inner parts]
  intro refused
  exact Header.attempt.ofTokens_tokens attempt fun _ => trivial

theorem readInstruction_span (s : Stmt) (printable : s.InstructionPrintable sp) :
    readInstruction (sp.tidy.span s.instructionTokens) = .ok s := by
  rw [readInstruction, (whole_instruction s printable).scan_span]
  exact ofTokens_instructionTokens s printable

mutual

/-- A printed statement is read as the statement, on one line. -/
theorem readForm_tokens :
    ∀ s : Stmt, s.Printable sp → readForm s.form (sp.tidy.span s.tokens) = .ok (s.onLine 1)
  | branch ((some _, body) :: arms), h =>
    readCompound_arms h.1 h.2.1 h.2.2 (readPart_tokens body h.2.1) (readArms_armsTokens arms h.2.2)
  | branch ((none, _) :: _), h => h.elim
  | branch [], h => h.elim
  | whileLoop condition body, h =>
    readCompound_header (.whileLoop condition) h.1 h.2 (readPart_tokens body h.2)
  | forLoop count body, h =>
    readCompound_header (.forLoop count) h.1 h.2 (readPart_tokens body h.2)
  | countLoop x start stop body, h =>
    readCompound_header (.countLoop x start stop) h.1 h.2 (readPart_tokens body h.2)
  | attempt body none, h =>
    readCompound_header .attempt trivial h (readPart_tokens body h)
  | attempt body (some handler), h =>
    readCompound_handler h.1 h.2 (readPart_tokens body h.1) (readPart_tokens handler h.2)
  | thread body, h => readCompound_header .thread trivial h (readPart_tokens body h)
  | define f params body, h =>
    readCompound_header (.define f params) h.1 h.2 (readPart_tokens body h.2)
  | declareClass c parent body, h =>
    readCompound_header (.declareClass c parent) h.1 h.2 (readPart_tokens body h.2)
  | assign place value, h => readInstruction_span (.assign place value) h
  | compound place op value, h => readInstruction_span (.compound place op value) h
  | step place delta, h => readInstruction_span (.step place delta) h
  | delete place, h => readInstruction_span (.delete place) h
  | make x, h => readInstruction_span (.make x) h
  | call callee args, h => readInstruction_span (.call callee args) h
  | .return value, h => readInstruction_span (.return value) h
  | invalid _, h => h.elim

/-- So is each statement of a body. -/
theorem readPart_tokens :
    ∀ block : List (Located Stmt), BlockPrintable sp block →
      (block.map fun s => readPart (s.val.form, sp.tidy.span s.val.tokens)) = blockOnLine 1 block
  | [], _ => rfl
  | ⟨_, s⟩ :: rest, h => by
    have first := readPart_of_ok (readForm_tokens s h.1)
    rw [firstLine_span] at first
    rw [List.map_cons, first, readPart_tokens rest h.2]
    rfl

/-- So are the arms of a branch. -/
theorem readArms_armsTokens :
    ∀ arms : List (Option Expr × List (Located Stmt)), ArmsPrintable sp arms →
      ∀ refused, readArms refused (sp.tidy.span (armsTokens arms)) = .ok (armsOnLine 1 arms)
  | [], _ => readArms_nil
  | (none, body) :: arms, h => fun _ =>
    readArms_arm conditionPrintable_none h.1 h.2 (readPart_tokens body h.1)
      (readArms_armsTokens arms h.2 _)
  | (some _, body) :: arms, h => fun _ =>
    readArms_arm (conditionPrintable_some h.1) h.2.1 h.2.2 (readPart_tokens body h.2.1)
      (readArms_armsTokens arms h.2.2 _)

end

end Stmt

-- ================================================================== programs

/-- The source of a program: each statement with a terminator behind it, all
on one line. -/
def Block.print (sp : Spelling) (p : Block) : String :=
  String.ofList (sp.render (Stmt.blockTokens p))

theorem notMem_print {sp : Spelling} {p : Block} (printable : Stmt.BlockPrintable sp p) :
    '\n' ∉ (p.print sp).toList := by
  rw [Block.print, String.toList_ofList]
  exact notMem_render (Stmt.whole_blockTokens p printable).reads

/-- **Reading undoes printing.** Every program that can be printed is printed
on one line and read back from there, whichever quote and whichever digits it
is spelled with: all its statements at every depth are the same, each on line
one. -/
theorem ofSource_print (sp : Spelling) (p : Block) (printable : Stmt.BlockPrintable sp p) :
    '\n' ∉ (p.print sp).toList ∧
      Block.ofSource (p.print sp) = .ok (Stmt.blockOnLine 1 p) := by
  refine ⟨notMem_print printable, ?_⟩
  have whole := Stmt.whole_blockTokens p printable
  rw [Block.ofSource, Block.print, normalize_render whole.closedOff whole.reads whole.fit]
  exact congrArg Except.ok (Stmt.readBlock_of_parts printable (Stmt.readPart_tokens p printable))

/-- A branch with all its sorts of arms, and a brace and a terminator within a
literal. -/
theorem ofSource_print_of_branch :
    let sp : Spelling := ⟨'"', rfl, fun _ => ['2', '.', '5']⟩
    let amount : Expr := .number (Number.ofLiteral ['2'] ['5'])
    let attempt : Stmt := .attempt [⟨5, .call (.name "f") [.string "\"\x7d;"]⟩]
      (some [⟨6, .return (some .null)⟩])
    let sum : Stmt := .compound (.member (.name "o") "m") .add (.unary .neg amount)
    let p : Block := [⟨3, .branch [(some (.binary .lt (.name "x") amount), [⟨4, attempt⟩]),
      (some (.name "y"), []), (none, [⟨8, sum⟩])]⟩, ⟨2, .make "x"⟩]
    Stmt.BlockPrintable sp p ∧ '\n' ∉ (p.print sp).toList ∧
      Block.ofSource (p.print sp) = .ok (Stmt.blockOnLine 1 p) := by
  intro sp amount attempt sum p
  have isName : ∀ x ∈ ["f", "o", "m", "x", "y"], IsName x := by
    have reads : ∀ {x : String}, Token.IsWord x.toList → Token.ofWord x = .name x →
        sp.Reads (.name x) := reads_name
    intro x mem
    simp only [List.mem_cons, List.not_mem_nil, or_false] at mem
    rcases mem with rfl | rfl | rfl | rfl | rfl <;>
      exact ⟨reads ⟨_, _, rfl, by decide, List.all_eq_true.1 (by decide)⟩ (by decide), by decide⟩
  have number : amount.Printable sp := by
    have digits : ∀ c ∈ ['2'], c.isDigit = true := List.forall_mem_singleton.2 (by decide)
    have places : ∀ c ∈ ['5'], c.isDigit = true := List.forall_mem_singleton.2 (by decide)
    have numeral := Token.IsNumeral.fraction digits (List.cons_ne_nil '5' []) places
    have ends : ∀ d ∈ ([] : List Char).head?, d.isDigit = false ∧ d ≠ '.' := by
      intro d mem
      cases mem
    have scanned := Token.scan_numeral numeral ends
    rw [List.append_nil, Token.scan] at scanned
    exact ⟨scanned, by decide⟩
  have printable : Stmt.BlockPrintable sp p :=
    ⟨⟨⟨by decide, isName _ (by simp), number⟩,
      ⟨⟨⟨⟨isName _ (by simp), trivial, trivial⟩, trivial⟩, trivial, trivial⟩, trivial⟩,
      isName _ (by simp), trivial,
      ⟨⟨⟨isName _ (by simp), isName _ (by simp)⟩, by decide, number⟩, trivial⟩, trivial⟩,
      isName _ (by simp), trivial⟩
  exact ⟨printable, ofSource_print sp p printable⟩

example : Block.print ⟨'"', rfl, fun _ => ['2', '.', '5']⟩
    [⟨1, .branch [(some (.name "x"), [⟨2, .call (.name "f") [.string "\"\x7d;"]⟩]), (none, [])]⟩,
      ⟨3, .make "x"⟩]
    = "if(x)\x7bf(\"\\\"\x7d;\");\x7delse\x7b\x7d;make x;" := by decide +kernel

end RoutineScript
