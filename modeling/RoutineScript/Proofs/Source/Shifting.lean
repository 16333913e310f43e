/-
The same text further down in a source.

Whether text is accepted, how it is cut and what is read from it is decided
by its characters. Lines are only carried along, so a text that stands `n`
lines further down is read as the same program with all lines raised by `n`:
those of the statements at every depth, and those of the faults of statements
that could not be read (`Stmt.readBlock_down`).

The lemmas follow the functions: whatever is made of a span commutes with
moving it down.
-/
import RoutineScript.Proofs.Source.Acceptance
import RoutineScript.Proofs.Source.Statements

namespace RoutineScript

-- ==================================================================== spans

namespace Span

/-- A span that stands `n` lines further down. -/
def down (n : Nat) (span : Span) : Span :=
  span.map fun c => ⟨c.line + n, c.val⟩

variable {n : Nat}

@[simp] theorem down_nil : down n [] = [] :=
  rfl

@[simp] theorem down_cons (c : Located Char) (rest : Span) :
    down n (c :: rest) = ⟨c.line + n, c.val⟩ :: down n rest :=
  rfl

@[simp] theorem down_append (a b : Span) : down n (a ++ b) = down n a ++ down n b :=
  List.map_append

@[simp] theorem length_down (span : Span) : (down n span).length = span.length :=
  List.length_map _

@[simp] theorem chars_down (span : Span) : (down n span).chars = span.chars := by
  simp [down, chars]

@[simp] theorem text_down (span : Span) : (down n span).text = span.text := by
  simp [text]

@[simp] theorem bytes_down (span : Span) : (down n span).bytes = span.bytes := by
  induction span with
  | nil => rfl
  | cons c rest ih => simp [bytes, ih]

@[simp] theorem isEmpty_down (span : Span) : (down n span).isEmpty = span.isEmpty := by
  cases span <;> rfl

@[simp] theorem startsWith_down (span : Span) (word : String) :
    (down n span).startsWith word = span.startsWith word := by
  simp [startsWith]

@[simp] theorem drop_down (span : Span) (count : Nat) :
    (down n span).drop count = down n (span.drop count) := by
  simp [down]

@[simp] theorem upTo_down (span rest : Span) :
    upTo (down n span) (down n rest) = down n (upTo span rest) := by
  simp [upTo, down]

@[simp] theorem skipTerminators_down (span : Span) :
    (down n span).skipTerminators = down n span.skipTerminators := by
  simp [skipTerminators, down, List.dropWhile_map, Function.comp_def]

theorem firstLine_down {span : Span} (some : span ≠ []) :
    (down n span).firstLine = span.firstLine + n := by
  cases span with
  | nil => exact absurd rfl some
  | cons c rest => rfl

-- ---------------------------------------------------------------- searches

theorem splitWhere_down {σ : Type} (advance : σ → Char → σ) (stops : σ → Char → Bool) (s : σ)
    (span : Span) : splitWhere advance stops s (down n span) =
      (splitWhere advance stops s span).map (Prod.map (down n) (down n)) := by
  induction span generalizing s with
  | nil => rfl
  | cons c rest ih =>
    rw [down_cons, splitWhere, splitWhere, ih]
    split
    · rfl
    · simp only [Option.map_map]
      rfl

theorem splitUnquoted_down (target : Char) (span : Span) : (down n span).splitUnquoted target =
    (span.splitUnquoted target).map (Prod.map (down n) (down n)) :=
  splitWhere_down ..

theorem splitBoundary_down (span : Span) : (down n span).splitBoundary =
    span.splitBoundary.map (Prod.map (down n) (down n)) :=
  splitWhere_down ..

theorem splitClosing_down (span : Span) : (down n span).splitClosing =
    span.splitClosing.map (Prod.map (down n) (down n)) := by
  cases span with
  | nil => rfl
  | cons first rest =>
    simp only [splitClosing, down_cons]
    split
    · rfl
    · exact splitWhere_down _ _ _ (first :: rest)

theorem enclosed?_down (span : Span) : (down n span).enclosed? =
    span.enclosed?.map (Prod.map (down n) (down n)) := by
  rw [enclosed?, enclosed?, splitClosing_down, Option.map_map, Option.map_map]
  congr 1
  funext cut
  exact Prod.ext (drop_down cut.1 1) (drop_down cut.2 1)

theorem continuation?_down (span : Span) :
    (down n span).continuation? = span.continuation?.map (down n) := by
  have enclosed : ∀ body : Span, (down n body).enclosed?.map Prod.snd =
      (body.enclosed?.map Prod.snd).map (down n) := by
    intro body
    rw [enclosed?_down, Option.map_map, Option.map_map]
    rfl
  simp only [continuation?, skipTerminators_down, startsWith_down, splitUnquoted_down, drop_down]
  split
  · cases span.skipTerminators.splitUnquoted '{' with
    | none => rfl
    | some found => exact enclosed found.2
  · split
    · exact enclosed _
    · split
      · exact enclosed _
      · rfl

theorem afterContinuations_down (span : Span) :
    (down n span).afterContinuations = down n span.afterContinuations := by
  fun_induction afterContinuations span with
  | case1 span ends => exact Stmt.afterContinuations_of_none (by rw [continuation?_down, ends]; rfl)
  | case2 span rest goesOn ih =>
    have goesOn' : (down n span).continuation? = some (down n rest) := by
      rw [continuation?_down, goesOn]
      rfl
    rw [Stmt.afterContinuations_of_some goesOn', ih]

-- ---------------------------------------------------------------- segments

theorem firstStatement_down (span : Span) : firstStatement (down n span) =
    ⟨(firstStatement span).form, down n (firstStatement span).span,
      down n (firstStatement span).rest⟩ := by
  rw [firstStatement, firstStatement, splitBoundary_down]
  cases span.splitBoundary with
  | none => rfl
  | some found =>
    obtain ⟨before, boundary⟩ := found
    have head : (down n boundary).head?.any (·.val == '{') = boundary.head?.any (·.val == '{') := by
      cases boundary <;> rfl
    simp only [Option.map_some, Prod.map_apply, head, enclosed?_down]
    split
    · cases boundary.enclosed? with
      | none => rfl
      | some found => simp [afterContinuations_down]
    · rfl

/-- The terminators in front of a span take up no segment. -/
theorem segments_of_skipTerminators {offset : Nat} {span tail : Span} {c : Located Char}
    (skipped : span.skipTerminators = c :: tail) :
    segments offset span =
      let begins := offset + bytes (span.takeWhile (·.val == ';'))
      let first := firstStatement (c :: tail)
      ⟨first.form, begins, first.span⟩ :: segments (begins + first.span.bytes) first.rest := by
  rw [segments]
  split
  · rename_i none
    rw [skipped] at none
    cases none
  · rename_i same
    rw [skipped] at same
    cases same
    rfl

end Span

/-- A segment that stands `n` lines further down. -/
def Segment.down (n : Nat) (segment : Segment) : Segment :=
  { segment with span := segment.span.down n }

namespace Span

variable {n : Nat}

theorem segments_down (offset : Nat) (span : Span) :
    segments offset (down n span) = (segments offset span).map (Segment.down n) := by
  fun_induction segments offset span with
  | case1 offset span none =>
    exact Stmt.segments_eq_nil (by rw [skipTerminators_down, none, down_nil])
  | case2 offset span c tail skipped first begins ih =>
    have skipped' : (down n span).skipTerminators = ⟨c.line + n, c.val⟩ :: down n tail := by
      rw [skipTerminators_down, skipped, down_cons]
    have front : bytes ((down n span).takeWhile (·.val == ';')) =
        bytes (span.takeWhile (·.val == ';')) := by
      rw [down, List.takeWhile_map]
      exact bytes_down _
    rw [segments_of_skipTerminators skipped', front, ← down_cons, firstStatement_down, List.map_cons,
      ← ih]
    simp only [bytes_down]
    rfl

/-- Where a text begins decides about the offsets of its statements alone. -/
theorem segments_offset (offset offset' : Nat) (text : Span) :
    (segments offset text).map (fun segment => (segment.form, segment.span)) =
      (segments offset' text).map fun segment => (segment.form, segment.span) := by
  fun_induction segments offset text generalizing offset' with
  | case1 offset text none => rw [Stmt.segments_eq_nil none, List.map_nil]
  | case2 offset text c tail skipped first begins ih =>
    rw [segments_of_skipTerminators skipped, List.map_cons, List.map_cons]
    exact congrArg (_ :: ·) (ih _)

-- ------------------------------------------------------------------ pieces

theorem suffix_of_enclosed? {text inside after : Span} (enclosed : text.enclosed? = some (inside, after)) :
    after <:+ text := by
  obtain ⟨⟨before, behind⟩, cut, same⟩ := Option.map_eq_some_iff.1 enclosed
  obtain ⟨-, rfl⟩ := Prod.mk.inj same
  have back : behind <:+ text := by
    unfold splitClosing at cut
    split at cut
    · cases cut
    · split at cut
      · cases cut
      · exact ⟨before, append_of_splitWhere _ _ cut⟩
  exact (List.drop_suffix 1 behind).trans back

/-- What follows a part that continues a block follows a brace of the text. -/
theorem exists_enclosed_of_continuation? {text rest : Span} (goesOn : text.continuation? = some rest) :
    ∃ braced inside : Span, braced <:+ text ∧ braced.enclosed? = some (inside, rest) := by
  obtain ⟨braced, opens, enclosed⟩ := Option.bind_eq_some_iff.1 goesOn
  obtain ⟨⟨inside, rest⟩, enclosed', rfl⟩ := Option.map_eq_some_iff.1 enclosed
  have part : braced <:+ text.skipTerminators := by
    split at opens
    · obtain ⟨⟨header, braced⟩, cut, rfl⟩ := Option.map_eq_some_iff.1 opens
      exact ⟨header, append_of_splitWhere _ _ cut⟩
    · split at opens
      · cases opens
        exact List.drop_suffix _ _
      · split at opens
        · cases opens
          exact List.drop_suffix _ _
        · cases opens
  exact ⟨braced, inside, part.trans (List.dropWhile_suffix _), enclosed'⟩

theorem suffix_of_continuation? {text rest : Span} (goesOn : text.continuation? = some rest) :
    rest <:+ text := by
  obtain ⟨braced, inside, part, enclosed⟩ := exists_enclosed_of_continuation? goesOn
  exact (suffix_of_enclosed? enclosed).trans part

theorem afterContinuations_suffix (text : Span) : text.afterContinuations <:+ text := by
  fun_induction afterContinuations text with
  | case1 => exact List.suffix_rfl
  | case2 text rest goesOn ih => exact ih.trans (suffix_of_continuation? goesOn)

/-- A text is its first statement and the rest. -/
theorem append_firstStatement (text : Span) :
    (firstStatement text).span ++ (firstStatement text).rest = text := by
  rw [firstStatement]
  split
  · exact List.append_nil _
  · rename_i before boundary cut
    have whole := append_of_splitWhere _ _ cut
    split
    · split
      · exact List.append_nil _
      · rename_i body after enclosed
        obtain ⟨front, same⟩ : after.afterContinuations <:+ text :=
          after.afterContinuations_suffix.trans
            ((suffix_of_enclosed? enclosed).trans ⟨before, whole⟩)
        dsimp only
        rw [← same, upTo_append]
    · exact whole

/-- A statement begins with the first character that is no terminator. -/
theorem exists_firstStatement {c : Located Char} (tail : Span) (noTerminator : c.val ≠ ';') :
    ∃ behind, (firstStatement (c :: tail)).span = c :: behind := by
  have whole := append_firstStatement (c :: tail)
  have shorter : (firstStatement (c :: tail)).rest.length < (c :: tail).length :=
    length_firstStatement_lt noTerminator
  cases own : (firstStatement (c :: tail)).span with
  | nil =>
    rw [own, List.nil_append] at whole
    rw [whole] at shorter
    exact absurd shorter (Nat.lt_irrefl _)
  | cons d behind =>
    rw [own, List.cons_append, List.cons.injEq] at whole
    exact ⟨behind, by rw [whole.1]⟩

/-- No statement is empty. -/
theorem span_ne_nil_of_mem_segments {offset : Nat} {text : Span} {segment : Segment}
    (mem : segment ∈ segments offset text) : segment.span ≠ [] := by
  fun_induction segments offset text with
  | case1 => cases mem
  | case2 offset text c tail skipped first begins ih =>
    rcases List.mem_cons.1 mem with rfl | mem
    · obtain ⟨behind, own⟩ := exists_firstStatement tail (head_skipTerminators skipped)
      rw [own]
      exact List.cons_ne_nil _ _
    · exact ih mem

end Span

-- ================================================================== layouts

namespace Layout

/-- A layout `n` lines further down. -/
def down (n : Nat) (layout : Layout) : Layout :=
  { layout with line := layout.line + n, opened := layout.opened.down n }

variable {n : Nat} {layout layout' : Layout} {c : Char} {given opened : Span}

theorem joinsLines_down (layout : Layout) : (layout.down n).joinsLines = layout.joinsLines := by
  rw [joinsLines, joinsLines, down]
  cases layout.opened <;> rfl

theorem delimit_down (delimits : layout.delimit c = .ok opened) :
    (layout.down n).delimit c = .ok (opened.down n) :=
  delimit_map (f := (· + n)) rfl rfl delimits

theorem give_of_delimit_eq (delimits : layout.delimit c = .ok opened) :
    layout.give c = .ok
      ((if layout.gap && Text.isWordChar c && layout.afterWord then [⟨layout.line, ' '⟩] else [])
        ++ [⟨layout.line, c⟩],
      { layout with opened, gap := false, afterWord := Text.isWordChar c }) := by
  rw [give, delimits]
  rfl

theorem give_down (layout : Layout) (gives : layout.give c = .ok (given, layout')) :
    (layout.down n).give c = .ok (given.down n, layout'.down n) := by
  cases delimits : layout.delimit c with
  | error fault =>
    rw [give, delimits] at gives
    cases gives
  | ok opened =>
    rw [give_of_delimit_eq delimits] at gives
    rw [give_of_delimit_eq (delimit_down delimits)]
    cases gives
    simp only [down, Span.down_append, apply_ite (Span.down n), Span.down_cons, Span.down_nil]
    rfl

theorem stepCode_down (steps : layout.stepCode c = .ok (given, layout')) :
    (layout.down n).stepCode c = .ok (given.down n, layout'.down n) := by
  have joins : ({ layout.down n with reading := .code } : Layout).joinsLines =
      ({ layout with reading := .code } : Layout).joinsLines :=
    joinsLines_down { layout with reading := .code }
  rw [stepCode] at steps ⊢
  simp only [joins]
  split_ifs at steps ⊢
  · cases steps
    simp [down, Nat.add_right_comm]
  · cases steps
    simp [down, Nat.add_right_comm]
  · cases steps
    rfl
  · cases steps
    rfl
  · cases steps
    rfl
  · cases steps
    rfl
  · exact give_down { layout with reading := .code } steps

theorem step_down (steps : layout.step c = .ok (given, layout')) :
    (layout.down n).step c = .ok (given.down n, layout'.down n) := by
  rw [step] at steps ⊢
  cases reading : layout.reading with
  | code =>
    simp only [down, reading] at steps ⊢
    exact stepCode_down steps
  | comment =>
    simp only [down, reading] at steps ⊢
    split_ifs at steps ⊢
    · exact stepCode_down steps
    · cases steps
      simp [reading]
  | literal quote escaped =>
    simp only [down, reading] at steps ⊢
    rw [stepLiteral_eq] at steps ⊢
    split_ifs at steps ⊢
    cases steps
    rfl

theorem read_down {text : List Char} {span : Span} (reads : layout.read text = .ok span) :
    (layout.down n).read text = .ok (span.down n) := by
  induction text generalizing layout span with
  | nil =>
    obtain ⟨line, opened, gap, afterWord, reading⟩ := layout
    cases reading with
    | literal => cases reads
    | code | comment =>
      cases opened with
      | nil =>
        cases reads
        rfl
      | cons => cases reads
  | cons c rest ih =>
    obtain ⟨given, layout', tail, steps, behind, rfl⟩ := exists_of_read_cons reads
    rw [read, step_down steps]
    simp only [bind, Except.bind, ih behind]
    simp [pure, Except.pure]

end Layout

-- ============================================================== statements

/-- A fault `n` lines further down, if it knows its line. -/
def Fault.down (n : Nat) (fault : Fault) : Fault :=
  { fault with line := fault.line.map (· + n) }

namespace Stmt

mutual

/-- A statement with all lines within it raised by `n`. -/
def down (n : Nat) : Stmt → Stmt
  | branch arms => branch (armsDown n arms)
  | whileLoop condition body => whileLoop condition (blockDown n body)
  | forLoop count body => forLoop count (blockDown n body)
  | countLoop name start stop body => countLoop name start stop (blockDown n body)
  | attempt body none => attempt (blockDown n body) none
  | attempt body (some handler) => attempt (blockDown n body) (some (blockDown n handler))
  | thread body => thread (blockDown n body)
  | define name params body => define name params (blockDown n body)
  | declareClass name parent body => declareClass name parent (blockDown n body)
  | invalid fault => invalid (fault.down n)
  | simple => simple

/-- Statements with all their lines raised by `n`. -/
def blockDown (n : Nat) : List (Located Stmt) → List (Located Stmt)
  | [] => []
  | ⟨line, statement⟩ :: rest => ⟨line + n, statement.down n⟩ :: blockDown n rest

/-- Arms with all lines within them raised by `n`. -/
def armsDown (n : Nat) : List (Option Expr × List (Located Stmt)) →
    List (Option Expr × List (Located Stmt))
  | [] => []
  | (condition, body) :: rest => (condition, blockDown n body) :: armsDown n rest

end

/-- A block cut at its braces, `n` lines further down. -/
def Cut.down (n : Nat) (cut : Cut) : Cut :=
  ⟨cut.header.down n, cut.body.down n, cut.rest.down n⟩

end Stmt

/-- A program with all its lines raised by `n`. -/
abbrev Block.down (n : Nat) (program : Block) : Block :=
  Stmt.blockDown n program

namespace Stmt

variable {n : Nat}

theorem blockDown_eq_map (block : Block) :
    Block.down n block = block.map fun s => ⟨s.line + n, s.val.down n⟩ := by
  induction block with
  | nil => rw [Block.down, blockDown, List.map_nil]
  | cons s block ih => rw [Block.down, blockDown, List.map_cons, ← ih]

mutual

/-- All that is within a statement goes down with it. -/
theorem within_down (statement : Stmt) :
    (statement.down n).within = statement.within.map fun s => ⟨s.line + n, s.val.down n⟩ :=
  match statement with
  | branch arms => armsStatements_down arms
  | whileLoop _ body | forLoop _ body | countLoop _ _ _ body | thread body | define _ _ body
  | declareClass _ _ body | attempt body none => blockStatements_down body
  | attempt body (some handler) => by
    rw [down, within, within, blockStatements_down body, blockStatements_down handler,
      List.map_append]
  | assign .. | compound .. | step .. | delete .. | make .. | call .. | .return .. | invalid .. => rfl

/-- A program that goes down does so at every depth. -/
theorem blockStatements_down (block : List (Located Stmt)) :
    blockStatements (blockDown n block) =
      (blockStatements block).map fun s => ⟨s.line + n, s.val.down n⟩ :=
  match block with
  | [] => rfl
  | ⟨line, statement⟩ :: rest => by
    rw [blockDown, blockStatements, within_down statement, blockStatements_down rest,
      blockStatements, List.map_cons, List.map_append]

theorem armsStatements_down (arms : List (Option Expr × List (Located Stmt))) :
    armsStatements (armsDown n arms) =
      (armsStatements arms).map fun s => ⟨s.line + n, s.val.down n⟩ :=
  match arms with
  | [] => rfl
  | (condition, body) :: rest => by
    rw [armsDown, armsStatements, blockStatements_down body, armsStatements_down rest,
      armsStatements, List.map_append]

end

theorem down_withBody (header : Header) (body : Block) :
    (header.withBody body).down n = header.withBody (body.down n) := by
  cases header <;> simp [Header.withBody, down, armsDown]

theorem eq_nil_of_statements {block : Block} (none : block.statements = []) : block = [] := by
  cases block with
  | nil => rfl
  | cons s block => cases none

/-- A statement without others in it has no lines in it. -/
theorem down_of_within_eq_nil {statement : Stmt} (none : statement.within = [])
    (valid : statement.isValid = true) : statement.down n = statement := by
  cases statement with
  | branch arms =>
    rw [down]
    congr 1
    induction arms with
    | nil => rw [armsDown]
    | cons arm arms ih =>
      obtain ⟨condition, body⟩ := arm
      rw [within, armsStatements, List.append_eq_nil_iff] at none
      obtain rfl : body = [] := eq_nil_of_statements none.1
      rw [armsDown, ih none.2 rfl, blockDown]
  | attempt body handler =>
    cases handler with
    | none => rw [down, eq_nil_of_statements none, blockDown]
    | some handler =>
      rw [within, List.append_eq_nil_iff] at none
      rw [down, eq_nil_of_statements none.1, eq_nil_of_statements none.2, blockDown]
  | whileLoop condition body => rw [down, eq_nil_of_statements none, blockDown]
  | forLoop count body => rw [down, eq_nil_of_statements none, blockDown]
  | countLoop name start stop body => rw [down, eq_nil_of_statements none, blockDown]
  | thread body => rw [down, eq_nil_of_statements none, blockDown]
  | define name params body => rw [down, eq_nil_of_statements none, blockDown]
  | declareClass name parent body => rw [down, eq_nil_of_statements none, blockDown]
  | invalid => cases valid
  | assign | compound | step | delete | make | call | «return» => rfl

-- ================================================================= reading

theorem readInstruction_down (span : Span) :
    readInstruction (span.down n) = (readInstruction span).map (down n) := by
  have same : readInstruction (span.down n) = readInstruction span := by
    simp [readInstruction]
  have reads := reads_readInstruction span
  rw [same]
  generalize readInstruction span = result at reads
  cases reads with
  | refused => rfl
  | @ok statement own =>
    have none : statement.within = [] := List.eq_nil_iff_forall_not_mem.2 fun s mem => by
      cases (own.within s mem).1
    rw [Except.map, down_of_within_eq_nil none own.valid]

theorem cut?_down (span : Span) : cut? (span.down n) = (cut? span).map (Cut.down n) := by
  rw [cut?, cut?, Span.splitUnquoted_down]
  cases span.splitUnquoted '{' with
  | none => rfl
  | some found =>
    simp only [Option.map_some, Option.bind_some, Prod.map_snd, Prod.map_fst, Span.enclosed?_down,
      Option.map_map]
    congr 1
    funext inside
    simp [Cut.down]

theorem readArmCondition_down (refused : Fault) (span header : Span) :
    readArmCondition refused (span.down n) (header.down n) = readArmCondition refused span header := by
  simp [readArmCondition]

/-- A segment is read on the line where it begins. -/
theorem readPart_down {form : Segment.Form} {span : Span} (some : span ≠ [])
    (read : readForm form (span.down n) = (readForm form span).map (down n)) :
    readPart (form, span.down n) =
      ⟨(readPart (form, span)).line + n, (readPart (form, span)).val.down n⟩ := by
  have unlocated := reads_readForm form span
  rw [readPart, readPart]
  simp only [read, Span.firstLine_down some]
  generalize readForm form span = result at unlocated
  cases unlocated with
  | ok => rfl
  | refused unknown => simp [Except.map, down, Fault.down, Fault.atLine, unknown]

theorem map_bind {α β γ : Type} (result : Except Fault α) {next : α → Except Fault β}
    {next' : α → Except Fault γ} {f : β → γ} (same : ∀ a, next' a = (next a).map f) :
    (result >>= next') = (result >>= next).map f := by
  cases result with
  | error => rfl
  | ok a => exact same a

mutual

/-- **Text further down is read as the same program further down.** -/
theorem readBlock_down (span : Span) : readBlock (span.down n) = Block.down n (readBlock span) := by
  rw [readBlock_eq, readBlock_eq, blockDown_eq_map, Span.segments_down]
  simp only [List.map_map]
  refine List.map_congr_left fun segment mem => ?_
  refine readPart_down (Span.span_ne_nil_of_mem_segments mem) ?_
  have shorter := Span.length_of_mem_segments mem
  show readForm segment.form (segment.span.down n) = (readForm segment.form segment.span).map (down n)
  cases segment.form with
  | instruction => exact readInstruction_down segment.span
  | block => exact readCompound_down segment.span
termination_by (span.length, 2)
decreasing_by
  simp only [Prod.lex_def]
  omega

theorem readCompound_down (span : Span) :
    readCompound (span.down n) = (readCompound span).map (down n) := by
  have shifted := cut?_down (n := n) span
  cases isCut : cut? span with
  | none =>
    rw [isCut] at shifted
    rw [readCompound_of_none isCut, readCompound_of_none shifted, Span.text_down]
    rfl
  | some cut =>
    have shorter := length_cut? isCut
    rw [isCut] at shifted
    rw [readCompound_of_cut isCut, readCompound_of_cut shifted]
    simp only [Cut.down, Span.chars_down, Span.text_down, Span.isEmpty_down]
    split
    · rfl
    · refine map_bind _ fun header => ?_
      cases behind : cut.rest with
      | nil =>
        rw [Span.down_nil, readBlock_down cut.body]
        exact congrArg Except.ok (down_withBody header _).symm
      | cons c rest =>
        rw [← behind, readArms_down _ cut.rest, readHandler_down _ cut.rest, readBlock_down cut.body,
          behind]
        cases header with
        | branch condition =>
          cases readArms (Cause.notAnInstruction span.text) (c :: rest) <;> rfl
        | attempt =>
          cases readHandler (Cause.notAnInstruction span.text) (c :: rest) <;> rfl
        | _ => rfl
termination_by (span.length, 1)
decreasing_by all_goals
  simp only [Prod.lex_def]
  omega

theorem readArms_down (refused : Fault) (span : Span) :
    readArms refused (span.down n) = (readArms refused span).map (armsDown n) := by
  by_cases empty : span = []
  · rw [empty, Span.down_nil, readArms_nil]
    rfl
  · have empty' : span.down n ≠ [] := by simpa [Span.down] using empty
    have shifted := cut?_down (n := n) span
    cases isCut : cut? span with
    | none =>
      have header : (((span.down n).splitUnquoted '{').elim [] Prod.fst) =
          Span.down n ((span.splitUnquoted '{').elim [] Prod.fst) := by
        rw [Span.splitUnquoted_down]
        cases span.splitUnquoted '{' <;> rfl
      rw [isCut] at shifted
      rw [readArms_of_none empty isCut, readArms_of_none empty' shifted, header,
        readArmCondition_down]
      exact map_bind _ fun _ => rfl
    | some cut =>
      have shorter := length_cut? isCut
      rw [isCut] at shifted
      rw [readArms_of_cut empty isCut, readArms_of_cut empty' shifted]
      simp only [Cut.down, readArmCondition_down, readArms_down refused cut.rest,
        readBlock_down cut.body]
      refine map_bind _ fun condition => ?_
      cases readArms refused cut.rest <;> rfl
termination_by (span.length, 1)
decreasing_by all_goals
  simp only [Prod.lex_def]
  omega

theorem readHandler_down (refused : Fault) (span : Span) :
    readHandler refused (span.down n) = (readHandler refused span).map (blockDown n) := by
  rw [readHandler_eq, readHandler_eq, cut?_down]
  cases isCut : cut? span with
  | none => rfl
  | some cut =>
    have shorter := length_cut? isCut
    simp only [Option.map_some, Span.startsWith_down, Cut.down, Span.isEmpty_down,
      readBlock_down cut.body]
    split <;> rfl
termination_by (span.length, 1)
decreasing_by all_goals
  simp only [Prod.lex_def]
  omega

end

end Stmt

end RoutineScript
