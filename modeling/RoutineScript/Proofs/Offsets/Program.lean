/-
Whole scripts by their offsets. The script is kept in one piece. A body is
read between two of its offsets: it is cut into statements, a statement finds
its line in the table of the script, and a block hands the offsets of its
bodies down. It is checked for each of them that it lies between the ends of
its block, and that it is shorter than what is being read.

# The argument

A statement has all of the script in front of it whose length is its offset
(`exists_of_mem_segments`), so the line in the table is that of its first
character, and a body in it has the script in front of it up to its brace.
Bodies are read by the same function; the induction is on the length of what
stands between the two offsets.
-/
import RoutineScript.Proofs.Offsets.Blocks
import RoutineScript.Proofs.Source.Origins

namespace RoutineScript

namespace ByOffset

/-- Reads the bodies of a statement: they have to lie between its ends, and to
be shorter than `length`. -/
def bodiesOf (segment : Segment) (length : Nat)
    (read : (start stop : Nat) → stop - start < length → Checked Block) (start stop : Nat) :
    Checked Block :=
  if segment.offset < start ∧ start ≤ stop ∧ stop < segment.offset + segment.span.bytes then
    if shorter : stop - start < length then read start stop shorter
    else .error (.panic .endless)
  else .error (.panic (.outside start stop))

section Definitions

variable (whole : Span)

/-- Reads a statement of a script, whose bodies are read by `body`. -/
def statement (body : Nat → Nat → Checked Block) (segment : Segment) : Checked (Located Stmt) :=
  let line := whole.lineAt segment.offset
  let read :=
    match segment.form with
    | .instruction => instruction segment.span
    | .block => compound body segment.span segment.offset
  match read with
  | .ok statement => .ok ⟨line, statement⟩
  | .error (.fault fault) => .ok ⟨line, .invalid (fault.atLine line)⟩
  | .error (.panic panic) => .error (.panic panic)

/-- The statements between two offsets of a script. -/
def block (start stop : Nat) : Checked Block :=
  match slice whole start stop with
  | .error stop => .error stop
  | .ok text =>
    match segments text start with
    | .error stop => .error stop
    | .ok found => found.mapM fun segment => statement whole
        (bodiesOf segment (stop - start) fun first last _shorter => block first last) segment
termination_by stop - start

end Definitions

/-- The program of a source. -/
def program (source : String) : Checked Block := do
  let whole ← Checked.ofResult (Span.normalize source)
  block whole 0 whole.bytes

-- ================================================================= segments

section Segments

variable {text before behind : Span} {segment : Segment}

/-- A statement stands in its text behind as many bytes as its offset says. -/
theorem exists_of_mem_segments {base : Nat} (mem : segment ∈ text.segments base) :
    ∃ front behind : Span, text = front ++ (segment.span ++ behind) ∧
      segment.offset = base + front.bytes := by
  fun_induction Span.segments base text with
  | case1 => cases mem
  | case2 base text c tail skipped first begins ih =>
    have whole : text = text.takeWhile (·.val == ';') ++ (first.span ++ first.rest) := by
      rw [Span.append_firstStatement, ← skipped]
      exact (List.takeWhile_append_dropWhile).symm
    rcases List.mem_cons.1 mem with rfl | mem
    · exact ⟨text.takeWhile (·.val == ';'), first.rest, whole, rfl⟩
    · obtain ⟨front, behind, rest, offset⟩ := ih mem
      refine ⟨text.takeWhile (·.val == ';') ++ first.span ++ front, behind, ?_, ?_⟩
      · conv_lhs => rw [whole, rest]
        simp only [List.append_assoc]
      · rw [offset]
        simp only [begins, Span.bytes_append, Nat.add_assoc]

/-- The line of a byte that begins a character is the line of the character. -/
theorem lineAt_append (before : Span) (c : Located Char) (rest : Span) :
    (before ++ c :: rest).lineAt before.bytes = c.line := by
  have entry := Span.getElem?_byteLines before rest c c.val.utf8Size_pos
  rw [Nat.add_zero] at entry
  rw [Span.lineAt, entry]
  rfl

theorem bytes_pos {text : Span} (some : text ≠ []) : 0 < text.bytes := by
  obtain ⟨c, rest, rfl⟩ := List.exists_cons_of_ne_nil some
  have := c.val.utf8Size_pos
  rw [Span.bytes]
  omega

end Segments

-- ================================================================= programs

section Programs

variable {whole : Span}

/-- A statement is read as the parser that runs does it, if that is so for the
bodies in it. -/
theorem statement_eq {body : Nat → Nat → Checked Block} {segment : Segment}
    (line : whole.lineAt segment.offset = segment.span.firstLine)
    (reads : ReadsBodies body segment.span segment.offset) :
    statement whole body segment = .ok (Stmt.readPart (segment.form, segment.span)) := by
  have read : (match segment.form with
      | .instruction => instruction segment.span
      | .block => compound body segment.span segment.offset) =
      Checked.ofResult (Stmt.readForm segment.form segment.span) := by
    cases segment.form with
    | instruction => exact instruction_eq segment.span
    | block => exact compound_eq reads
  rw [statement, read, line, Stmt.readPart]
  cases Stmt.readForm segment.form segment.span <;> rfl

/-- **What stands between two offsets is read as the parser that runs reads
it.** -/
theorem block_eq {whole : Span} (front text behind : Span) (isWhole : whole = front ++ (text ++ behind)) :
    block whole front.bytes (front.bytes + text.bytes) = .ok (Stmt.readBlock text) := by
  have sliced : slice whole front.bytes (front.bytes + text.bytes) = .ok text := by
    rw [isWhole]
    exact slice_append front text behind
  have parts : (text.segments front.bytes).map
      (fun segment => Stmt.readPart (segment.form, segment.span)) = Stmt.readBlock text := by
    rw [Stmt.readBlock_eq, Span.segments_offset 0 front.bytes, List.map_map]
    rfl
  rw [block, sliced]
  simp only [segments_eq]
  have each : ∀ segment ∈ text.segments front.bytes, statement whole
      (bodiesOf segment (front.bytes + text.bytes - front.bytes) fun first last _ =>
        block whole first last) segment =
      Checked.ofResult (.ok (Stmt.readPart (segment.form, segment.span))) := by
    intro segment mem
    obtain ⟨before, after, isText, offset⟩ := exists_of_mem_segments mem
    have size : text.bytes = before.bytes + segment.span.bytes + after.bytes := by
      rw [isText, Span.bytes_append, Span.bytes_append, Nat.add_assoc]
    refine statement_eq ?_ ?_
    · obtain ⟨c, rest, own⟩ := List.exists_cons_of_ne_nil (Span.span_ne_nil_of_mem_segments mem)
      have line := lineAt_append (front ++ before) c (rest ++ (after ++ behind))
      rw [isWhole, isText, own, offset]
      simpa [Span.firstLine] using line
    · intro ahead inside rest isSpan some some'
      have ahead_pos := bytes_pos some
      have rest_pos := bytes_pos some'
      have size' : segment.span.bytes = ahead.bytes + (inside.bytes + rest.bytes) := by
        rw [isSpan, Span.bytes_append, Span.bytes_append]
      have shorter : inside.length < text.length := by
        have := List.length_pos_iff.2 some
        rw [isText, isSpan]
        simp only [List.length_append]
        omega
      have split : whole =
          (front ++ before ++ ahead) ++ (inside ++ (rest ++ after ++ behind)) := by
        rw [isWhole, isText, isSpan]
        simp only [List.append_assoc]
      have read := block_eq _ inside _ split
      rw [bodiesOf, if_pos (by omega), dif_pos (by omega), offset]
      simpa only [Span.bytes_append, Nat.add_assoc] using read
  rw [mapM_ofResult each, ← parts]
  exact congrArg Checked.ofResult (List.mapM_pure ..)
termination_by text.length

/-- **No check fails when a source is read by its offsets**, and what is read is
the program of the source. -/
theorem program_eq (source : String) :
    program source = Checked.ofResult (Block.ofSource source) := by
  rw [program, Block.ofSource]
  cases Span.normalize source with
  | error => rfl
  | ok whole =>
    have read := block_eq [] whole [] (List.append_nil whole).symm
    simpa [Span.bytes, Except.map] using read

end Programs

/-- **Reading stays within its bounds.** Reading a source by offsets, cutting any
text into statements, searching any text for a closing delimiter from any offset
on, and taking the tokens or the expression of any text all give what the parser
that runs gives; and that is never a panic, so no check on the way has failed. -/
theorem reads_within_bounds :
    (∀ source, program source = Checked.ofResult (Block.ofSource source)) ∧
    (∀ text base, segments text base = .ok (text.segments base)) ∧
    (∀ text start, matchingClose text start = .ok (text.matchingClose start)) ∧
    (∀ text, tokensOf text = .ok (Token.scan text.chars)) ∧
    (∀ text, expressionText text = Checked.ofResult (Expr.ofText text)) ∧
    ∀ {α : Type} (result : Except Fault α) (panic : Panic),
      Checked.ofResult result ≠ .error (.panic panic) := by
  refine ⟨program_eq, segments_eq, matchingClose_eq, tokensOf_eq, expressionText_eq, ?_⟩
  intro α result panic failed
  cases result <;> cases failed

end ByOffset

end RoutineScript
