/-
The statements of a program in the order of its text.

A walk through a program that visits a statement, then what is within it, then
what follows goes through the text from the front to the back: the statements,
at every depth and in every arm and handler, are read from pieces of the text
that begin one behind the other (`Stmt.lays_readBlock`). So they stand on the
lines of the source on which they begin, and the lines do not go down
(`Block.lines_exact`).

# The argument

A block is cut into its bodies, the last one included (`Bodies`). A body has
something in front of it, the brace, so what is read from it begins behind the
statement it belongs to; and what follows the statement begins behind all that
was read from it (`Lays.append`).

A statement never begins within a word that was begun before: a terminator, a
brace or nothing stands in front of it (`Apart`), whereas the normalizer puts a
space between two words only. Nor does it begin with a terminator. So its first
character is one of the source, and stands on the line of its place there.
-/
import Mathlib.Data.List.TakeWhile
import RoutineScript.Proofs.Offsets.Program
import RoutineScript.Proofs.Source.Joining
import RoutineScript.Proofs.Source.Origins

namespace RoutineScript

-- ================================================================== fronts

namespace Span

variable {front text body behind rest : Span} {c : Located Char}

/-- A text that does not end in a word. -/
def EndsNoWord (front : Span) : Prop :=
  ∀ c ∈ front.getLast?, Text.isWordChar c.val = false

theorem endsNoWord_nil : EndsNoWord [] :=
  nofun

theorem endsNoWord_concat (front : Span) (noWord : Text.isWordChar c.val = false) :
    EndsNoWord (front ++ [c]) := by
  intro d last
  rw [List.getLast?_concat] at last
  cases last
  exact noWord

theorem EndsNoWord.append (ends : front.EndsNoWord) (ends' : text.EndsNoWord) :
    (front ++ text).EndsNoWord := by
  intro c last
  rw [List.getLast?_append] at last
  cases own : text.getLast? with
  | none =>
    rw [own] at last
    exact ends c last
  | some d =>
    rw [own] at last
    exact ends' c (own ▸ last)

theorem EndsNoWord.prepend (ends : text.EndsNoWord) (some : text ≠ []) (front : Span) :
    (front ++ text).EndsNoWord := by
  intro c last
  rw [List.getLast?_append_of_ne_nil _ some] at last
  exact ends c last

/-- No word runs on from a text into what follows: it ends in none, or only a
terminator follows. -/
def Apart (front text : Span) : Prop :=
  front.EndsNoWord ∨ ∀ c ∈ text.head?, c.val = ';'

theorem Apart.append (apart : Apart text rest) (some : text ≠ []) (front : Span) :
    Apart (front ++ text) rest :=
  apart.imp_left fun ends => ends.prepend some front

/-- Behind the terminators no word is left open. -/
theorem Apart.endsNoWord (apart : Apart front text) {tail : Span}
    (skipped : text.skipTerminators = c :: tail) :
    EndsNoWord (front ++ text.takeWhile (·.val == ';')) := by
  cases text with
  | nil => cases skipped
  | cons d text =>
    by_cases terminator : d.val = ';'
    · have some : (d :: text).takeWhile (·.val == ';') ≠ [] := by simp [terminator]
      intro e last
      rw [List.getLast?_append_of_ne_nil _ some] at last
      have isTerminator := List.mem_takeWhile_imp (List.mem_of_getLast? last)
      rw [beq_iff_eq.1 isTerminator]
      decide
    · have none : (d :: text).takeWhile (·.val == ';') = [] := by simp [terminator]
      rw [none, List.append_nil]
      exact apart.resolve_right fun heads => terminator (heads d rfl)

/-- What is enclosed stands between two delimiters. -/
theorem exists_delimiters (enclosed : text.enclosed? = some (body, behind)) :
    ∃ opener closer : Located Char, text = opener :: (body ++ closer :: behind) ∧
      Text.isWordChar opener.val = false ∧ Text.isWordChar closer.val = false := by
  obtain ⟨opener, closer, rfl, -, -, closes⟩ := ByOffset.exists_of_enclosed? enclosed
  cases pair : closerOf? opener.val with
  | none => simp only [splitClosing, pair, reduceCtorEq] at closes
  | some mark =>
    simp only [splitClosing, pair] at closes
    obtain ⟨state, d, tail, same, stops⟩ := ByOffset.exists_stop_of_splitWhere closes
    obtain ⟨rfl, rfl⟩ := List.cons.inj same
    simp only [Bool.and_eq_true, beq_iff_eq] at stops
    refine ⟨opener, closer, rfl, ?_⟩
    rw [stops.1.2]
    rcases closerOf?_cases pair with ⟨own, rfl⟩ | ⟨own, rfl⟩ | ⟨own, rfl⟩ <;> rw [own] <;> decide

theorem exists_of_continuation? (goesOn : text.continuation? = some rest) :
    ∃ front : Span, text = front ++ rest ∧ front.EndsNoWord := by
  obtain ⟨braced, inside, ⟨before, rfl⟩, enclosed⟩ := exists_enclosed_of_continuation? goesOn
  obtain ⟨opener, closer, rfl, -, noWord⟩ := exists_delimiters enclosed
  exact ⟨(before ++ opener :: inside) ++ [closer], by simp, endsNoWord_concat _ noWord⟩

/-- What each part has that continues a block, all of them have together. -/
theorem exists_front_of_afterContinuations {P : Span → Prop} (nil : P [])
    (append : ∀ {front front'}, P front → P front' → P (front ++ front'))
    (part : ∀ {text rest : Span}, text.continuation? = some rest →
      ∃ front, text = front ++ rest ∧ P front) (text : Span) :
    ∃ front, text = front ++ text.afterContinuations ∧ P front := by
  fun_induction afterContinuations text with
  | case1 => exact ⟨[], rfl, nil⟩
  | case2 text rest goesOn ih =>
    obtain ⟨front, whole, own⟩ := part goesOn
    obtain ⟨front', whole', own'⟩ := ih
    refine ⟨front ++ front', ?_, append own own'⟩
    rw [List.append_assoc, ← whole', ← whole]

theorem exists_of_afterContinuations (text : Span) :
    ∃ front : Span, text = front ++ text.afterContinuations ∧ front.EndsNoWord :=
  exists_front_of_afterContinuations endsNoWord_nil EndsNoWord.append exists_of_continuation? text

/-- No word runs on from a statement into what follows. -/
theorem apart_firstStatement (text : Span) :
    Apart (firstStatement text).span (firstStatement text).rest := by
  cases cut : text.splitBoundary with
  | none =>
    have first : firstStatement text = ⟨.instruction, text, []⟩ := by rw [firstStatement, cut]
    rw [first]
    exact .inr (by simp)
  | some found =>
    obtain ⟨before, boundary⟩ := found
    have whole := append_of_splitWhere _ _ cut
    obtain ⟨⟨q, depth⟩, c, tail, rfl, stops⟩ := ByOffset.exists_stop_of_splitWhere cut
    by_cases brace : c.val = '{'
    · have opens : ((c :: tail).head?.any fun d => d.val == '{') = true := by simp [brace]
      cases enclosed : enclosed? (c :: tail) with
      | none =>
        have first : firstStatement text = ⟨.block, text, []⟩ := by
          simp only [firstStatement, cut, opens, ↓reduceIte, enclosed]
        rw [first]
        exact .inr (by simp)
      | some found =>
        obtain ⟨body, after⟩ := found
        obtain ⟨opener, closer, braced, -, noWord⟩ := exists_delimiters enclosed
        obtain ⟨parts, isAfter, ends⟩ := exists_of_afterContinuations after
        obtain ⟨block, isBlock⟩ : ∃ block, block = before ++ opener :: body ++ [closer] ++ parts :=
          ⟨_, rfl⟩
        have split : text = block ++ after.afterContinuations := by
          rw [← whole, braced, isBlock, List.append_assoc, ← isAfter]
          simp
        have first : firstStatement text = ⟨.block, block, after.afterContinuations⟩ := by
          simp only [firstStatement, cut, opens, ↓reduceIte, enclosed]
          rw [split, upTo_append]
        rw [first]
        exact .inl (isBlock ▸ (endsNoWord_concat _ noWord).append ends)
    · have opens : ((c :: tail).head?.any fun d => d.val == '{') = false := by simp [brace]
      have first : firstStatement text = ⟨.instruction, before, c :: tail⟩ := by
        simp only [firstStatement, cut, opens, Bool.false_eq_true, ↓reduceIte]
      rw [first]
      refine .inr fun d head => ?_
      cases head
      simp only [beq_eq_false_iff_ne.2 brace, Bool.false_or, Bool.and_eq_true, beq_iff_eq] at stops
      exact stops.2.1

end Span

-- ==================================================================== places

namespace Stmt

variable {whole front text behind : Span} {s : Located Stmt} {statements others : List (Located Stmt)}
  {first last middle : Nat}

/-- A statement that is read from a piece of a text, which begins at a place of
the text, with a character that is no terminator and stands apart from the word
in front of it. -/
inductive ReadAt (whole : Span) : Nat → Located Stmt → Prop where
  | piece (form : Segment.Form) {front rest behind : Span} {c : Located Char} :
      whole = front ++ (c :: rest ++ behind) → front.EndsNoWord → c.val ≠ ';' →
        ReadAt whole front.length (readPart (form, c :: rest))

/-- Statements that are read from a text at places that ascend, from a first
place on up to a last one. -/
inductive Lays (whole : Span) : Nat → Nat → List (Located Stmt) → Prop where
  | nil {first last : Nat} : Lays whole first last []
  | cons {first last place : Nat} {s : Located Stmt} {statements : List (Located Stmt)} :
      first ≤ place → place < last → ReadAt whole place s → Lays whole (place + 1) last statements →
        Lays whole first last (s :: statements)

theorem Lays.mono (lays : Lays whole first last statements) {first' last' : Nat}
    (noEarlier : first' ≤ first) (upTo : last ≤ last') : Lays whole first' last' statements := by
  induction lays generalizing first' with
  | nil => exact .nil
  | cons begins ends read _ ih =>
    exact .cons (Nat.le_trans noEarlier begins) (Nat.lt_of_lt_of_le ends upTo) read (ih (Nat.le_refl _) upTo)

/-- Statements from places behind those of others. -/
theorem Lays.append (lays : Lays whole first middle statements)
    (behind : Lays whole middle last others) (noEarlier : first ≤ middle) (upTo : middle ≤ last) :
    Lays whole first last (statements ++ others) := by
  induction lays with
  | nil => exact behind.mono noEarlier (Nat.le_refl _)
  | cons begins ends read _ ih =>
    exact .cons begins (Nat.lt_of_lt_of_le ends upTo) read (ih behind (Nat.succ_le_of_lt ends) upTo)

/-- The places of statements. -/
theorem Lays.exists_places (lays : Lays whole first last statements) :
    ∃ places : List Nat, List.Forall₂ (ReadAt whole) places statements ∧
      places.Pairwise (· < ·) ∧ ∀ place ∈ places, first ≤ place := by
  induction lays with
  | nil => exact ⟨[], .nil, .nil, nofun⟩
  | @cons first last place s statements begins ends read _ ih =>
    obtain ⟨places, reads, ascends, noEarlier⟩ := ih
    refine ⟨place :: places, .cons read reads, .cons noEarlier ascends, ?_⟩
    refine List.forall_mem_cons.2 ⟨begins, fun place' mem => ?_⟩
    exact Nat.le_trans begins (Nat.le_of_succ_le (noEarlier place' mem))

/-- What is shorter than a length, and stands behind no word, is read from a text
one behind the other. -/
def LaysShorter (whole : Span) (length : Nat) : Prop :=
  ∀ {front body behind : Span}, whole = front ++ (body ++ behind) → body.length < length →
    front.EndsNoWord →
      Lays whole front.length (front.length + body.length) (readBlock body).statements

theorem LaysShorter.mono {length length' : Nat} (shorter : LaysShorter whole length)
    (upTo : length' ≤ length) : LaysShorter whole length' :=
  fun isWhole less => shorter isWhole (Nat.lt_of_lt_of_le less upTo)

theorem Lays.exists_of_mem (lays : Lays whole first last statements) (mem : s ∈ statements) :
    ∃ place, first ≤ place ∧ ReadAt whole place s := by
  induction lays with
  | nil => cases mem
  | cons begins _ read _ ih =>
    rcases List.mem_cons.1 mem with rfl | mem
    · exact ⟨_, begins, read⟩
    · obtain ⟨place, noEarlier, read⟩ := ih mem
      exact ⟨place, Nat.le_trans begins (Nat.le_of_succ_le noEarlier), read⟩

-- ==================================================================== bodies

variable {cut : Cut}

/-- Where a block is cut, a brace stands in front of the body. -/
theorem exists_of_cut (isCut : cut? text = some cut) :
    ∃ front between : Span, text = front ++ (cut.body ++ (between ++ cut.rest)) ∧
      front ≠ [] ∧ front.EndsNoWord := by
  obtain ⟨header, braced, body, after, split, enclosed, rfl⟩ := cut?_eq_some_iff.1 isCut
  obtain ⟨opener, closer, isBraced, noWord, -⟩ := Span.exists_delimiters enclosed
  have whole := Span.append_of_splitWhere _ _ split
  have skipped : after.takeWhile (·.val == ';') ++ after.skipTerminators = after :=
    List.takeWhile_append_dropWhile
  refine ⟨header ++ [opener], closer :: after.takeWhile (·.val == ';'), ?_, by simp,
    Span.endsNoWord_concat _ noWord⟩
  rw [← whole, isBraced]
  simp [skipped]

/-- The statements of the bodies of a block are read from behind its beginning,
if shorter texts are read so. -/
theorem lays_bodies {bodies : List Span} (isBodies : Bodies text bodies)
    (isWhole : whole = front ++ (text ++ behind))
    (shorter : LaysShorter whole text.length) :
    Lays whole (front.length + 1) (front.length + text.length) (bodiesStatements bodies) := by
  induction isBodies generalizing front behind with
  | nil => exact .nil
  | @cons text cut bodies isCut _ ih =>
    obtain ⟨ahead, between, isText, some, ends⟩ := exists_of_cut isCut
    have length := length_cut? isCut
    have some' := List.length_pos_iff.2 some
    have isBody : whole = (front ++ ahead) ++ (cut.body ++ (between ++ cut.rest ++ behind)) := by
      rw [isWhole, isText]
      simp
    have isRest : whole = (front ++ ahead ++ cut.body ++ between) ++ (cut.rest ++ behind) := by
      rw [isWhole, isText]
      simp
    have own := shorter isBody length.1 (ends.prepend some front)
    have others := ih isRest (shorter.mono (Nat.le_of_lt length.2))
    have parts := congrArg List.length isText
    simp only [List.length_append] at own others parts
    rw [bodiesStatements_cons]
    exact (own.mono (by omega) (Nat.le_refl _)).append (others.mono (by omega) (by omega))
      (by omega) (by omega)

-- ================================================================ statements

theorem within_instruction (text : Span) : (readPart (.instruction, text)).val.within = [] :=
  List.eq_nil_iff_forall_not_mem.2 fun s mem => by
    cases ((standsAt_readPart .instruction text).2 s mem).1

/-- Instructions alone have no statements in them. -/
theorem statements_of_instructions (instructions : ∀ segment ∈ text.segments 0, segment.form = .instruction) :
    (readBlock text).statements = readBlock text := by
  rw [readBlock_eq, List.map_map]
  generalize text.segments 0 = segments at instructions
  induction segments with
  | nil => rfl
  | cons segment segments ih =>
    obtain ⟨own, others⟩ := List.forall_mem_cons.1 instructions
    obtain ⟨form, offset, span⟩ := segment
    obtain rfl : form = .instruction := own
    have none := within_instruction span
    have behind := ih others
    show readPart (.instruction, span) :: ((readPart (.instruction, span)).val.within ++ _) = _
    rw [none, List.nil_append]
    exact congrArg (_ :: ·) behind

/-- What is within a statement is read from behind its beginning, if shorter texts
are read so. -/
theorem lays_within (form : Segment.Form) (isWhole : whole = front ++ (text ++ behind))
    (shorter : LaysShorter whole text.length) :
    Lays whole (front.length + 1) (front.length + text.length)
      (readPart (form, text)).val.within := by
  cases form with
  | instruction =>
    rw [within_instruction]
    exact .nil
  | block =>
    have reads : Reads _ (readForm .block text) := reads_readCompound text
    rw [readPart]
    dsimp only
    generalize readForm .block text = result at reads
    cases reads with
    | refused => exact .nil
    | ok own =>
      obtain ⟨⟨bodies, isBodies, same⟩, -⟩ := own
      simp only [same]
      exact lays_bodies isBodies isWhole shorter

/-- The statements of a text are read from it one behind the other, if shorter
texts are read so. -/
theorem lays_segments (offset : Nat) (isWhole : whole = front ++ (text ++ behind))
    (apart : Span.Apart front text)
    (shorter : LaysShorter whole text.length) :
    Lays whole front.length (front.length + text.length) (blockStatements
      ((text.segments offset).map fun segment => readPart (segment.form, segment.span))) := by
  fun_induction Span.segments offset text generalizing front behind with
  | case1 => exact .nil
  | case2 =>
    rename_i text c tail skipped first begins ih
    obtain ⟨terminators, isTerminators⟩ : ∃ terminators, terminators = text.takeWhile (·.val == ';') :=
      ⟨_, rfl⟩
    obtain ⟨own, isOwn⟩ := Span.exists_firstStatement tail (Span.head_skipTerminators skipped)
    have isFirst : first.span ++ first.rest = c :: tail := Span.append_firstStatement (c :: tail)
    have isText : text = terminators ++ (first.span ++ first.rest) := by
      rw [isFirst, ← skipped, isTerminators]
      exact (List.takeWhile_append_dropWhile).symm
    have ends : Span.EndsNoWord (front ++ terminators) := isTerminators ▸ apart.endsNoWord skipped
    have isPiece : whole = (front ++ terminators) ++ (first.span ++ (first.rest ++ behind)) := by
      rw [isWhole, isText]
      simp
    have isRest : whole = (front ++ terminators ++ first.span) ++ (first.rest ++ behind) := by
      rw [isPiece]
      simp
    have length := congrArg List.length isText
    have some : 0 < first.span.length := by rw [isOwn]; simp
    simp only [List.length_append] at length
    have apart' : Span.Apart (front ++ terminators ++ first.span) first.rest :=
      (Span.apart_firstStatement (c :: tail)).append (List.length_pos_iff.1 some) _
    have read : ReadAt whole (front ++ terminators).length (readPart (first.form, first.span)) := by
      rw [isOwn] at isPiece ⊢
      exact .piece first.form isPiece ends (Span.head_skipTerminators skipped)
    have inside := lays_within first.form isPiece (shorter.mono (by omega))
    have others := ih isRest apart' (shorter.mono (by omega))
    simp only [List.length_append] at read inside others
    rw [List.map_cons]
    refine .cons (Nat.le_add_right _ _) (by omega) read ?_
    exact inside.append (others.mono (Nat.le_refl _) (by omega)) (by omega) (by omega)

/-- **The statements of a text are read from it one behind the other**, at every
depth. -/
theorem lays_readBlock (text : Span) {front behind : Span}
    (isWhole : whole = front ++ (text ++ behind)) (apart : Span.Apart front text) :
    Lays whole front.length (front.length + text.length) (readBlock text).statements := by
  rw [readBlock_eq, List.map_map]
  exact lays_segments 0 isWhole apart fun {_ body _} isWhole shorter ends =>
    lays_readBlock body isWhole (.inl ends)
termination_by text.length

-- ===================================================================== lines

variable {source : List Char} {traced : List Traced} {place place' : Nat} {t : Located Stmt}

/-- A statement that begins at a place of a trace with a character of the source,
and stands on the line of that character. -/
def BeginsAt (source : List Char) (traced : List Traced) (place : Nat) (s : Located Stmt) : Prop :=
  ∃ begins, traced[place]? = some begins ∧ source[begins.place]? = some begins.char.val ∧
    s.line = lineOf source begins.place

/-- **A statement stands on the line of its first character in the source.** -/
theorem ReadAt.beginsAt (read : ReadAt (traced.map Traced.char) place s)
    (exact : Traced.Exact source none traced) : BeginsAt source traced place s := by
  cases read with
  | @piece form front rest behind c isWhole ends noTerminator =>
    obtain ⟨before, others, isTraced, rfl, isRest⟩ := List.map_eq_append_iff.1 isWhole
    obtain ⟨begins, others, rfl, rfl, -⟩ := List.map_eq_cons_iff.1 isRest
    have line := exact.line begins (by simp [isTraced])
    rw [isTraced] at exact
    refine ⟨begins, by simp [isTraced], exact.right.copied_of_apart noTerminator ?_, ?_⟩
    · intro d last
      obtain ⟨e, isLast, rfl⟩ : ∃ e, (before.map Traced.char).getLast? = some e ∧ e.val = d := by
        simpa [lastGiven] using last
      exact ends e isLast
    · rw [← line]
      exact (standsAt_readPart form _).1.line

/-- A statement that begins behind another one stands on no earlier line. -/
theorem BeginsAt.line_le (begins : BeginsAt source traced place s)
    (begins' : BeginsAt source traced place' t) (exact : Traced.Exact source none traced)
    (before : place < place') : s.line ≤ t.line := by
  obtain ⟨c, here, -, line⟩ := begins
  obtain ⟨d, here', -, line'⟩ := begins'
  obtain ⟨inside, rfl⟩ := List.getElem?_eq_some_iff.1 here
  obtain ⟨inside', rfl⟩ := List.getElem?_eq_some_iff.1 here'
  rw [line, line']
  exact lineOf_mono source (List.pairwise_iff_getElem.1 exact.ascends place place' inside inside' before)

theorem Lays.lines_ascend (lays : Lays (traced.map Traced.char) first last statements)
    (exact : Traced.Exact source none traced) :
    (statements.map Located.line).Pairwise (· ≤ ·) := by
  induction lays with
  | nil => exact .nil
  | cons _ _ read behind ih =>
    refine .cons (List.forall_mem_map.2 fun t mem => ?_) ih
    obtain ⟨place', noEarlier, read'⟩ := behind.exists_of_mem mem
    exact (read.beginsAt exact).line_le (read'.beginsAt exact) exact noEarlier

end Stmt

/-- **Lines are exact.** Every accepted source has a trace, whose characters are
those of the normalized text and each come from a place of the source. The line
table has one entry for each byte of the text, which is the line of the place
that the character of the byte comes from, and its entries do not go down.

The program is that of the parser that finds lines by offsets. Its statements,
at every depth and in the order in which they are written, are read from pieces
of the text that begin one behind the other. Each of them stands on the line of
its first character in the source; the lines do not go down; and a statement
that could not be read raises its fault on its own line. -/
theorem Block.lines_exact {source : String} {program : Block}
    (accepted : Block.ofSource source = .ok program) :
    ∃ (traced : List Traced) (text : Span),
      Span.trace source = .ok traced ∧ Traced.Exact source.toList none traced ∧
      text = traced.map Traced.char ∧ Span.normalize source = .ok text ∧
      (text.byteLines.length = text.text.utf8ByteSize ∧
        (∀ front t behind, traced = front ++ t :: behind → ∀ i < t.char.val.utf8Size,
          text.byteLines[Span.bytes (front.map Traced.char) + i]? =
            some (lineOf source.toList t.place)) ∧
        text.byteLines.Pairwise (· ≤ ·)) ∧
      ByOffset.program source = .ok program ∧
      (∃ places : List Nat, places.Pairwise (· < ·) ∧
        List.Forall₂ (fun place s => Stmt.ReadAt text place s ∧
          Stmt.BeginsAt source.toList traced place s) places program.statements) ∧
      (program.statements.map Located.line).Pairwise (· ≤ ·) ∧
      ∀ s ∈ program.statements, ∀ fault, s.val = .invalid fault → fault.line = some s.line := by
  obtain ⟨text, normal, rfl⟩ := exists_of_ofSource accepted
  obtain ⟨traced, traces, rfl⟩ := Span.exists_trace normal
  have exact : Traced.Exact source.toList none traced :=
    (Layout.exact_trace [] rfl (Layout.remembers_of_forgets rfl) traces).1
  have lays : Stmt.Lays (traced.map Traced.char) 0 _ (Stmt.readBlock _).statements :=
    Stmt.lays_readBlock _ (List.append_nil _).symm (.inl Span.endsNoWord_nil)
  obtain ⟨places, reads, ascends, -⟩ := lays.exists_places
  refine ⟨traced, _, traces, exact, rfl, normal, exact.table, ?_, ⟨places, ascends, ?_⟩,
    lays.lines_ascend exact, fun s mem => (lines_of_ofSource accepted s mem).2⟩
  · rw [ByOffset.program_eq, accepted]
    rfl
  · exact reads.imp fun place s read => ⟨read, read.beginsAt exact⟩

/-- A definition whose parameters are on a line of their own, with a comment and
a statement that cannot be read. -/
theorem Block.lines_exact_of_define :
    let source := "def f(\n  a) \x7b # \x7d\n\n  make # é\n  del é\n\x7d"
    ∃ (program : Block) (traced : List Traced) (places : List Nat),
      ofSource source = .ok program ∧ program.statements.map Located.line = [1, 4, 5] ∧
      Span.trace source = .ok traced ∧
      List.Forall₂ (Stmt.BeginsAt source.toList traced) places program.statements := by
  intro source
  obtain ⟨header, isHeader⟩ : ∃ header, header = Span.ofString "def f(" 1 ++ Span.ofString "a)" 2 :=
    ⟨_, rfl⟩
  obtain ⟨body, isBody⟩ : ∃ body, body = Span.ofString ";" 2 ++ Span.ofString ";" 3 ++
      Span.ofString "make;" 4 ++ Span.ofString "del é;" 5 := ⟨_, rfl⟩
  obtain ⟨text, isText⟩ : ∃ text, text = header ++ Span.ofString "\x7b" 2 ++ body ++
      Span.ofString "\x7d" 6 := ⟨_, rfl⟩
  have normal : Span.normalize source = .ok text := by
    subst_vars
    decide +kernel
  have whole : (text.segments 0).map (fun segment => (segment.form, segment.span)) = [(.block, text)] := by
    subst_vars
    decide +kernel
  have cut : Stmt.cut? text = some ⟨header, body, []⟩ := by
    subst_vars
    rfl
  have scanned : Token.scan header.chars =
      .ok [.name "def", .name "f", .mark .lparen, .name "a", .mark .rparen] := by
    subst_vars
    decide +kernel
  have within : (Stmt.readBlock body).statements.map Located.line = [4, 5] := by
    have instructions : ∀ segment ∈ body.segments 0, segment.form = .instruction := by
      subst_vars
      decide +kernel
    rw [Stmt.statements_of_instructions instructions, Stmt.lines_readBlock]
    subst_vars
    decide +kernel
  have read : Stmt.readForm .block text = .ok (.define "f" ["a"] (Stmt.readBlock body)) :=
    Stmt.readCompound_withBody cut scanned fun _ => rfl
  have accepted : ofSource source = .ok (Stmt.readBlock text) := by
    rw [ofSource, normal]
    rfl
  have first : text.firstLine = 1 := by
    subst_vars
    rfl
  have lines : (Stmt.readBlock text).statements.map Located.line = [1, 4, 5] := by
    rw [Stmt.readBlock_eq, whole, List.map_singleton, Stmt.readPart_of_ok read, first]
    show 1 :: ((Stmt.readBlock body).statements ++ []).map Located.line = _
    rw [List.append_nil, within]
  obtain ⟨traced, _, traces, -, rfl, -, -, -, ⟨places, -, stands⟩, -⟩ := lines_exact accepted
  exact ⟨_, traced, places, accepted, lines, traces, stands.imp fun _ _ own => own.2⟩

end RoutineScript
