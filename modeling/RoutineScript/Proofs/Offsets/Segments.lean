/-
Cutting a text into statements by offsets: which parts continue a block, how
far a statement reaches, and where the next one begins.

# The argument

Each function is met at the front of a text, `before`, whose length is the
offset, and finds what the parser that runs finds in the rest. Where a block
ends is the offset of its last byte, so behind it the front is one longer
(`lastOf_append`). An unclosed block ends with the text, whose last offset
exists because a brace has been found in it; and a slice that ends with a
brace ends with a character of one byte, so that the offset behind it is one
between characters.
-/
import RoutineScript.Proofs.Offsets.Searches
import RoutineScript.Proofs.Source.Shifting

namespace RoutineScript

namespace ByOffset

/-- Where the part closes that continues a block from an offset on, if one
does. -/
def continuation (text : Span) (start : Nat) : Checked (Option Nat) := do
  let start := skipTerminators text start
  let rest ← slice text start text.bytes
  let opens ←
    if rest.startsWith "elseif(" then findUnquoted text start '\x7b'.toUInt8
    else if rest.startsWith "else\x7b" then .ok (some (start + "else".utf8ByteSize))
    else if rest.startsWith "catch\x7b" then .ok (some (start + "catch".utf8ByteSize))
    else .ok none
  match opens with
  | none => return none
  | some opens => matchingClose text opens

/-- Where the last part closes of a block that has been closed at `last`. -/
def lastOf (text : Span) (last : Nat) : Checked Nat :=
  match continuation text (last + 1) with
  | .error stop => .error stop
  | .ok none => .ok last
  | .ok (some next) =>
    if _shorter : text.bytes - next < text.bytes - last then lastOf text next
    else .error (.panic .endless)
termination_by text.bytes - last

/-- Where the block ends whose first brace opens at `place`: with its last part,
or with the text when the brace never closes. -/
def blockEnd (text : Span) (place : Nat) : Checked Nat := do
  match ← matchingClose text place with
  | some last => lastOf text last
  | none => lastOf text (← pred text.bytes)

/-- The statement that begins at an offset, and where the next one may. -/
def segmentAt (text : Span) (base start : Nat) : Checked (Segment × Nat) := do
  match ← findBoundary text start with
  | some (place, b) =>
    if b == '\x7b'.toUInt8 then
      let last ← blockEnd text place
      let span ← slice text start (last + 1)
      return (⟨.block, base + start, span⟩, last + 1)
    else
      let span ← slice text start place
      return (⟨.instruction, base + start, span⟩, place + 1)
  | none =>
    let span ← slice text start text.bytes
    return (⟨.instruction, base + start, span⟩, text.bytes)

/-- The statements of a text from a position on. The text begins at byte
`base` of the script. -/
def segmentsFrom (text : Span) (base position : Nat) : Checked (List Segment) :=
  let start := skipTerminators text position
  if text.bytes ≤ start then .ok []
  else
    match segmentAt text base start with
    | .error stop => .error stop
    | .ok (segment, next) =>
      if _shorter : text.bytes - next < text.bytes - position then
        (segmentsFrom text base next).map (segment :: ·)
      else .error (.panic .endless)
termination_by text.bytes - position

/-- The statements of a text that begins at byte `base` of the script. -/
def segments (text : Span) (base : Nat) : Checked (List Segment) :=
  segmentsFrom text base 0

-- ================================================================ enclosures

section Enclosing

variable {before rest body behind : Span}

/-- A scan stops at a character that stops it. -/
theorem exists_stop_of_splitWhere {σ : Type} {advance : σ → Char → σ} {stops : σ → Char → Bool}
    {state : σ} {text front back : Span}
    (cut : Span.splitWhere advance stops state text = some (front, back)) :
    ∃ state' c tail, back = c :: tail ∧ stops state' c.val = true := by
  induction text generalizing state front with
  | nil => cases cut
  | cons c text ih =>
    rw [Span.splitWhere] at cut
    split at cut
    case isTrue stop =>
      obtain ⟨rfl, rfl⟩ := Prod.mk.inj (Option.some.inj cut)
      exact ⟨state, c, text, rfl, stop⟩
    case isFalse =>
      obtain ⟨⟨front', back'⟩, cut', same⟩ := Option.map_eq_some_iff.1 cut
      obtain ⟨rfl, rfl⟩ := Prod.mk.inj same
      exact ih cut'

/-- What is enclosed stands between two delimiters of one byte each. -/
theorem exists_of_enclosed? (enclosed : rest.enclosed? = some (body, behind)) :
    ∃ opener closer : Located Char, rest = opener :: (body ++ closer :: behind) ∧
      opener.val.utf8Size = 1 ∧ closer.val.utf8Size = 1 ∧
        rest.splitClosing = some (opener :: body, closer :: behind) := by
  obtain ⟨⟨front, back⟩, closes, same⟩ := Option.map_eq_some_iff.1 enclosed
  obtain ⟨rfl, rfl⟩ := Prod.mk.inj same
  cases rest with
  | nil => cases closes
  | cons opener rest =>
    cases isCloser : Span.closerOf? opener.val with
    | none => simp only [Span.splitClosing, isCloser, reduceCtorEq] at closes
    | some mark =>
      obtain ⟨narrow, narrow', differ⟩ := narrow_of_closerOf? isCloser
      have cut := closes
      simp only [Span.splitClosing, isCloser] at cut
      have whole := Span.append_of_splitWhere _ _ cut
      obtain ⟨state, closer, tail, rfl, stop⟩ := exists_stop_of_splitWhere cut
      have isMark : closer.val = mark := by
        simp only [Bool.and_eq_true, beq_iff_eq] at stop
        exact stop.1.2
      cases front with
      | nil =>
        obtain ⟨rfl, -⟩ := List.cons.inj whole
        exact absurd isMark.symm differ
      | cons first front =>
        obtain ⟨rfl, rfl⟩ := List.cons.inj whole
        exact ⟨first, closer, rfl, utf8Size_of_narrow narrow,
          utf8Size_of_narrow (isMark ▸ narrow'), closes⟩

/-- Where an enclosing delimiter closes. -/
theorem exists_matchingClose (before : Span) (enclosed : rest.enclosed? = some (body, behind)) :
    ∃ opener closer : Located Char, rest = opener :: (body ++ closer :: behind) ∧
      opener.val.utf8Size = 1 ∧ closer.val.utf8Size = 1 ∧
        matchingClose (before ++ rest) before.bytes = .ok (some (before.bytes + 1 + body.bytes)) := by
  obtain ⟨opener, closer, whole, single, single', closes⟩ := exists_of_enclosed? enclosed
  refine ⟨opener, closer, whole, single, single', ?_⟩
  rw [matchingClose_append, closes]
  simp only [Option.map_some, Span.bytes, single, Nat.add_assoc]

theorem matchingClose_of_none (before : Span) (unclosed : rest.enclosed? = none) :
    matchingClose (before ++ rest) before.bytes = .ok none := by
  rw [matchingClose_append, Option.map_eq_none_iff.1 unclosed, Option.map_none]

/-- The front of a text up to a place, and what stands there. -/
theorem exists_findUnquoted (before rest : Span) :
    (rest.splitUnquoted '{' = none ∧
      findUnquoted (before ++ rest) before.bytes '{'.toUInt8 = .ok none) ∨
    ∃ header braced, rest.splitUnquoted '{' = some (header, braced) ∧ rest = header ++ braced ∧
      findUnquoted (before ++ rest) before.bytes '{'.toUInt8 =
        .ok (some (Span.bytes (before ++ header))) := by
  rw [findUnquoted_append (by decide)]
  cases cut : rest.splitUnquoted '{' with
  | none => exact .inl ⟨rfl, rfl⟩
  | some pieces =>
    obtain ⟨header, braced⟩ := pieces
    refine .inr ⟨header, braced, rfl, (Span.append_of_splitWhere _ _ cut).symm, ?_⟩
    rw [Option.map_some, Span.bytes_append]

end Enclosing

-- ============================================================= continuations

section Continuing

variable {before rest behind : Span}

/-- A text that begins with letters and a brace is cut behind the letters. -/
theorem exists_of_letters {letters : List Char}
    (plain : ∀ c ∈ letters, Narrow c ∧ Quote.isMark c = false ∧ c ≠ '{')
    (begins : letters ++ ['{'] <+: rest.chars) :
    ∃ word : Span, rest.splitUnquoted '{' = some (word, rest.drop letters.length) ∧
      rest = word ++ rest.drop letters.length ∧ word.bytes = letters.length := by
  induction letters generalizing rest with
  | nil =>
    cases rest with
    | nil => exact absurd begins (by simp [Span.chars])
    | cons c rest =>
      have isBrace : c.val = '{' := by simpa [Span.chars, eq_comm] using begins
      exact ⟨[], by simp [Span.splitUnquoted, Span.splitWhere, isBrace], rfl, rfl⟩
  | cons letter letters ih =>
    obtain ⟨⟨narrow, noMark, noBrace⟩, others⟩ := List.forall_mem_cons.1 plain
    cases rest with
    | nil => exact absurd begins (by simp [Span.chars])
    | cons c rest =>
      obtain ⟨isLetter, begins'⟩ : letter = c.val ∧ letters ++ ['{'] <+: Span.chars rest := by
        simpa [Span.chars] using begins
      obtain ⟨word, cut, whole, length⟩ := ih others begins'
      refine ⟨c :: word, ?_, congrArg (c :: ·) whole, ?_⟩
      · subst isLetter
        rw [Span.splitUnquoted] at cut ⊢
        simp [Span.splitWhere, noBrace, Quote.step, noMark, cut]
      · rw [Span.bytes, length, ← isLetter, utf8Size_of_narrow narrow, List.length_cons, Nat.add_comm]

theorem exists_of_else (begins : rest.startsWith "else\x7b" = true) :
    ∃ word : Span, rest.splitUnquoted '{' = some (word, rest.drop 4) ∧
      rest = word ++ rest.drop 4 ∧ word.bytes = 4 := by
  have begins' : ['e', 'l', 's', 'e'] ++ ['{'] <+: rest.chars :=
    List.isPrefixOf_iff_prefix.1 begins
  refine exists_of_letters (fun c mem => ?_) begins'
  simp only [List.mem_cons, List.not_mem_nil, or_false] at mem
  rcases mem with rfl | rfl | rfl | rfl <;> decide

theorem exists_of_catch (begins : rest.startsWith "catch\x7b" = true) :
    ∃ word : Span, rest.splitUnquoted '{' = some (word, rest.drop 5) ∧
      rest = word ++ rest.drop 5 ∧ word.bytes = 5 := by
  have begins' : ['c', 'a', 't', 'c', 'h'] ++ ['{'] <+: rest.chars :=
    List.isPrefixOf_iff_prefix.1 begins
  refine exists_of_letters (fun c mem => ?_) begins'
  simp only [List.mem_cons, List.not_mem_nil, or_false] at mem
  rcases mem with rfl | rfl | rfl | rfl | rfl <;> decide

/-- A part that continues a block closes where the parser that runs says. -/
theorem continuation_append (before rest : Span) :
    (rest.continuation? = none ∧ continuation (before ++ rest) before.bytes = .ok none) ∨
    ∃ front behind last, rest.continuation? = some behind ∧ before ++ rest = front ++ behind ∧
      Span.bytes front = last + 1 ∧ before.bytes ≤ last ∧
        continuation (before ++ rest) before.bytes = .ok (some last) := by
  obtain ⟨front, whole, skips, length⟩ := exists_skipTerminators before rest
  have begun : before.bytes ≤ front.bytes := by omega
  -- a brace behind the word of the part
  have closes : ∀ header braced : Span, rest.skipTerminators = header ++ braced →
      (braced.enclosed? = none ∧
        matchingClose (before ++ rest) (Span.bytes (front ++ header)) = .ok none) ∨
      ∃ back behind last, braced.enclosed?.map Prod.snd = some behind ∧
        before ++ rest = back ++ behind ∧ Span.bytes back = last + 1 ∧ before.bytes ≤ last ∧
          matchingClose (before ++ rest) (Span.bytes (front ++ header)) = .ok (some last) := by
    intro header braced part
    have whole' : before ++ rest = (front ++ header) ++ braced := by
      rw [whole, part, List.append_assoc]
    rw [whole']
    cases enclosed : braced.enclosed? with
    | none => exact .inl ⟨rfl, matchingClose_of_none _ enclosed⟩
    | some cut =>
      obtain ⟨body, behind⟩ := cut
      obtain ⟨opener, closer, rfl, single, single', found⟩ :=
        exists_matchingClose (front ++ header) enclosed
      refine .inr ⟨front ++ header ++ opener :: (body ++ [closer]), behind, _, rfl, by simp, ?_,
        ?_, found⟩
      · simp only [Span.bytes_append, Span.bytes, single, single']
        omega
      · rw [Span.bytes_append]
        omega
  have sliced : slice (before ++ rest) front.bytes (Span.bytes (before ++ rest)) =
      .ok rest.skipTerminators := by
    rw [whole]
    exact slice_behind front _
  rw [continuation, skips, sliced]
  simp only [Checked.ok_bind, Span.continuation?]
  split
  case isTrue =>
    have found := exists_findUnquoted front rest.skipTerminators
    rw [← whole] at found
    rcases found with ⟨missing, found⟩ | ⟨header, braced, cut, part, found⟩
    · rw [found, missing]
      exact .inl ⟨rfl, rfl⟩
    · rw [found, cut]
      rcases closes header braced part with ⟨unclosed, closed⟩ | ⟨back, behind, last, isBehind, facts⟩
      · exact .inl ⟨by simp [unclosed], closed⟩
      · exact .inr ⟨back, behind, last, isBehind, facts⟩
  case isFalse =>
    split
    case isTrue begins =>
      obtain ⟨word, -, part, size⟩ := exists_of_else begins
      have place : front.bytes + "else".utf8ByteSize = Span.bytes (front ++ word) := by
        rw [Span.bytes_append, size]
        rfl
      simp only [place]
      rcases closes word _ part with ⟨unclosed, closed⟩ | ⟨back, behind, last, isBehind, facts⟩
      · exact .inl ⟨by simp [unclosed], closed⟩
      · exact .inr ⟨back, behind, last, isBehind, facts⟩
    case isFalse =>
      split
      case isTrue begins =>
        obtain ⟨word, -, part, size⟩ := exists_of_catch begins
        have place : front.bytes + "catch".utf8ByteSize = Span.bytes (front ++ word) := by
          rw [Span.bytes_append, size]
          rfl
        simp only [place]
        rcases closes word _ part with ⟨unclosed, closed⟩ | ⟨back, behind, last, isBehind, facts⟩
        · exact .inl ⟨by simp [unclosed], closed⟩
        · exact .inr ⟨back, behind, last, isBehind, facts⟩
      case isFalse => exact .inl ⟨rfl, rfl⟩

/-- The last part of a block closes where the parser that runs says. -/
theorem lastOf_append {last : Nat} (closed : before.bytes = last + 1) (rest : Span) :
    ∃ front last', before ++ rest = front ++ rest.afterContinuations ∧
      Span.bytes front = last' + 1 ∧ lastOf (before ++ rest) last = .ok last' := by
  fun_induction Span.afterContinuations rest generalizing before last with
  | case1 rest ends =>
    refine ⟨before, last, rfl, closed, ?_⟩
    rcases continuation_append before rest with ⟨-, found⟩ | ⟨_, _, _, goesOn, -⟩
    · rw [lastOf, ← closed, found]
    · cases ends.symm.trans goesOn
  | case2 rest behind goesOn ih =>
    rcases continuation_append before rest with ⟨ends, -⟩ |
      ⟨front, behind', next, goesOn', whole, closed', later, found⟩
    · cases goesOn.symm.trans ends
    · obtain rfl := Option.some.inj (goesOn.symm.trans goesOn')
      obtain ⟨front', last', whole', closed'', isLast⟩ := ih closed'
      refine ⟨front', last', whole.trans whole', closed'', ?_⟩
      have inside : last < Span.bytes (before ++ rest) := by
        rw [Span.bytes_append]
        omega
      rw [lastOf, ← closed, found]
      simp only
      rw [dif_pos (by omega), whole, isLast]

end Continuing

-- ================================================================ statements

section Segmenting

variable {before rest tail : Span} {c : Located Char}

/-- A terminator in front of a text belongs to no statement. -/
theorem segments_terminator (terminator : c.val = ';') (offset : Nat) (rest : Span) :
    Span.segments offset (c :: rest) = Span.segments (offset + 1) rest := by
  have skipped : Span.skipTerminators (c :: rest) = rest.skipTerminators :=
    List.dropWhile_cons_of_pos (by simp [terminator])
  have single : c.val.utf8Size = 1 := by rw [terminator]; rfl
  cases left : rest.skipTerminators with
  | nil => rw [Span.segments, Span.segments, skipped, left]
  | cons d tail =>
    rw [Span.segments_of_skipTerminators (skipped.trans left),
      Span.segments_of_skipTerminators left, List.takeWhile_cons_of_pos (by simp [terminator])]
    simp only [Span.bytes, single, Nat.add_assoc]

/-- What follows no statement is not continued. -/
theorem afterContinuations_nil : Span.afterContinuations [] = [] :=
  List.suffix_nil.1 (Span.afterContinuations_suffix [])

/-- A block reaches, with all its parts, to where the parser that runs cuts it
off. -/
theorem exists_block {front back : Span} {brace : Located Char} (before : Span)
    (cut : rest.splitBoundary = some (front, brace :: back)) (opens : brace.val = '\x7b') :
    ∃ block behind last, Span.firstStatement rest = ⟨.block, block, behind⟩ ∧
      rest = block ++ behind ∧ Span.bytes (before ++ block) = last + 1 ∧
        blockEnd (before ++ rest) (Span.bytes (before ++ front)) = .ok last := by
  obtain ⟨braced, isBraced⟩ : ∃ braced : Span, braced = brace :: back := ⟨_, rfl⟩
  rw [← isBraced] at cut
  have whole : rest = front ++ braced := (Span.append_of_splitWhere _ _ cut).symm
  have opens' : (braced.head?.any fun c => c.val == '{') = true := by
    simp [isBraced, opens]
  have whole' : before ++ rest = (before ++ front) ++ braced := by rw [whole, List.append_assoc]
  cases enclosed : braced.enclosed? with
  | none =>
    -- the last byte of the text
    obtain ⟨last, isLast⟩ : ∃ last, Span.bytes (before ++ rest) = last + 1 := by
      have := brace.val.utf8Size_pos
      refine ⟨Span.bytes (before ++ rest) - 1, ?_⟩
      simp only [whole, isBraced, Span.bytes_append, Span.bytes]
      omega
    obtain ⟨front', last', same, closed, found⟩ := lastOf_append isLast []
    rw [afterContinuations_nil, List.append_nil, List.append_nil] at same
    obtain rfl := same
    obtain rfl : last' = last := by omega
    rw [List.append_nil] at found
    have first : Span.firstStatement rest = ⟨.block, rest, []⟩ := by
      simp only [Span.firstStatement, cut, opens', ↓reduceIte, enclosed]
    refine ⟨rest, [], last', first, (List.append_nil _).symm, isLast, ?_⟩
    rw [blockEnd, isLast, whole', matchingClose_of_none _ enclosed, ← whole']
    exact found
  | some cut =>
    obtain ⟨body, after⟩ := cut
    obtain ⟨opener, closer, same, single, single', found⟩ :=
      exists_matchingClose (before ++ front) enclosed
    have closed : Span.bytes (before ++ front ++ opener :: (body ++ [closer])) =
        (Span.bytes (before ++ front) + 1 + body.bytes) + 1 := by
      simp only [Span.bytes_append, Span.bytes, single, single']
      omega
    have split : before ++ rest = (before ++ front ++ opener :: (body ++ [closer])) ++ after := by
      rw [whole', same]
      simp
    obtain ⟨front', last', isFront, closed', isLast⟩ := lastOf_append closed after
    obtain ⟨block, isBlock⟩ : after.afterContinuations <:+ rest :=
      after.afterContinuations_suffix.trans
        ⟨front ++ opener :: (body ++ [closer]), by simp [whole, same]⟩
    obtain rfl : before ++ block = front' := by
      rw [← split, ← isBlock, ← List.append_assoc] at isFront
      exact List.append_cancel_right isFront
    have upTo : Span.upTo rest after.afterContinuations = block := by
      rw [← isBlock, Span.upTo_append]
    have first : Span.firstStatement rest = ⟨.block, block, after.afterContinuations⟩ := by
      simp only [Span.firstStatement, cut, opens', ↓reduceIte, enclosed, upTo]
    refine ⟨block, after.afterContinuations, last', first, isBlock.symm, closed', ?_⟩
    rw [blockEnd, whole', found, ← whole', split]
    exact isLast

/-- One statement is cut off as the parser that runs does it, and the
statements behind it are those from the next position on. -/
theorem segmentAt_append (before tail : Span) (base : Nat) (noTerminator : c.val ≠ ';') :
    ∃ front behind : Span, before ++ c :: tail = front ++ behind ∧
      behind.length < (c :: tail).length ∧
      segmentAt (before ++ c :: tail) base before.bytes =
        .ok (⟨(Span.firstStatement (c :: tail)).form, base + before.bytes,
          (Span.firstStatement (c :: tail)).span⟩, front.bytes) ∧
      Span.segments (base + before.bytes + (Span.firstStatement (c :: tail)).span.bytes)
        (Span.firstStatement (c :: tail)).rest = Span.segments (base + front.bytes) behind := by
  have shorter : (Span.firstStatement (c :: tail)).rest.length < (c :: tail).length :=
    Span.length_firstStatement_lt noTerminator
  have found := findBoundary_append before (c :: tail)
  cases cut : Span.splitBoundary (c :: tail) with
  | none =>
    have first : Span.firstStatement (c :: tail) = ⟨.instruction, c :: tail, []⟩ := by
      rw [Span.firstStatement, cut]
    rw [cut, Option.map_none] at found
    rw [first] at shorter ⊢
    refine ⟨before ++ c :: tail, [], (List.append_nil _).symm, shorter, ?_, ?_⟩
    · rw [segmentAt, found]
      simp only [Checked.ok_bind, slice_behind]
      rfl
    · simp only [Span.bytes_append, Nat.add_assoc]
  | some pieces =>
    obtain ⟨front, boundary⟩ := pieces
    have whole : c :: tail = front ++ boundary := (Span.append_of_splitWhere _ _ cut).symm
    obtain ⟨⟨q, depth⟩, d, back, rfl, stop⟩ := exists_stop_of_splitWhere cut
    have kind : d.val = '\x7b' ∨ d.val = ';' := by
      simp only [Bool.and_eq_true, Bool.or_eq_true, beq_iff_eq] at stop
      exact stop.2.imp id And.left
    have narrow : Narrow d.val := by rcases kind with isMark | isMark <;> rw [isMark] <;> decide
    replace found : findBoundary (before ++ c :: tail) before.bytes =
        .ok (some (before.bytes + front.bytes, d.val.toUInt8)) := by
      rw [found, cut]
      simp [utf8_of_narrow narrow]
    rcases kind with brace | terminator
    · obtain ⟨block, behind, last, first, whole', closed, isLast⟩ := exists_block before cut brace
      rw [first] at shorter ⊢
      refine ⟨before ++ block, behind, by rw [whole', List.append_assoc], shorter, ?_, ?_⟩
      · have sliced : slice (before ++ c :: tail) before.bytes (last + 1) = .ok block := by
          rw [whole', ← closed, Span.bytes_append]
          exact slice_append before block behind
        rw [segmentAt, found]
        simp only [Checked.ok_bind, brace, beq_self_eq_true, ↓reduceIte, ← Span.bytes_append, isLast,
          sliced, closed]
        rfl
      · rw [Span.bytes_append, Nat.add_assoc]
    · have first : Span.firstStatement (c :: tail) = ⟨.instruction, front, d :: back⟩ := by
        rw [Span.firstStatement, cut]
        simp [terminator]
      have single : d.val.utf8Size = 1 := utf8Size_of_narrow narrow
      rw [first] at shorter ⊢
      refine ⟨before ++ front ++ [d], back, by simp [whole], by simp [whole]; omega, ?_, ?_⟩
      · have sliced : slice (before ++ c :: tail) before.bytes (before.bytes + front.bytes) =
            .ok front := by
          rw [whole]
          exact slice_append before front (d :: back)
        have differ : ((';' : Char).toUInt8 == '\x7b'.toUInt8) = false := rfl
        rw [segmentAt, found]
        simp only [Checked.ok_bind, terminator, differ, Bool.false_eq_true, ↓reduceIte, sliced,
          Span.bytes_append, Span.bytes]
        rfl
      · rw [segments_terminator terminator]
        simp only [Span.bytes_append, Span.bytes, single, Nat.add_assoc]

/-- With less behind it, a front of the same text is longer. -/
theorem bytes_lt_of_append {front front' behind : Span} (whole : front ++ rest = front' ++ behind)
    (shorter : behind.length < rest.length) : front.bytes < front'.bytes := by
  rcases List.append_eq_append_iff.1 whole with ⟨more, rfl, same⟩ | ⟨more, rfl, same⟩
  · cases more with
    | nil =>
      rw [same] at shorter
      exact absurd shorter (Nat.lt_irrefl _)
    | cons c more =>
      have := c.val.utf8Size_pos
      rw [Span.bytes_append, Span.bytes]
      omega
  · have := congrArg List.length same
    rw [List.length_append] at this
    omega

/-- **No check fails when a text is cut into statements**, and the statements
are those that the parser that runs finds. -/
theorem segmentsFrom_append (before rest : Span) (base : Nat) :
    segmentsFrom (before ++ rest) base before.bytes =
      .ok (rest.segments (base + before.bytes)) := by
  obtain ⟨front, whole, skips, length⟩ := exists_skipTerminators before rest
  rw [segmentsFrom, skips]
  cases left : rest.skipTerminators with
  | nil =>
    rw [left, List.append_nil] at whole
    rw [whole, Span.segments, left]
    simp
  | cons c tail =>
    rw [left] at whole
    obtain ⟨front', behind, whole', shorter, isFirst, others⟩ :=
      segmentAt_append front tail base (Span.head_skipTerminators left)
    have inside : ¬ Span.bytes (before ++ rest) ≤ front.bytes := by
      have := c.val.utf8Size_pos
      rw [whole, Span.bytes_append, Span.bytes]
      omega
    have less : behind.length < rest.length := by
      have := Span.length_skipTerminators_le rest
      rw [left] at this
      omega
    have goesOn := segmentsFrom_append front' behind base
    rw [← whole', ← whole] at goesOn
    rw [← whole] at isFirst
    have measure : Span.bytes (before ++ rest) - front'.bytes <
        Span.bytes (before ++ rest) - before.bytes := by
      have := bytes_lt_of_append whole' shorter
      omega
    have begins : base + before.bytes + Span.bytes (rest.takeWhile (·.val == ';')) =
        base + front.bytes := by
      omega
    simp only [isFirst]
    rw [if_neg inside, dif_pos measure, goesOn, Span.segments_of_skipTerminators left, ← others]
    simp only [begins]
    rfl
termination_by rest.length

theorem segments_eq (text : Span) (base : Nat) :
    segments text base = .ok (text.segments base) :=
  segmentsFrom_append [] text base

end Segmenting

end ByOffset

end RoutineScript
