/-
The searches of the parser over bytes: for the end of a statement, for a
brace that opens, for the delimiter that closes another, and past the
terminators. From a boundary between characters each finds the place at which
the parser that runs cuts the text. The search for a closing delimiter may be
asked for any offset, also for one inside a character or behind the end; there
it finds nothing.
-/
import RoutineScript.Proofs.Offsets.Walks

namespace RoutineScript

namespace ByOffset

-- ================================================================= searches

/-- The first brace that opens, or the first terminator outside of parentheses
and brackets, at or behind an offset, and which of the two it is. -/
def findBoundary (text : Span) (start : Nat) : Checked (Option (Nat × UInt8)) :=
  walk boundary .start start (text.utf8.drop start)

/-- The first occurrence of a byte outside of literals, at or behind an
offset. -/
def findUnquoted (text : Span) (start : Nat) (wanted : UInt8) : Checked (Option Nat) := do
  return (← walk (target wanted) .start start (text.utf8.drop start)).map Prod.fst

/-- The byte that closes a delimiter. -/
def closerOf? (opener : UInt8) : Option UInt8 :=
  if opener == '('.toUInt8 then some ')'.toUInt8
  else if opener == '['.toUInt8 then some ']'.toUInt8
  else if opener == '\x7b'.toUInt8 then some '\x7d'.toUInt8
  else none

/-- Where the delimiter closes that opens at an offset. -/
def matchingClose (text : Span) (start : Nat) : Checked (Option Nat) :=
  match text.utf8[start]? with
  | none => .ok none
  | some opener =>
    match closerOf? opener with
    | none => .ok none
    | some closer => do
      return (← walk (closing opener closer) .start start (text.utf8.drop start)).map Prod.fst

/-- The first offset at or behind `start` without a terminator. -/
def skipTerminators (text : Span) (start : Nat) : Nat :=
  start + ((text.utf8.drop start).takeWhile (· == ';'.toUInt8)).length

-- ============================================================ the boundaries

theorem beq_toUInt8 {c : Char} (narrow : Narrow c) {d : Char} (narrow' : Narrow d) :
    (c.toUInt8 == d.toUInt8) = (c == d) := by
  rw [Bool.eq_iff_iff, beq_iff_eq, beq_iff_eq, toUInt8_inj narrow narrow']

theorem beq_toUInt8_of_wide {b : UInt8} (wide : 128 ≤ b.toNat) {d : Char}
    (narrow : Narrow d) : (b == d.toUInt8) = false :=
  beq_eq_false_iff_ne.2 (ne_toUInt8 wide narrow)

theorem beq_of_wide {c : Char} (wide : ¬ Narrow c) {d : Char} (narrow : Narrow d) :
    (c == d) = false :=
  beq_eq_false_iff_ne.2 (ne_of_wide wide narrow)

/-- The scan for the end of a statement. -/
def boundaryScan : Scan where
  weigh depth c :=
    if c == '(' || c == '[' then depth + 1
    else if c == ')' || c == ']' then depth - 1
    else depth
  stop depth c := c == '{' || (c == ';' && depth == 0)

theorem mirrors_boundary : Mirrors boundary boundaryScan fun _ => True where
  narrow {depth c} _ narrow := by
    simp (disch := decide) only [boundary, beq_toUInt8 narrow]
    by_cases opens : c = '(' ∨ c = '['
    · rcases opens with rfl | rfl <;> rfl
    · by_cases closes : c = ')' ∨ c = ']'
      · rcases closes with rfl | rfl <;> rfl
      · simp only [not_or] at opens closes
        by_cases stops : (c == '{' || (c == ';' && depth == 0)) = true
        · simp [boundaryScan, opens, closes, stops]
        · simp [boundaryScan, opens, closes, stops]
  wide wide := by
    simp (disch := decide) only [boundary, beq_toUInt8_of_wide wide, Bool.or_self, Bool.false_and,
      Bool.false_eq_true, ↓reduceIte]
  ignores _ _ wide := by
    simp (disch := decide) only [boundaryScan, beq_of_wide wide, Bool.or_self, Bool.false_and,
      Bool.false_eq_true, ↓reduceIte, and_self]
  keeps _ _ := trivial

theorem findBoundary_append (before rest : Span) :
    findBoundary (before ++ rest) before.bytes = .ok (rest.splitBoundary.map
      fun cut => (before.bytes + cut.1.bytes, cut.2.utf8.headD 0)) := by
  have advances : Span.countNesting = boundaryScan.advance := by
    funext ⟨q, depth⟩ c
    cases q <;> rfl
  rw [findBoundary, Span.drop_utf8, Span.splitBoundary, advances]
  exact walk_eq mirrors_boundary .outside 0 trivial before.bytes rest

-- ================================================================ characters

/-- The scan for a character. -/
def targetScan (wanted : Char) : Scan where
  weigh depth _ := depth
  stop _ c := c == wanted

theorem mirrors_target {wanted : Char} (narrow : Narrow wanted) :
    Mirrors (target wanted.toUInt8) (targetScan wanted) fun _ => True where
  narrow _ narrow' := by
    rw [target, beq_toUInt8 narrow' narrow]
    rfl
  wide wide := by
    simp only [target, beq_toUInt8_of_wide wide narrow, Bool.false_eq_true, ↓reduceIte]
  ignores _ _ wide := ⟨beq_of_wide wide narrow, rfl⟩
  keeps _ _ := trivial

theorem findUnquoted_append {wanted : Char} (narrow : Narrow wanted) (before rest : Span) :
    findUnquoted (before ++ rest) before.bytes wanted.toUInt8 =
      .ok ((rest.splitUnquoted wanted).map fun cut => before.bytes + cut.1.bytes) := by
  have same : ∀ q, Span.splitWhere Quote.step (fun q c => q == .outside && c == wanted) q rest =
      Span.splitWhere (targetScan wanted).advance (targetScan wanted).stops (q, 0) rest := by
    induction rest with
    | nil => intro q; rfl
    | cons c rest ih =>
      intro q
      rw [Span.splitWhere, Span.splitWhere, ih]
      cases q <;> rfl
  have walks := walk_eq (mirrors_target narrow) .outside 0 trivial before.bytes rest
  rw [findUnquoted, Span.drop_utf8, show Walker.start = .ofQuote 0 .outside from rfl, walks,
    Span.splitUnquoted, same]
  show Except.ok _ = Except.ok _
  rw [Option.map_map]
  rfl

-- ==================================================================== closing

/-- The scan for the delimiter that closes another. -/
def closingScan (opener closer : Char) : Scan where
  weigh depth c := if c == opener then depth + 1 else if c == closer then depth - 1 else depth
  stop depth c := c == closer && depth == 1

/-- The counter of delimiters never goes down from zero. -/
theorem mirrors_closing {opener closer : Char} (narrow : Narrow opener) (narrow' : Narrow closer)
    (differ : closer ≠ opener) :
    Mirrors (closing opener.toUInt8 closer.toUInt8) (closingScan opener closer)
      fun depth => 0 < depth where
  narrow {depth c} positive isNarrow := by
    obtain ⟨depth, rfl⟩ : ∃ less, depth = less + 1 := ⟨depth - 1, by omega⟩
    simp only [closing, closingScan, beq_toUInt8 isNarrow narrow,
      beq_toUInt8 isNarrow narrow']
    by_cases opens : c = opener
    · subst opens
      simp [Ne.symm differ]
    · by_cases closes : c = closer
      · subst closes
        cases depth <;> simp [opens, pred, pure, Except.pure]
      · simp [opens, closes]
  wide wide := by
    simp only [closing, beq_toUInt8_of_wide wide narrow,
      beq_toUInt8_of_wide wide narrow', Bool.false_eq_true, ↓reduceIte]
  ignores _ _ wide := by
    simp only [closingScan, beq_of_wide wide narrow, beq_of_wide wide narrow',
      Bool.false_and, Bool.false_eq_true, ↓reduceIte, and_self]
  keeps {depth c} positive goesOn := by
    simp only [closingScan, Bool.and_eq_false_iff, beq_eq_false_iff_ne] at goesOn ⊢
    split
    · omega
    · split
      case isTrue closes =>
        have := goesOn.resolve_left (fun other => other (beq_iff_eq.1 closes))
        omega
      case isFalse => exact positive

theorem closerOf?_toUInt8 {c : Char} (narrow : Narrow c) :
    closerOf? c.toUInt8 = (Span.closerOf? c).map Char.toUInt8 := by
  simp (disch := decide) only [closerOf?, beq_toUInt8 narrow, beq_iff_eq]
  by_cases paren : c = '('
  · subst paren
    rfl
  · by_cases bracket : c = '['
    · subst bracket
      rfl
    · by_cases brace : c = '\x7b'
      · subst brace
        rfl
      · simp [Span.closerOf?, paren, bracket, brace]

theorem closerOf?_of_wide {b : UInt8} (wide : 128 ≤ b.toNat) : closerOf? b = none := by
  simp (disch := decide) only [closerOf?, beq_toUInt8_of_wide wide, Bool.false_eq_true, ↓reduceIte]

/-- Delimiters are of one byte each, and differ. -/
theorem narrow_of_closerOf? {opener closer : Char} (closes : Span.closerOf? opener = some closer) :
    Narrow opener ∧ Narrow closer ∧ closer ≠ opener := by
  unfold Span.closerOf? at closes
  split at closes <;> cases closes <;> decide

/-- The first byte of a text. -/
theorem getElem?_utf8_append (before rest : Span) :
    (Span.utf8 (before ++ rest))[before.bytes]? = rest.utf8.head? := by
  rw [Span.utf8_append, ← Span.length_utf8, List.getElem?_append_right (Nat.le_refl _),
    Nat.sub_self, List.head?_eq_getElem?]

/-- A wide character begins with a byte that is no delimiter. -/
theorem exists_head_utf8 {c : Char} (wide : ¬ Narrow c) :
    ∃ b bytes, String.utf8EncodeChar c = b :: bytes ∧ 128 ≤ b.toNat := by
  cases bytes : String.utf8EncodeChar c with
  | nil =>
    have size := String.length_utf8EncodeChar c
    have := c.utf8Size_pos
    rw [bytes, List.length_nil] at size
    omega
  | cons b others =>
    exact ⟨b, others, rfl, le_of_mem_utf8 wide (bytes ▸ List.mem_cons_self)⟩

theorem matchingClose_append (before rest : Span) :
    matchingClose (before ++ rest) before.bytes =
      .ok (rest.splitClosing.map fun cut => before.bytes + cut.1.bytes) := by
  cases rest with
  | nil =>
    rw [matchingClose, getElem?_utf8_append]
    rfl
  | cons first rest =>
    by_cases narrow : Narrow first.val
    case neg =>
      obtain ⟨b, others, bytes, wide⟩ := exists_head_utf8 narrow
      have noCloser : Span.closerOf? first.val = none := by
        cases closes : Span.closerOf? first.val with
        | none => rfl
        | some closer => exact absurd (narrow_of_closerOf? closes).1 narrow
      rw [matchingClose, getElem?_utf8_append, Span.utf8_cons, bytes, Span.splitClosing, noCloser]
      simp only [List.cons_append, List.head?_cons, closerOf?_of_wide wide, Option.map_none]
    case pos =>
      rw [matchingClose, getElem?_utf8_append, Span.utf8_cons, utf8_of_narrow narrow,
        Span.splitClosing]
      simp only [List.singleton_append, List.head?_cons, closerOf?_toUInt8 narrow]
      cases closes : Span.closerOf? first.val with
      | none => rfl
      | some closer =>
        obtain ⟨-, narrow', differ⟩ := narrow_of_closerOf? closes
        have mirrors := mirrors_closing narrow narrow' differ
        have advances : Span.countDelimiter first.val closer =
            (closingScan first.val closer).advance := by
          funext ⟨q, depth⟩ c
          cases q <;> rfl
        have stops : (fun (state : Quote × Nat) c => state.1 == .outside && c == closer &&
            state.2 == 1) = (closingScan first.val closer).stops := by
          funext ⟨q, depth⟩ c
          exact Bool.and_assoc _ _ _
        have noMark : Quote.isMark first.val = false := by
          unfold Span.closerOf? at closes
          split at closes <;> simp_all [Quote.isMark]
        -- the opening delimiter itself is counted first
        have first_step : walk (closing first.val.toUInt8 closer.toUInt8) .start before.bytes
            (first.val.toUInt8 :: Span.utf8 rest) =
            walk (closing first.val.toUInt8 closer.toUInt8) (.ofQuote 1 .outside)
              (before.bytes + 1) (Span.utf8 rest) := by
          rw [walk]
          simp only [Walker.start, closing, beq_self_eq_true, ↓reduceIte, isQuote_toUInt8 narrow,
            noMark, Bool.false_eq_true, Nat.zero_add, Walker.ofQuote]
        have single := utf8Size_of_narrow narrow
        have notYet : (closingScan first.val closer).stops (.outside, 0) first.val = false := by
          simp [Scan.stops, closingScan]
        have counted : (closingScan first.val closer).advance (.outside, 0) first.val =
            (.outside, 1) := by
          simp [Scan.advance, closingScan, Quote.step, noMark]
        simp only [Option.map_some]
        rw [Span.drop_utf8, Span.utf8_cons, utf8_of_narrow narrow, List.singleton_append,
          first_step, walk_eq mirrors .outside 1 Nat.one_pos, advances, stops, Span.splitWhere,
          if_neg (by simp [notYet]), counted]
        show Except.ok _ = Except.ok _
        rw [Option.map_map, Option.map_map]
        congr 2
        funext cut
        simp only [Function.comp, Span.bytes, single, Nat.add_assoc]

-- =============================================================== any offset

/-- An offset is a boundary between characters, or behind the end, or inside a
character. -/
theorem offset_cases (text : Span) (start : Nat) :
    (∃ before rest : Span, text = before ++ rest ∧ before.bytes = start) ∨ text.bytes < start ∨
      ∃ (before : Span) (c : Located Char) (rest : Span), text = before ++ c :: rest ∧
        before.bytes < start ∧ start < before.bytes + c.val.utf8Size := by
  induction text generalizing start with
  | nil =>
    rcases Nat.eq_zero_or_pos start with rfl | positive
    · exact .inl ⟨[], [], rfl, rfl⟩
    · exact .inr (.inl positive)
  | cons c rest ih =>
    rcases Nat.eq_zero_or_pos start with rfl | positive
    · exact .inl ⟨[], c :: rest, rfl, rfl⟩
    rcases Nat.lt_or_ge start c.val.utf8Size with inside | behind
    · exact .inr (.inr ⟨[], c, rest, rfl, positive, by simpa [Span.bytes] using inside⟩)
    · rcases ih (start - c.val.utf8Size) with ⟨before, rest', rfl, isStart⟩ | past |
        ⟨before, d, rest', rfl, lower, upper⟩
      · refine .inl ⟨c :: before, rest', rfl, ?_⟩
        rw [Span.bytes, isStart]
        omega
      · refine .inr (.inl ?_)
        rw [Span.bytes]
        omega
      · refine .inr (.inr ⟨c :: before, d, rest', rfl, ?_, ?_⟩) <;>
          (rw [Span.bytes]; omega)

theorem fromByte_append (before rest : Span) : (before ++ rest).fromByte before.bytes = rest := by
  induction before with
  | nil => cases rest <;> rfl
  | cons c before ih =>
    have positive := c.val.utf8Size_pos
    have left : c.val.utf8Size + Span.bytes before - c.val.utf8Size = Span.bytes before :=
      Nat.add_sub_cancel_left ..
    rw [List.cons_append, Span.fromByte, Span.bytes, if_neg (by omega), left, ih]

theorem fromByte_of_lt {text : Span} {start : Nat} (past : text.bytes < start) :
    text.fromByte start = [] := by
  induction text generalizing start with
  | nil => rfl
  | cons c rest ih =>
    rw [Span.bytes] at past
    rw [Span.fromByte, if_neg (by omega)]
    exact ih (by omega)

theorem fromByte_inside {before rest : Span} {c : Located Char} {start : Nat}
    (lower : before.bytes < start) (upper : start < before.bytes + c.val.utf8Size) :
    (before ++ c :: rest).fromByte start = rest := by
  induction before generalizing start with
  | nil =>
    have done : start - c.val.utf8Size = 0 := by
      simp only [Span.bytes] at upper
      omega
    rw [List.nil_append, Span.fromByte, if_neg (by simp only [Span.bytes] at lower; omega), done]
    exact fromByte_append [] rest
  | cons d before ih =>
    rw [Span.bytes] at lower upper
    rw [List.cons_append, Span.fromByte, if_neg (by omega)]
    exact ih (by omega) (by omega)

/-- Inside a character no byte is a delimiter. -/
theorem exists_getElem?_utf8 {before : Span} (rest : Span) {c : Located Char} {start : Nat}
    (lower : before.bytes < start) (upper : start < before.bytes + c.val.utf8Size) :
    ∃ b, (Span.utf8 (before ++ c :: rest))[start]? = some b ∧ 128 ≤ b.toNat := by
  have wide : ¬ Narrow c.val := fun narrow => by
    have single := String.length_utf8EncodeChar c.val
    rw [utf8_of_narrow narrow, List.length_singleton] at single
    omega
  have inside : start - before.bytes < (String.utf8EncodeChar c.val).length := by
    rw [String.length_utf8EncodeChar]
    omega
  refine ⟨(String.utf8EncodeChar c.val)[start - before.bytes], ?_,
    le_of_mem_utf8 wide (List.getElem_mem inside)⟩
  rw [Span.utf8_append, Span.utf8_cons, List.getElem?_append_right (by simp; omega),
    List.getElem?_append_left (by simpa using inside), Span.length_utf8,
    List.getElem?_eq_getElem inside]

/-- **The search for a closing delimiter never fails a check**, whatever the
text and the offset, and finds the delimiter that is found in the text. -/
theorem matchingClose_eq (text : Span) (start : Nat) :
    matchingClose text start = .ok (text.matchingClose start) := by
  rcases offset_cases text start with ⟨before, rest, rfl, rfl⟩ | past |
    ⟨before, c, rest, rfl, lower, upper⟩
  · have there : Span.bytes (before ++ rest) - Span.bytes rest = before.bytes := by
      rw [Span.bytes_append, Nat.add_sub_cancel]
    rw [matchingClose_append, Span.matchingClose]
    simp only [fromByte_append, there, ↓reduceIte]
    cases closes : rest.splitClosing with
    | none => rfl
    | some cut =>
      obtain ⟨front, behind⟩ := cut
      have whole : front ++ behind = rest := by
        unfold Span.splitClosing at closes
        split at closes
        · cases closes
        · split at closes
          · cases closes
          · exact Span.append_of_splitWhere _ _ closes
      simp only [Option.map_some, ← whole, ← List.append_assoc, Span.bytes_append,
        Nat.add_sub_cancel]
  · have nothing : text.utf8[start]? = none := by
      rw [List.getElem?_eq_none_iff, Span.length_utf8]
      omega
    rw [matchingClose, nothing, Span.matchingClose, fromByte_of_lt past, if_neg]
    simp only [Span.bytes]
    omega
  · obtain ⟨b, isByte, wide⟩ := exists_getElem?_utf8 rest lower upper
    rw [matchingClose, isByte, Span.matchingClose, fromByte_inside lower upper, if_neg]
    · simp only [closerOf?_of_wide wide]
    · rw [Span.bytes_append, Span.bytes]
      omega

-- ============================================================== terminators

theorem length_takeWhile_utf8 (rest : Span) :
    (rest.utf8.takeWhile (· == ';'.toUInt8)).length =
      Span.bytes (rest.takeWhile (·.val == ';')) := by
  induction rest with
  | nil => rfl
  | cons c rest ih =>
    by_cases terminator : c.val = ';'
    · have bytes : String.utf8EncodeChar c.val = [';'.toUInt8] := by
        rw [terminator]
        rfl
      have single : c.val.utf8Size = 1 := by rw [terminator]; rfl
      rw [Span.utf8_cons, bytes, List.singleton_append, List.takeWhile_cons_of_pos (by simp),
        List.takeWhile_cons_of_pos (by simp [terminator]), List.length_cons, ih, Span.bytes, single,
        Nat.add_comm]
    · obtain ⟨b, others, bytes, other⟩ : ∃ b others, String.utf8EncodeChar c.val = b :: others ∧
          b ≠ ';'.toUInt8 := by
        by_cases narrow : Narrow c.val
        · exact ⟨c.val.toUInt8, [], utf8_of_narrow narrow, fun same =>
            terminator ((toUInt8_inj narrow (by decide)).1 same)⟩
        · obtain ⟨b, others, bytes, wide⟩ := exists_head_utf8 narrow
          exact ⟨b, others, bytes, ne_toUInt8 wide (by decide)⟩
      rw [Span.utf8_cons, bytes, List.cons_append, List.takeWhile_cons_of_neg (by simpa using other),
        List.takeWhile_cons_of_neg (by simpa using terminator)]
      rfl

/-- Behind the terminators stands what is left without them. -/
theorem exists_skipTerminators (before rest : Span) :
    ∃ front : Span, before ++ rest = front ++ rest.skipTerminators ∧
      skipTerminators (before ++ rest) before.bytes = front.bytes ∧
        before.bytes + Span.bytes (rest.takeWhile (·.val == ';')) = front.bytes := by
  refine ⟨before ++ rest.takeWhile (·.val == ';'), ?_, ?_, ?_⟩
  · rw [List.append_assoc, Span.skipTerminators, List.takeWhile_append_dropWhile]
  · rw [skipTerminators, Span.drop_utf8, length_takeWhile_utf8, Span.bytes_append]
  · rw [Span.bytes_append]

end ByOffset

end RoutineScript
