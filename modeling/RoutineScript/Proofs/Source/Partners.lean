/-
Statements are balanced, and the body of a block ends where its brace does.

Normalizing has seen to it that all delimiters nest, but the scans that cut
statements do not look at all of them. One counts parentheses and brackets
together and stops at the first brace that opens, one counts nothing but
braces, and one only looks for a brace. They can be trusted where no brace
opens within parentheses and brackets (`BracesOutside`).

# The argument

Each cut of a text is a cut of a word that nests. What stands before the
first brace nests, since the brace is not enclosed in it
(`dyck_before_brace`); what stands before a terminator nests, since the count
is the number of delimiters that are open (`Counter.dyck_before_terminator`);
and what braces enclose nests, since the counter passes all that nests and
stops at the first place where it may (`Counter.Reaches.unique`).

Then `Tidy`, which holds of a normalized text, holds of each piece of it that
is cut off in this way, and so of all the levels.
-/
import RoutineScript.Proofs.Source.Scans
import RoutineScript.Proofs.Source.Statements

namespace RoutineScript

-- ================================================================= nesting

/-- No brace opens between a parenthesis or a bracket and what closes it. -/
def BracesOutside (marks : List Char) : Prop :=
  ∀ before opener inside closer after,
    marks = before ++ opener :: (inside ++ closer :: after) → opener ≠ '{' →
      Span.closerOf? opener = some closer → Dyck inside → '{' ∉ inside

variable {a b marks : List Char}

theorem BracesOutside.left (outside : BracesOutside (a ++ b)) : BracesOutside a := by
  rintro before opener inside closer after rfl
  exact outside before opener inside closer (after ++ b) (by simp)

theorem BracesOutside.right (outside : BracesOutside (a ++ b)) : BracesOutside b := by
  rintro before opener inside closer after rfl
  exact outside (a ++ before) opener inside closer after (by simp)

/-- Braces behind all parentheses and brackets. -/
theorem bracesOutside_append (noBrace : '{' ∉ a) (braces : ∀ c ∈ b, c = '{' ∨ c = '}') :
    BracesOutside (a ++ b) := by
  intro before opener inside closer after same notBrace pair _
  have closes : closer ∉ b := by
    intro mem
    rcases closerOf?_cases pair with ⟨-, rfl⟩ | ⟨-, rfl⟩ | ⟨rfl, -⟩
    · simpa using braces _ mem
    · simpa using braces _ mem
    · exact notBrace rfl
  have same' : a ++ b = (before ++ opener :: (inside ++ [closer])) ++ after := by simp [same]
  rcases List.append_eq_append_iff.1 same' with ⟨between, whole, rfl⟩ | ⟨between, rfl, -⟩
  · rcases List.eq_nil_or_concat between with rfl | ⟨front, last, rfl⟩
    · rw [List.append_nil] at whole
      intro mem
      exact noBrace (by simp [← whole, mem])
    · have whole' : (before ++ opener :: inside) ++ [closer] = (a ++ front) ++ [last] := by
        simpa using whole
      have ends : closer = last := by simpa using (List.append_inj' whole' rfl).2
      exact absurd (by simp [ends]) closes
  · intro mem
    exact noBrace (by simp [mem])

/-- What nests may be taken away from the front. -/
theorem dyck_right (front : Dyck a) (whole : Dyck (a ++ b)) : Dyck b := by
  rw [dyck_iff, unwind_dyck front] at whole
  exact dyck_iff.2 whole

/-- What stands before the first brace nests. -/
theorem dyck_before_brace (nests : Dyck marks) (outside : BracesOutside marks)
    (first : marks = a ++ '{' :: b) (noBrace : '{' ∉ a) : Dyck a := by
  induction nests generalizing a with
  | nil => simp at first
  | @pair opener closer inside behind pair nests _ _ ih =>
    cases a with
    | nil => exact .nil
    | cons c a =>
      rw [List.cons_append, List.cons.injEq] at first
      obtain ⟨rfl, first⟩ := first
      rw [List.mem_cons, not_or] at noBrace
      have noBraceInside : '{' ∉ inside :=
        outside [] opener inside closer behind rfl (Ne.symm noBrace.1) pair nests
      have closes : closer ≠ '{' := by
        rintro rfl
        cases closerOf?_closer pair
      rcases List.append_eq_append_iff.1 first with ⟨between, rfl, same⟩ | ⟨between, rfl, same⟩
      · cases between with
        | nil =>
          rw [List.nil_append, List.cons.injEq] at same
          exact absurd same.1 closes
        | cons d between =>
          rw [List.cons_append, List.cons.injEq] at same
          obtain ⟨rfl, rfl⟩ := same
          have outside' : BracesOutside (between ++ '{' :: b) := by
            refine BracesOutside.right (a := opener :: (inside ++ [closer])) ?_
            simpa using outside
          refine .pair pair nests (ih outside' rfl fun mem => noBrace.2 ?_)
          simp [mem]
      · cases between with
        | nil =>
          rw [List.nil_append, List.cons.injEq] at same
          exact absurd same.1.symm closes
        | cons d between =>
          rw [List.cons_append, List.cons.injEq] at same
          obtain ⟨rfl, -⟩ := same
          simp at noBraceInside

-- ================================================================ tidy texts

variable {text before after : Span}

/-- A balanced text whose braces stand outside of parentheses and brackets. -/
def Tidy (text : Span) : Prop :=
  ∃ marks, Outline false text.chars marks ∧ Dyck marks ∧ BracesOutside marks

theorem Tidy.balanced (tidy : Tidy text) : Balanced false text.chars := by
  obtain ⟨marks, outline, nests, -⟩ := tidy
  exact ⟨marks, outline, nests⟩

theorem tidy_nil : Tidy [] :=
  ⟨[], .nil, .nil, fun _ _ _ _ _ same => by simp at same⟩

theorem Balanced.append (first : Balanced false a) (second : Balanced false b) :
    Balanced false (a ++ b) := by
  obtain ⟨front, closes, nests⟩ := first
  obtain ⟨behind, outline, nests'⟩ := second
  exact ⟨front ++ behind, closes.append outline, nests.append nests'⟩

/-- A balanced piece in front leaves two tidy pieces. -/
theorem Tidy.split (whole : Tidy (before ++ after)) (front : Balanced false before.chars) :
    Tidy before ∧ Tidy after := by
  obtain ⟨marks, outline, nests, outside⟩ := whole
  obtain ⟨front, closes, nests'⟩ := front
  rw [Span.chars_append] at outline
  obtain ⟨behind, rfl, outline'⟩ := exists_of_outline_append outline closes
  exact ⟨⟨front, closes, nests', outside.left⟩,
    ⟨behind, outline', dyck_right nests' nests, outside.right⟩⟩

/-- Text without quotes and delimiters. -/
theorem balanced_plain (plain : ∀ c ∈ a, Quote.isMark c = false ∧ isDelimiter c = false) :
    Balanced false a := by
  refine ⟨[], ?_, .nil⟩
  induction a with
  | nil => exact .nil
  | cons c a ih =>
    obtain ⟨⟨noMark, other⟩, others⟩ := List.forall_mem_cons.1 plain
    exact .plain nofun noMark other (ih others)

theorem exists_terminators (text : Span) :
    ∃ front : Span, text = front ++ text.skipTerminators ∧ Balanced false front.chars := by
  refine ⟨text.takeWhile (·.val == ';'), (List.takeWhile_append_dropWhile ..).symm, ?_⟩
  refine balanced_plain fun c mem => ?_
  obtain ⟨d, mem', rfl⟩ := List.mem_map.1 mem
  have terminator := List.all_eq_true.1 List.all_takeWhile d mem'
  rw [beq_iff_eq] at terminator
  rw [terminator]
  decide

theorem Tidy.skipTerminators (tidy : Tidy text) : Tidy text.skipTerminators := by
  obtain ⟨front, same, balanced⟩ := exists_terminators text
  rw [same] at tidy
  exact (tidy.split balanced).2

-- ==================================================================== braces

/-- The outline of a text that begins with a delimiter begins with it. -/
theorem exists_of_outline_cons {c : Located Char} (delimiter : isDelimiter c.val = true)
    (outline : Outline false (Span.chars (c :: text)) marks) :
    ∃ behind, marks = c.val :: behind ∧ Outline false text.chars behind :=
  exists_of_outline_append (a := [c.val]) outline (.delimiter delimiter .nil)

/-- What stands before the first brace, or before a terminator outside all
parentheses, is balanced. -/
theorem Tidy.before_boundary (tidy : Tidy text)
    (cut : text.splitBoundary = some (before, after)) : Balanced false before.chars := by
  obtain ⟨marks, outline, nests, outside⟩ := tidy
  rw [splitBoundary_eq] at cut
  obtain ⟨front, behind, depth, c, rest, rfl, closes, follows, -, reaches, stops⟩ :=
    Counter.exists_of_cut (fun _ => rfl) outline cut
  refine ⟨front, closes, ?_⟩
  simp only [Counter.boundary, Bool.or_eq_true, Bool.and_eq_true, beq_iff_eq] at stops
  rcases stops with brace | ⟨-, rfl⟩
  · obtain ⟨behind, rfl, -⟩ := exists_of_outline_cons (by rw [brace]; decide) follows
    rw [brace] at nests outside
    exact dyck_before_brace nests outside rfl (Counter.not_mem_of_boundary reaches)
  · exact Counter.dyck_before_terminator nests reaches

/-- What stands before the first brace is balanced. -/
theorem Tidy.before_brace (tidy : Tidy text)
    (cut : text.splitUnquoted '{' = some (before, after)) :
    Balanced false before.chars ∧ after.head?.any (·.val == '{') = true := by
  obtain ⟨marks, outline, nests, outside⟩ := tidy
  rw [splitUnquoted_eq] at cut
  obtain ⟨front, behind, depth, c, rest, rfl, closes, follows, rfl, reaches, brace⟩ :=
    Counter.exists_of_cut (fun _ => rfl) outline cut
  have isBrace := beq_iff_eq.1 brace
  obtain ⟨behind, rfl, -⟩ := exists_of_outline_cons (by rw [isBrace]; decide) follows
  rw [isBrace] at nests outside
  exact ⟨⟨front, closes,
    dyck_before_brace nests outside rfl (Counter.not_mem_of_opening reaches)⟩, brace⟩

/-- A word that nests and begins with a brace goes on with what the brace
encloses, its partner, and what follows. -/
theorem exists_of_dyck_brace (nests : Dyck ('{' :: marks)) :
    ∃ inside behind, marks = inside ++ '}' :: behind ∧ Dyck inside ∧ Dyck behind := by
  have pair : Span.closerOf? '{' = some '}' := rfl
  rw [dyck_iff, unwind_opener pair] at nests
  obtain ⟨inside, behind, closer, rfl, pair, nests', unwinds⟩ := exists_of_unwind_opener nests
  cases pair
  exact ⟨inside, behind, rfl, nests', dyck_iff.2 unwinds⟩

/-- A brace that opens a tidy text has a partner. -/
theorem Tidy.exists_enclosed {opener : Located Char} (tidy : Tidy (opener :: text))
    (opens : opener.val = '{') : ∃ found, Span.enclosed? (opener :: text) = some found := by
  obtain ⟨marks, outline, nests, -⟩ := tidy
  obtain ⟨marks, rfl, -⟩ := exists_of_outline_cons (by rw [opens]; decide) outline
  rw [opens] at nests outline
  obtain ⟨inside, behind, rfl, nests', -⟩ := exists_of_dyck_brace nests
  cases closes : Span.splitClosing (opener :: text) with
  | some found => exact ⟨_, by rw [Span.enclosed?, closes]; rfl⟩
  | none =>
    rw [splitClosing_eq opens] at closes
    obtain ⟨depth, reaches⟩ :=
      Counter.exists_reaches_of_none (q := .outside) (fun _ => rfl) closes outline.read
    have first : Counter.braces.Reaches 0 ('{' :: inside) 1 :=
      .cons rfl (Counter.braces_of_dyck nests' 0)
    cases Counter.Reaches.goesOn (a := '{' :: inside) reaches first

/-- What a brace encloses is tidy, and so is what follows. -/
theorem Tidy.enclosed {opener : Located Char} {body : Span} (tidy : Tidy (opener :: text))
    (opens : opener.val = '{') (cut : Span.enclosed? (opener :: text) = some (body, after)) :
    ∃ closer, text = body ++ closer :: after ∧ closer.val = '}' ∧ Tidy body ∧ Tidy after := by
  obtain ⟨marks, outline, nests, outside⟩ := tidy
  obtain ⟨⟨before, braced⟩, cut', same⟩ := Option.map_eq_some_iff.1 cut
  obtain ⟨rfl, rfl⟩ := Prod.mk.inj same
  rw [splitClosing_eq opens] at cut'
  have whole := Span.append_of_splitWhere _ _ cut'
  obtain ⟨front, behind, depth, closer, rest, marks_eq, closes, follows, rfl, reaches, stops⟩ :=
    Counter.exists_of_cut (fun _ => rfl) outline cut'
  simp only [Counter.braces, Bool.and_eq_true, beq_iff_eq] at stops
  obtain ⟨isBrace, rfl⟩ := stops
  obtain ⟨marks, rfl, -⟩ := exists_of_outline_cons (by rw [opens]; decide) outline
  obtain ⟨behind, rfl, follows'⟩ := exists_of_outline_cons (by rw [isBrace]; decide) follows
  rw [opens] at nests outside marks_eq
  rw [isBrace] at marks_eq
  obtain ⟨inside, behind', rfl, nests', nests''⟩ := exists_of_dyck_brace nests
  -- The counter passes what the brace encloses, so it stops at the partner.
  have reaches' : Counter.braces.Reaches 0 ('{' :: inside) 1 :=
    .cons rfl (Counter.braces_of_dyck nests' 0)
  obtain rfl := reaches.unique reaches' marks_eq.symm rfl rfl
  cases before with
  | nil => cases closes
  | cons first body =>
    rw [List.cons_append, List.cons.injEq] at whole
    obtain ⟨rfl, rfl⟩ := whole
    rw [List.cons_append, List.cons.injEq, List.append_cancel_left_eq, List.cons.injEq] at marks_eq
    obtain ⟨-, -, rfl⟩ := marks_eq
    obtain ⟨inside', same, closes'⟩ := exists_of_outline_cons (by rw [opens]; decide) closes
    obtain rfl := (List.cons.inj same).2
    have outside' := BracesOutside.right (a := ['{']) outside
    exact ⟨closer, rfl, isBrace, ⟨inside, closes', nests', outside'.left⟩,
      ⟨behind', follows', nests'', (outside'.right).right (a := ['}'])⟩⟩

/-- A body stands between a brace and its partner: the text before the brace
leaves no literal open, and what is between the two braces nests. -/
def Encloses (text body : Span) : Prop :=
  ∃ (before : Span) (opener closer : Located Char) (after : Span),
    text = before ++ opener :: (body ++ closer :: after) ∧ opener.val = '{' ∧ closer.val = '}' ∧
      (∃ marks, Outline false before.chars marks) ∧ Balanced false body.chars

/-- A text cut at its first brace and at the partner of that brace. -/
structure Braced (text header body rest : Span) : Prop where
  exists_braces : ∃ opener closer, text = header ++ opener :: (body ++ closer :: rest) ∧
    opener.val = '{' ∧ closer.val = '}'
  header : Balanced false header.chars
  body : Tidy body
  rest : Tidy rest

/-- A brace with a balanced text in front is enclosed like one alone. -/
theorem Tidy.braced {header braced body rest : Span} (tidy : Tidy (header ++ braced))
    (front : Balanced false header.chars) (opens : braced.head?.any (·.val == '{') = true)
    (cut : braced.enclosed? = some (body, rest)) : Braced (header ++ braced) header body rest := by
  cases braced with
  | nil => cases opens
  | cons opener text =>
    have isBrace : opener.val = '{' := beq_iff_eq.1 opens
    obtain ⟨closer, rfl, closes, tidyBody, tidyRest⟩ := (tidy.split front).2.enclosed isBrace cut
    exact ⟨⟨opener, closer, rfl, isBrace, closes⟩, front, tidyBody, tidyRest⟩

/-- A braced text is balanced up to its last brace. -/
theorem Braced.exists_outline {header body rest : Span} (braced : Braced text header body rest) :
    ∃ (front : Span) (marks : List Char), text = front ++ rest ∧
      Outline false front.chars marks ∧ Dyck marks ∧ '{' ∈ marks := by
  obtain ⟨opener, closer, rfl, opens, closes⟩ := braced.exists_braces
  obtain ⟨before, outline, nests⟩ := braced.header
  obtain ⟨inside, outline', nests'⟩ := braced.body.balanced
  refine ⟨header ++ opener :: (body ++ [closer]), before ++ '{' :: (inside ++ ['}']), by simp, ?_,
    nests.append (.pair rfl nests' .nil), by simp⟩
  rw [Span.chars_append, Span.chars_cons, Span.chars_append, Span.chars_cons, opens,
    closes]
  exact outline.append
    (.delimiter (by decide) (outline'.append (.delimiter (by decide) .nil)))

theorem Braced.exists_front {header body rest : Span} (braced : Braced text header body rest) :
    ∃ front : Span, text = front ++ rest ∧ Balanced false front.chars := by
  obtain ⟨front, marks, same, outline, nests, -⟩ := braced.exists_outline
  exact ⟨front, same, marks, outline, nests⟩

theorem Encloses.append {front body : Span} (encloses : Encloses text body)
    (balanced : Balanced false front.chars) : Encloses (front ++ text) body := by
  obtain ⟨before, opener, closer, after, rfl, opens, closes, ⟨marks, outline⟩, inside⟩ := encloses
  obtain ⟨marks', outline', -⟩ := balanced
  refine ⟨front ++ before, opener, closer, after, by simp, opens, closes, ⟨marks' ++ marks, ?_⟩,
    inside⟩
  rw [Span.chars_append]
  exact outline'.append outline

theorem Braced.encloses {header body rest : Span} (braced : Braced text header body rest) :
    Encloses text body := by
  obtain ⟨opener, closer, same, opens, closes⟩ := braced.exists_braces
  obtain ⟨front, outline, -⟩ := braced.header
  exact ⟨header, opener, closer, rest, same, opens, closes, ⟨front, outline⟩, braced.body.balanced⟩

/-- A tidy text with a brace can be cut at it. -/
theorem Tidy.exists_cut (tidy : Tidy text) (outline : Outline false text.chars marks)
    (brace : '{' ∈ marks) : ∃ cut, Stmt.cut? text = some cut := by
  cases split : text.splitUnquoted '{' with
  | none =>
    rw [splitUnquoted_eq] at split
    obtain ⟨depth, reaches⟩ :=
      Counter.exists_reaches_of_none (q := .outside) (fun _ => rfl) split outline.read
    exact absurd brace (Counter.not_mem_of_opening reaches)
  | some found =>
    obtain ⟨header, braced⟩ := found
    obtain ⟨front, opens⟩ := tidy.before_brace split
    rw [← Span.append_of_splitWhere _ _ split] at tidy
    cases braced with
    | nil => cases opens
    | cons opener rest =>
      obtain ⟨⟨body, after⟩, enclosed⟩ := (tidy.split front).2.exists_enclosed (beq_iff_eq.1 opens)
      exact ⟨_, Stmt.cut?_eq_some_iff.2 ⟨_, _, _, _, split, enclosed, rfl⟩⟩

-- ================================================================= segments

/-- A word without delimiters in front of a brace. -/
theorem exists_of_startsWith {word : String} (letters : List Char)
    (spelled : word.toList = letters ++ ['{'])
    (plain : (letters.all fun c => !Quote.isMark c && !isDelimiter c) = true)
    (begins : text.startsWith word = true) :
    Balanced false (Span.chars (text.take letters.length)) ∧
      (text.drop letters.length).head?.any (·.val == '{') = true := by
  rw [Span.startsWith, List.isPrefixOf_iff_prefix, spelled] at begins
  obtain ⟨tail, same⟩ := begins
  rw [List.append_assoc] at same
  constructor
  · have letters_eq : Span.chars (text.take letters.length) = letters := by
      rw [Span.chars, List.map_take]
      rw [show List.map Located.val text = letters ++ (['{'] ++ tail) from same.symm]
      simp
    rw [letters_eq]
    exact balanced_plain fun c mem => by simpa using List.all_eq_true.1 plain c mem
  · have rest_eq : Span.chars (text.drop letters.length) = '{' :: tail := by
      rw [Span.chars, List.map_drop]
      rw [show List.map Located.val text = letters ++ (['{'] ++ tail) from same.symm]
      simp
    cases rest : text.drop letters.length with
    | nil =>
      rw [rest] at rest_eq
      cases rest_eq
    | cons c rest' =>
      rw [rest] at rest_eq
      exact beq_iff_eq.2 (List.cons.inj rest_eq).1

/-- What stands before the brace of a part that continues a block. -/
theorem Tidy.exists_header {part braced : Span} (tidy : Tidy part)
    (opens : (if part.startsWith "elseif(" then (part.splitUnquoted '{').map Prod.snd
      else if part.startsWith "else\x7b" then some (part.drop 4)
      else if part.startsWith "catch\x7b" then some (part.drop 5)
      else none) = some braced) :
    ∃ header : Span, part = header ++ braced ∧ Balanced false header.chars ∧
      braced.head?.any (·.val == '{') = true := by
  split at opens
  · obtain ⟨⟨header, braced⟩, cut, rfl⟩ := Option.map_eq_some_iff.1 opens
    exact ⟨header, (Span.append_of_splitWhere _ _ cut).symm, tidy.before_brace cut⟩
  · split at opens
    · rename_i begins
      cases opens
      exact ⟨part.take 4, (List.take_append_drop 4 part).symm,
        exists_of_startsWith ['e', 'l', 's', 'e'] rfl (by decide) begins⟩
    · split at opens
      · rename_i begins
        cases opens
        exact ⟨part.take 5, (List.take_append_drop 5 part).symm,
          exists_of_startsWith ['c', 'a', 't', 'c', 'h'] rfl (by decide) begins⟩
      · cases opens

/-- A part that continues a block is balanced. -/
theorem Tidy.continuation {rest : Span} (tidy : Tidy text)
    (goesOn : text.continuation? = some rest) :
    ∃ front : Span, text = front ++ rest ∧ Balanced false front.chars := by
  obtain ⟨terminators, same, plain⟩ := exists_terminators text
  obtain ⟨braced, opens, enclosed⟩ := Option.bind_eq_some_iff.1 goesOn
  obtain ⟨⟨body, rest'⟩, enclosed', rfl⟩ := Option.map_eq_some_iff.1 enclosed
  have tidyPart := tidy.skipTerminators
  obtain ⟨header, part_eq, front, brace⟩ := tidyPart.exists_header opens
  rw [part_eq] at tidyPart same
  obtain ⟨part, part_eq', balanced⟩ := (tidyPart.braced front brace enclosed').exists_front
  refine ⟨terminators ++ part, ?_, ?_⟩
  · rw [same, part_eq', List.append_assoc]
  · rw [Span.chars_append]
    exact plain.append balanced

theorem Tidy.afterContinuations (tidy : Tidy text) :
    ∃ front : Span, text = front ++ text.afterContinuations ∧ Balanced false front.chars := by
  fun_induction Span.afterContinuations text with
  | case1 => exact ⟨[], rfl, [], .nil, .nil⟩
  | case2 text rest goesOn ih =>
    obtain ⟨front, same, balanced⟩ := tidy.continuation goesOn
    rw [same] at tidy
    obtain ⟨front', same', balanced'⟩ := ih (tidy.split balanced).2
    refine ⟨front ++ front', ?_, ?_⟩
    · rw [same, List.append_assoc, ← same']
    · rw [Span.chars_append]
      exact balanced.append balanced'

/-- A tidy statement; if it is a block, it has a first part. -/
structure TidyStatement (form : Segment.Form) (text : Span) : Prop where
  tidy : Tidy text
  exists_cut : form = .block → ∃ cut, Stmt.cut? text = some cut

/-- The first statement of a tidy text is tidy, and so is what follows. -/
theorem Tidy.firstStatement (tidy : Tidy text) :
    TidyStatement (Span.firstStatement text).form (Span.firstStatement text).span ∧
      Tidy (Span.firstStatement text).rest := by
  rw [Span.firstStatement]
  split
  · exact ⟨⟨tidy, fun isBlock => by cases isBlock⟩, tidy_nil⟩
  · rename_i before boundary cut
    have same := Span.append_of_splitWhere _ _ cut
    have front := tidy.before_boundary cut
    rw [← same] at tidy
    split
    · rename_i opens
      split
      · rename_i none
        cases boundary with
        | nil => cases opens
        | cons opener rest =>
          obtain ⟨found, enclosed⟩ := (tidy.split front).2.exists_enclosed (beq_iff_eq.1 opens)
          rw [none] at enclosed
          cases enclosed
      · rename_i body after enclosed
        have braced := tidy.braced front opens enclosed
        obtain ⟨block, marks, block_eq, outline, nests, brace⟩ := braced.exists_outline
        obtain ⟨parts, after_eq, marks', outline', nests'⟩ := braced.rest.afterContinuations
        have whole : before ++ boundary = (block ++ parts) ++ after.afterContinuations := by
          rw [block_eq, List.append_assoc, ← after_eq]
        have outline'' : Outline false (Span.chars (block ++ parts)) (marks ++ marks') := by
          rw [Span.chars_append]
          exact outline.append outline'
        rw [whole] at tidy
        obtain ⟨own, rest⟩ := tidy.split ⟨_, outline'', nests.append nests'⟩
        dsimp only
        rw [← same, whole, Span.upTo_append]
        exact ⟨⟨own, fun _ => own.exists_cut outline'' (List.mem_append_left _ brace)⟩, rest⟩
    · obtain ⟨own, rest⟩ := tidy.split front
      exact ⟨⟨own, fun isBlock => by cases isBlock⟩, rest⟩

/-- All statements of a tidy text are tidy. -/
theorem Tidy.segments (tidy : Tidy text) (offset : Nat) :
    ∀ segment ∈ text.segments offset, TidyStatement segment.form segment.span := by
  fun_induction Span.segments offset text with
  | case1 => simp
  | case2 offset text c tail skipped first begins ih =>
    have tidy' := tidy.skipTerminators
    rw [skipped] at tidy'
    obtain ⟨own, others⟩ := tidy'.firstStatement
    exact List.forall_mem_cons.2 ⟨own, ih others⟩

-- =================================================================== levels

namespace Stmt

/-- The first part of a tidy block. -/
theorem encloses_of_cut {cut : Cut} (tidy : Tidy text) (isCut : cut? text = some cut) :
    Tidy cut.body ∧ Encloses text cut.body ∧ Tidy cut.rest ∧
      ∃ front : Span, text = front ++ cut.rest ∧ Balanced false front.chars := by
  obtain ⟨header, braced, body, after, split, enclosed, rfl⟩ := cut?_eq_some_iff.1 isCut
  obtain ⟨header_balanced, opens⟩ := tidy.before_brace split
  have same := Span.append_of_splitWhere _ _ split
  rw [← same] at tidy ⊢
  have block := tidy.braced header_balanced opens enclosed
  obtain ⟨front, front_eq, balanced⟩ := block.exists_front
  obtain ⟨terminators, after_eq, plain⟩ := exists_terminators after
  refine ⟨block.body, block.encloses, block.rest.skipTerminators, front ++ terminators, ?_, ?_⟩
  · rw [front_eq, List.append_assoc, ← after_eq]
  · rw [Span.chars_append]
    exact balanced.append plain

/-- Every body of a tidy block is tidy and ends at the partner of its brace,
and what follows it is tidy. -/
theorem Part.encloses {cut : Cut} (tidy : Tidy text) (part : Part text cut) :
    Tidy cut.body ∧ Encloses text cut.body ∧ Tidy cut.rest ∧
      ∃ front : Span, text = front ++ cut.rest ∧ Balanced false front.chars := by
  induction part with
  | first isCut => exact encloses_of_cut tidy isCut
  | next _ isCut ih =>
    obtain ⟨-, -, tidyRest, front, same, balanced⟩ := ih
    obtain ⟨tidyBody, encloses, tidyRest', front', same', balanced'⟩ :=
      encloses_of_cut tidyRest isCut
    rw [same]
    refine ⟨tidyBody, encloses.append balanced, tidyRest', front ++ front', ?_, ?_⟩
    · rw [List.append_assoc, ← same']
    · rw [Span.chars_append]
      exact balanced.append balanced'

/-- Each level of a tidy text is tidy. -/
theorem Level.tidy {top level : Span} (tidy : Tidy top) (isLevel : Level top level) :
    Tidy level := by
  induction isLevel with
  | top => exact tidy
  | body _ mem _ part ih => exact (part.encloses (ih.segments 0 _ mem).tidy).1

end Stmt

/-- A normalized source is tidy where its braces stand outside. -/
theorem tidy_of_normalize {source : String} {text : Span}
    (normal : Span.normalize source = .ok text)
    (outside : ∀ marks, Outline true source.toList marks → BracesOutside marks) : Tidy text := by
  obtain ⟨marks, outline, nests, output⟩ := Span.exists_outline_of_normalize normal
  exact ⟨marks, output false, nests, outside marks outline⟩

namespace Span

/-- **Every statement is balanced.** In a source that can be read, and in
which no brace opens between a parenthesis or a bracket and what closes it,
the literals of each statement close and its delimiters nest, at every level.
A block has a first part at least, and the body of each of its parts is what
stands between a brace and its partner. -/
theorem statements_balanced {source : String} {text : Span} (normal : normalize source = .ok text)
    (outside : ∀ marks, Outline true source.toList marks → BracesOutside marks) :
    ∀ level, Stmt.Level text level → ∀ segment ∈ level.segments 0,
      Balanced false segment.span.chars ∧
        (segment.form = .block → ∃ cut, Stmt.Part segment.span cut) ∧
        ∀ cut, Stmt.Part segment.span cut → Encloses segment.span cut.body := by
  intro level isLevel segment mem
  have statement := (isLevel.tidy (tidy_of_normalize normal outside)).segments 0 segment mem
  refine ⟨statement.tidy.balanced, fun block => ?_, fun cut part =>
    (part.encloses statement.tidy).2.1⟩
  obtain ⟨cut, isCut⟩ := statement.exists_cut block
  exact ⟨cut, .first isCut⟩

/-- A branch with two arms, and a brace in a literal. -/
theorem statements_balanced_of_branch :
    let source := "if (a[0]) \x7b s = '\x7d' \x7d else \x7b s = 1 \x7d"
    ∃ text, normalize source = .ok text ∧
      (∀ marks, Outline true source.toList marks → BracesOutside marks) ∧
      ∀ level, Stmt.Level text level → ∀ segment ∈ level.segments 0,
        Balanced false segment.span.chars ∧
          (segment.form = .block → ∃ cut, Stmt.Part segment.span cut) ∧
          ∀ cut, Stmt.Part segment.span cut → Encloses segment.span cut.body := by
  intro source
  obtain ⟨text, normal⟩ : ∃ text, normalize source = .ok text := by
    have accepted : (normalize source).isOk = true := by decide +kernel
    cases normal : normalize source with
    | ok text => exact ⟨text, rfl⟩
    | error fault =>
      rw [normal] at accepted
      cases accepted
  have outside : ∀ marks, Outline true source.toList marks → BracesOutside marks := by
    intro marks outline
    have marks_eq : outline? true .code source.toList =
        some ("([])".toList ++ "\x7b\x7d\x7b\x7d".toList) := by decide +kernel
    cases outline.read.symm.trans marks_eq
    exact bracesOutside_append (by decide) (by simp)
  exact ⟨text, normal, outside, statements_balanced normal outside⟩

end Span

end RoutineScript
