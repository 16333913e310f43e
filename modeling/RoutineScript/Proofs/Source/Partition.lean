/-
The statements of a text partition it, balanced or not.

What stands between them are terminators, they come in order and do not
overlap, and each begins where its offset says (`Partition`). How many
terminators stand between two of them makes no difference: a text joined from
the statements is cut into the same ones (`Span.segments_partition`).

# The argument

A search looks at nothing behind the character that it stops at
(`splitWhere_behind`). So a statement that ends at a terminator, and one that
ends at a brace, end there whatever stands behind, and what is left to see is
that a block does not go on with what stands behind it now.

A part goes on with a block exactly when it begins with one of the three words
and the first brace behind them is closed (`continuation?_eq_closed?`). The
words have no terminator in them, so they begin what is joined only when they
begin the rest of the text (`beginsPart_of_joined`). And when the first brace of
the rest is not closed, it takes the whole text with it into the last
statement, where it stays unclosed (`closed?_of_joined`): the instructions in
front of it have no brace and no open literal.
-/
import RoutineScript.Proofs.Source.Joining
import RoutineScript.Proofs.Source.Literals

namespace RoutineScript

-- ============================================================== partitioning

/-- A text that is made up of segments, with terminators in front of, between
and behind them. It begins at a byte offset. -/
inductive MadeUp : Nat → Span → List Segment → Prop where
  | terminators {offset : Nat} {text : Span} : (∀ c ∈ text, c.val = ';') → MadeUp offset text []
  | segment {offset : Nat} {gap own rest : Span} {c : Located Char} {segments : List Segment}
      (form : Segment.Form) : (∀ d ∈ gap, d.val = ';') → c.val ≠ ';' →
        MadeUp (offset + gap.bytes + Span.bytes (c :: own)) rest segments →
          MadeUp offset (gap ++ (c :: own ++ rest))
            (⟨form, offset + gap.bytes, c :: own⟩ :: segments)

/-- Segments partition a text that begins at a byte offset. -/
structure Partition (offset : Nat) (text : Span) (segments : List Segment) : Prop where
  /-- Each of them begins with something else than a terminator. -/
  begins : ∀ segment ∈ segments, ∃ c rest, segment.span = c :: rest ∧ c.val ≠ ';'
  /-- Each of them stands in the text where its offset says. -/
  stands : ∀ segment ∈ segments, ∃ front behind, text = front ++ (segment.span ++ behind) ∧
    segment.offset = offset + front.bytes
  /-- They come in order and do not overlap. -/
  apart : segments.Pairwise fun segment later =>
    segment.offset + segment.span.bytes ≤ later.offset
  /-- A byte of the text that is in none of them is a terminator. -/
  covers : ∀ i b, text.utf8[i]? = some b →
    (∀ segment ∈ segments, offset + i < segment.offset ∨
      segment.offset + segment.span.bytes ≤ offset + i) → b = (';' : Char).toUInt8

section

variable {offset : Nat} {text : Span} {segments : List Segment}

theorem eq_of_mem_utf8 (terminators : ∀ c ∈ text, c.val = ';') {b : UInt8} (mem : b ∈ text.utf8) :
    b = (';' : Char).toUInt8 := by
  obtain ⟨c, memText, memChar⟩ := List.mem_flatMap.1 mem
  rw [terminators c memText, utf8_of_narrow (by decide)] at memChar
  exact List.mem_singleton.1 memChar

theorem MadeUp.begins (made : MadeUp offset text segments) :
    ∀ segment ∈ segments, ∃ c rest, segment.span = c :: rest ∧ c.val ≠ ';' := by
  induction made with
  | terminators => exact fun segment mem => absurd mem List.not_mem_nil
  | segment form _ noTerminator _ ih =>
    exact List.forall_mem_cons.2 ⟨⟨_, _, rfl, noTerminator⟩, ih⟩

theorem MadeUp.stands (made : MadeUp offset text segments) :
    ∀ segment ∈ segments, ∃ front behind, text = front ++ (segment.span ++ behind) ∧
      segment.offset = offset + front.bytes := by
  induction made with
  | terminators => exact fun segment mem => absurd mem List.not_mem_nil
  | @segment offset gap own rest c segments form _ _ _ ih =>
    refine List.forall_mem_cons.2 ⟨⟨gap, rest, rfl, rfl⟩, fun segment mem => ?_⟩
    obtain ⟨front, behind, rfl, place⟩ := ih segment mem
    refine ⟨gap ++ (c :: own ++ front), behind, by simp, ?_⟩
    rw [place, Span.bytes_append, Span.bytes_append]
    omega

theorem MadeUp.apart (made : MadeUp offset text segments) :
    segments.Pairwise fun segment later =>
      segment.offset + segment.span.bytes ≤ later.offset := by
  induction made with
  | terminators => exact .nil
  | segment form _ _ rest ih =>
    refine .cons (fun later mem => ?_) ih
    obtain ⟨front, behind, -, place⟩ := rest.stands later mem
    dsimp only
    omega

theorem MadeUp.covers (made : MadeUp offset text segments) {i : Nat} {b : UInt8}
    (byte : text.utf8[i]? = some b)
    (outside : ∀ segment ∈ segments, offset + i < segment.offset ∨
      segment.offset + segment.span.bytes ≤ offset + i) : b = (';' : Char).toUInt8 := by
  induction made generalizing i with
  | terminators terminators => exact eq_of_mem_utf8 terminators (List.mem_of_getElem? byte)
  | @segment offset gap own rest c segments form terminators _ _ ih =>
    obtain ⟨here, others⟩ := List.forall_mem_cons.1 outside
    rw [Span.utf8_append, Span.utf8_append] at byte
    by_cases inGap : i < gap.utf8.length
    · rw [List.getElem?_append_left inGap] at byte
      exact eq_of_mem_utf8 terminators (List.mem_of_getElem? byte)
    · rw [Span.length_utf8] at inGap
      have behind : (Span.utf8 (c :: own)).length ≤ i - gap.utf8.length := by
        rw [Span.length_utf8, Span.length_utf8]
        dsimp only at here
        omega
      rw [List.getElem?_append_right (by rw [Span.length_utf8]; omega),
        List.getElem?_append_right behind] at byte
      refine ih byte fun segment mem => ?_
      have place := others segment mem
      rw [Span.length_utf8, Span.length_utf8] at *
      omega

theorem MadeUp.partition (made : MadeUp offset text segments) : Partition offset text segments where
  begins := made.begins
  stands := made.stands
  apart := made.apart
  covers _ _ := made.covers

end

namespace Span

theorem madeUp_segments (offset : Nat) (text : Span) :
    MadeUp offset text (text.segments offset) := by
  fun_induction segments offset text with
  | case1 offset text none =>
    refine .terminators fun c mem => ?_
    exact beq_iff_eq.1 (List.dropWhile_eq_nil_iff.1 none c mem)
  | case2 offset text c tail skipped first begins ih =>
    obtain ⟨own, isOwn⟩ : ∃ own, first.span = c :: own :=
      exists_firstStatement tail (head_skipTerminators skipped)
    have whole : text = text.takeWhile (·.val == ';') ++ (first.span ++ first.rest) := by
      rw [show first.span ++ first.rest = c :: tail from append_firstStatement (c :: tail),
        ← skipped]
      exact List.takeWhile_append_dropWhile.symm
    have gap : ∀ d ∈ text.takeWhile (·.val == ';'), d.val = ';' := fun d mem =>
      beq_iff_eq.1 (List.all_eq_true.1 List.all_takeWhile d mem)
    have made := MadeUp.segment first.form gap (head_skipTerminators skipped) (isOwn ▸ ih)
    rw [← isOwn, ← whole] at made
    exact made

-- ================================================================= searching

section

variable {σ : Type} {advance : σ → Char → σ} {stops : σ → Char → Bool} {s : σ}
  {text before rest : Span} {c d : Located Char}

/-- A search that no character of a text stops. -/
theorem splitWhere_eq_none (goesOn : ∀ s, ∀ c ∈ text, stops s c.val = false) :
    splitWhere advance stops s text = none := by
  induction text generalizing s with
  | nil => rfl
  | cons c text ih =>
    obtain ⟨here, others⟩ := List.forall_mem_cons.1 fun c mem s => goesOn s c mem
    rw [splitWhere, here s, if_neg Bool.false_ne_true, ih fun s c mem => others c mem s]
    rfl

/-- A search does not stop in front of its cut. -/
theorem splitWhere_before {after : Span}
    (cut : splitWhere advance stops s text = some (before, after)) :
    splitWhere advance stops s before = none := by
  induction text generalizing s before with
  | nil => cases cut
  | cons c rest ih =>
    rw [splitWhere] at cut
    split at cut
    · cases cut
      rfl
    · next goesOn =>
      obtain ⟨⟨before', after'⟩, cut', same⟩ := Option.map_eq_some_iff.1 cut
      cases same
      rw [splitWhere, if_neg goesOn, ih cut']
      rfl

/-- A search that stops at a character does not see what stands behind. -/
theorem splitWhere_behind (cut : splitWhere advance stops s text = some (before, c :: rest))
    (same : d.val = c.val) (behind : Span) :
    splitWhere advance stops s (before ++ d :: behind) = some (before, d :: behind) := by
  induction text generalizing s before with
  | nil => cases cut
  | cons e text ih =>
    rw [splitWhere] at cut
    split at cut
    · next stopped =>
      cases cut
      rw [List.nil_append, splitWhere, same, if_pos stopped]
    · next goesOn =>
      obtain ⟨⟨before', after'⟩, cut', isCut⟩ := Option.map_eq_some_iff.1 cut
      cases isCut
      rw [List.cons_append, splitWhere, if_neg goesOn, ih cut']
      rfl

/-- Where one search does not stop, neither does another one that knows less and
stops less often. -/
theorem splitWhere_eq_none_of_view {τ : Type} {advance' : τ → Char → τ}
    {stops' : τ → Char → Bool} (view : σ → τ)
    (follows : ∀ s c, view (advance s c) = advance' (view s) c)
    (less : ∀ s c, stops' (view s) c = true → stops s c = true)
    (none : splitWhere advance stops s text = none) :
    splitWhere advance' stops' (view s) text = .none := by
  induction text generalizing s with
  | nil => rfl
  | cons c text ih =>
    rw [splitWhere] at none ⊢
    split at none
    · cases none
    · next goesOn =>
      have others := ih (Option.map_eq_none_iff.1 none)
      rw [if_neg (mt (less s c.val) goesOn), ← follows, others]
      rfl

/-- A search that does not stop in a text goes on behind it. -/
theorem splitWhere_append_of_none (none : splitWhere advance stops s before = none)
    (behind : Span) : splitWhere advance stops s (before ++ behind) =
      (splitWhere advance stops (before.chars.foldl advance s) behind).map
        (spanInFront before) := by
  induction before generalizing s with
  | nil => exact Option.map_id'.symm
  | cons c before ih =>
    rw [splitWhere] at none
    split at none
    · cases none
    · next goesOn =>
      rw [List.cons_append, splitWhere, if_neg goesOn, ih (Option.map_eq_none_iff.1 none)]
      exact map_spanInFront_map [c] before _

end

variable {text before body after rest behind : Span} {c t : Located Char}

/-- What is enclosed does not depend on what follows. -/
theorem exists_enclosed?_behind (enclosed : text.enclosed? = some (body, after)) :
    ∃ opener closer, text = opener :: (body ++ closer :: after) ∧
      ∀ behind, enclosed? (opener :: (body ++ closer :: behind)) = some (body, behind) := by
  obtain ⟨opener, closer, rfl, -, -, closes⟩ := ByOffset.exists_of_enclosed? enclosed
  refine ⟨opener, closer, rfl, fun behind => ?_⟩
  have closes' : splitClosing (opener :: body ++ closer :: behind) =
      some (opener :: body, closer :: behind) := by
    rw [List.cons_append, splitClosing]
    rw [splitClosing] at closes
    cases pair : closerOf? opener.val with
    | none =>
      rw [pair] at closes
      cases closes
    | some closerMark =>
      rw [pair] at closes
      exact splitWhere_behind closes rfl behind
  rw [← List.cons_append, enclosed?, closes']
  rfl

-- ============================================================ continuations

/-- What follows the first braces of a text, if they are closed. -/
def closed? (text : Span) : Option Span :=
  (text.splitUnquoted '{').bind fun cut => cut.2.enclosed?.map Prod.snd

theorem brace?_of_beginsPart (begins : text.BeginsPart) :
    text.brace? = (text.splitUnquoted '{').map Prod.snd := by
  rw [brace?]
  split
  · rfl
  · next noElseif =>
    split
    · next isElse =>
      obtain ⟨word, cut, -⟩ := ByOffset.exists_of_else isElse
      rw [cut]
      rfl
    · next noElse =>
      have isCatch : text.startsWith "catch\x7b" = true := by
        obtain ⟨word, mem, begins⟩ := begins
        simp only [List.mem_cons, List.not_mem_nil, or_false] at mem
        rcases mem with rfl | rfl | rfl
        · exact absurd begins noElseif
        · exact absurd begins noElse
        · exact begins
      obtain ⟨word, cut, -⟩ := ByOffset.exists_of_catch isCatch
      rw [if_pos isCatch, cut]
      rfl

/-- A block goes on with a part when a word begins it and its first brace is
closed. -/
theorem continuation?_eq_closed? (text : Span) : text.continuation? =
    if text.skipTerminators.BeginsPart then text.skipTerminators.closed? else none := by
  rw [continuation?_eq]
  split
  · next begins =>
    rw [brace?_of_beginsPart begins, closed?, Option.bind_map]
    rfl
  · next other =>
    rw [brace?_eq_none other]
    rfl

/-- A prefix in which a character can only come last does not reach beyond it. -/
theorem prefix_append_cons_iff {word front : List Char} {c : Char} (last : c ∉ word.dropLast)
    (behind : List Char) : word <+: front ++ c :: behind ↔ word <+: front ++ [c] := by
  induction front generalizing word with
  | nil =>
    cases word with
    | nil => simp
    | cons d word =>
      cases word with
      | nil => simp
      | cons e word =>
        have other : d ≠ c := fun same => last (same ▸ List.mem_cons_self)
        simp [other]
  | cons d front ih =>
    cases word with
    | nil => simp
    | cons e word =>
      have last' : c ∉ word.dropLast := fun mem => last <| by
        cases word with
        | nil => cases mem
        | cons => exact List.mem_cons_of_mem _ mem
      rw [List.cons_append, List.cons_append, List.cons_prefix_cons, List.cons_prefix_cons,
        ih last']

/-- No word of a part reaches beyond a brace. -/
theorem beginsPart_append_brace (brace : c.val = '{') (behind : Span) :
    BeginsPart (before ++ c :: behind) ↔ BeginsPart (before ++ [c]) := by
  have words : ∀ word ∈ ["elseif(", "else\x7b", "catch\x7b"], '{' ∉ word.toList.dropLast := by
    decide
  refine exists_congr fun word => and_congr_right fun mem => ?_
  rw [startsWith, startsWith, List.isPrefixOf_iff_prefix, List.isPrefixOf_iff_prefix, chars_append,
    chars_append, chars_cons, chars_cons, brace]
  exact prefix_append_cons_iff (words word mem) _

/-- The part that continues a block does not depend on what follows. -/
theorem exists_continuation?_behind (goesOn : text.continuation? = some after) :
    ∃ front, text = front ++ after ∧ ∀ behind, continuation? (front ++ behind) = some behind := by
  rw [continuation?_eq_closed?] at goesOn
  split at goesOn
  · next begins =>
    obtain ⟨⟨header, braced⟩, cut, enclosed⟩ := Option.bind_eq_some_iff.1 goesOn
    obtain ⟨⟨body, after⟩, enclosed', rfl⟩ := Option.map_eq_some_iff.1 enclosed
    obtain ⟨opener, closer, isBraced, behind⟩ := exists_enclosed?_behind enclosed'
    dsimp only at isBraced
    subst isBraced
    have part : text.skipTerminators = header ++ opener :: (body ++ closer :: after) :=
      (append_of_splitWhere _ _ cut).symm
    have opens : opener.val = '{' := by
      obtain ⟨q, d, tail, same, stops⟩ := ByOffset.exists_stop_of_splitWhere cut
      obtain ⟨rfl, -⟩ := List.cons.inj same
      simp only [Bool.and_eq_true, beq_iff_eq] at stops
      exact stops.2
    have whole : text = text.takeWhile (·.val == ';') ++ text.skipTerminators :=
      List.takeWhile_append_dropWhile.symm
    refine ⟨text.takeWhile (·.val == ';') ++ (header ++ opener :: (body ++ [closer])),
      by rw [part] at whole; simpa using whole, fun tail => ?_⟩
    have none : skipTerminators (text.takeWhile (·.val == ';')) = [] :=
      List.dropWhile_eq_nil_iff.2 fun d mem => List.all_eq_true.1 List.all_takeWhile d mem
    have noTerminator : skipTerminators (header ++ opener :: (body ++ closer :: tail)) =
        header ++ opener :: (body ++ closer :: tail) := by
      cases header with
      | nil => simp [skipTerminators, opens]
      | cons d header =>
        have other : d.val ≠ ';' := head_skipTerminators part
        simp [skipTerminators, other]
    have begins' : BeginsPart (header ++ opener :: (body ++ closer :: tail)) := by
      rw [part, beginsPart_append_brace opens] at begins
      exact (beginsPart_append_brace opens _).2 begins
    have reshaped :
        text.takeWhile (·.val == ';') ++ (header ++ opener :: (body ++ [closer])) ++ tail =
          text.takeWhile (·.val == ';') ++ (header ++ opener :: (body ++ closer :: tail)) := by
      simp
    rw [continuation?_eq_closed?, reshaped, skipTerminators_append_of_nil none, noTerminator,
      if_pos begins', closed?, splitUnquoted, splitWhere_behind cut rfl, Option.bind_some, behind]
    rfl
  · cases goesOn

/-- The parts that continue a block do not depend on what follows, as long as it
does not continue the block. -/
theorem exists_afterContinuations_behind (text : Span) :
    ∃ front, text = front ++ text.afterContinuations ∧ ∀ behind, continuation? behind = none →
      afterContinuations (front ++ behind) = behind := by
  fun_induction afterContinuations text with
  | case1 text ends => exact ⟨[], rfl, fun behind => Stmt.afterContinuations_of_none⟩
  | case2 text rest goesOn ih =>
    obtain ⟨part, rfl, behind⟩ := exists_continuation?_behind goesOn
    obtain ⟨front, whole, behind'⟩ := ih
    refine ⟨part ++ front, by rw [List.append_assoc, ← whole], fun tail ends => ?_⟩
    rw [List.append_assoc, Stmt.afterContinuations_of_some (behind _), behind' tail ends]

-- ================================================================ statements

/-- How the first statement of a text ends: with the text, at a terminator, or
as a block that nothing behind it continues. -/
inductive Finishes (text : Span) : FirstStatement → Prop where
  | whole {form : Segment.Form} : Finishes text ⟨form, text, []⟩
  | terminator {before rest : Span} {t : Located Char} :
      text.splitBoundary = some (before, t :: rest) → t.val = ';' →
        Finishes text ⟨.instruction, before, t :: rest⟩
  | block {own rest : Span} : text.closed? ≠ none → rest.continuation? = none →
      (∀ behind, continuation? behind = none →
        firstStatement (own ++ behind) = ⟨.block, own, behind⟩) →
          Finishes text ⟨.block, own, rest⟩

/-- A search for the boundary stops at the first brace, if not before. -/
theorem splitUnquoted_before_boundary
    (cut : text.splitBoundary = some (before, c :: rest)) : before.splitUnquoted '{' = none :=
  splitWhere_eq_none_of_view Prod.fst (fun (q, depth) d => by cases q <;> rfl)
    (fun (q, depth) d stop => by
      rw [Bool.and_eq_true] at stop ⊢
      exact ⟨stop.1, by rw [stop.2, Bool.true_or]⟩)
    (splitWhere_before cut)

theorem splitUnquoted_of_boundary (cut : text.splitBoundary = some (before, c :: rest))
    (opens : c.val = '{') : text.splitUnquoted '{' = some (before, c :: rest) := by
  have outside : before.chars.foldl Quote.step .outside = .outside := settled_of_splitBoundary cut
  rw [← append_of_splitWhere _ _ cut, splitUnquoted,
    splitWhere_append_of_none (splitUnquoted_before_boundary cut), outside, splitWhere,
    if_pos (by simp [opens])]
  simp [spanInFront]

theorem finishes_firstStatement (text : Span) : text.Finishes (firstStatement text) := by
  cases cut : text.splitBoundary with
  | none =>
    rw [firstStatement_of_none cut]
    exact .whole
  | some found =>
    obtain ⟨before, boundary⟩ := found
    obtain ⟨⟨q, depth⟩, stop, rest, rfl, stops⟩ := ByOffset.exists_stop_of_splitWhere cut
    simp only [Bool.and_eq_true, Bool.or_eq_true, beq_iff_eq] at stops
    obtain ⟨-, opens | ⟨terminator, -⟩⟩ := stops
    · cases enclosed : enclosed? (stop :: rest) with
      | none =>
        have open' : firstStatement text = ⟨.block, text, []⟩ := by
          rw [firstStatement, cut]
          simp [opens, enclosed]
        rw [open']
        exact .whole
      | some found =>
        obtain ⟨body, after⟩ := found
        rw [firstStatement_of_brace cut opens enclosed]
        obtain ⟨opener, closer, isBraced, behind⟩ := exists_enclosed?_behind enclosed
        obtain ⟨rfl, rfl⟩ := List.cons.inj isBraced
        obtain ⟨parts, isAfter, behind'⟩ := exists_afterContinuations_behind after
        have whole : text =
            before ++ stop :: (body ++ closer :: parts) ++ after.afterContinuations := by
          rw [← append_of_splitWhere _ _ cut]
          conv_lhs => rw [isAfter]
          simp
        refine .block ?_ (continuation?_afterContinuations after) fun tail ends => ?_
        · rw [closed?, splitUnquoted_of_boundary cut opens, Option.bind_some, enclosed]
          exact Option.some_ne_none _
        · rw [whole, upTo_append]
          have reshaped : before ++ stop :: (body ++ closer :: parts) ++ tail =
              before ++ stop :: (body ++ closer :: (parts ++ tail)) := by
            simp
          rw [firstStatement_of_brace (reshaped ▸ splitWhere_behind cut rfl _) opens (behind _),
            behind' tail ends, upTo_append]
    · rw [firstStatement_of_terminator cut (by rw [terminator]; decide)]
      exact .terminator cut terminator

/-- The first statement of a text is the same with something else behind it: with
nothing, or with a terminator and what does not continue a block. -/
theorem firstStatement_span_append
    (ends : behind = [] ∨
      ∃ t rest, behind = t :: rest ∧ t.val = ';' ∧ (firstStatement text).rest ≠ [])
    (noPart : (firstStatement text).form = .block → behind.continuation? = none) :
    firstStatement ((firstStatement text).span ++ behind) =
      ⟨(firstStatement text).form, (firstStatement text).span, behind⟩ := by
  have finishes := finishes_firstStatement text
  generalize isFirst : firstStatement text = first at finishes ends noPart ⊢
  cases finishes with
  | whole =>
    rcases ends with rfl | ⟨-, -, -, -, some⟩
    · rw [List.append_nil, isFirst]
    · exact absurd rfl some
  | terminator cut isEnd =>
    rcases ends with rfl | ⟨t, rest, rfl, terminator, -⟩
    · rw [List.append_nil]
      exact firstStatement_of_none (splitWhere_before cut)
    · exact firstStatement_of_terminator (splitWhere_behind cut (terminator.trans isEnd.symm) rest)
        (by rw [terminator]; decide)
  | block _ _ alike => exact alike behind (noPart rfl)

/-- Nothing behind a statement continues it. -/
theorem continuation?_firstStatement_rest (isBlock : (firstStatement text).form = .block) :
    (firstStatement text).rest.continuation? = none := by
  have finishes := finishes_firstStatement text
  generalize firstStatement text = first at finishes isBlock ⊢
  cases finishes with
  | whole => rfl
  | terminator => cases isBlock
  | block _ ends => exact ends

-- =================================================================== joining

/-- A text joined from others, with one or more terminators between
neighbours. -/
inductive Joined : List Span → Span → Prop where
  | nil : Joined [] []
  | single (text : Span) : Joined [text] text
  | cons {t : Located Char} {joined : Span} {texts : List Span} (text gap : Span) :
      t.val = ';' → (∀ c ∈ gap, c.val = ';') → texts ≠ [] → Joined texts joined →
        Joined (text :: texts) (text ++ t :: (gap ++ joined))

variable {gap joined own : Span} {texts : List Span} {offset : Nat}

/-- Without a brace and an open literal in front of it, a text has the same first
braces. -/
theorem closed?_append (noBrace : before.splitUnquoted '{' = none) (settled : before.Settled)
    (behind : Span) : closed? (before ++ behind) = behind.closed? := by
  have outside : before.chars.foldl Quote.step .outside = .outside := settled
  rw [closed?, splitUnquoted, splitWhere_append_of_none noBrace, outside, Option.bind_map]
  rfl

theorem splitUnquoted_of_terminators (terminators : ∀ c ∈ gap, c.val = ';') :
    gap.splitUnquoted '{' = none :=
  splitWhere_eq_none fun q c mem => by simp [terminators c mem]

theorem closed?_of_terminators (terminators : ∀ c ∈ gap, c.val = ';') (behind : Span) :
    closed? (gap ++ behind) = behind.closed? :=
  closed?_append (splitUnquoted_of_terminators terminators)
    (settled_of_plain fun c mem => by rw [terminators c mem]; rfl) behind

theorem closed?_skipTerminators (text : Span) : text.skipTerminators.closed? = text.closed? := by
  have terminators : ∀ c ∈ text.takeWhile (·.val == ';'), c.val = ';' := fun c mem =>
    beq_iff_eq.1 (List.all_eq_true.1 List.all_takeWhile c mem)
  rw [← closed?_of_terminators terminators]
  exact congrArg closed? List.takeWhile_append_dropWhile

/-- Where the first brace of a text is not closed, that of its statements joined
is not closed either. -/
theorem closed?_of_joined (joined : Span) (unclosed : text.closed? = none)
    (joins : Joined ((text.segments offset).map Segment.span) joined) : joined.closed? = none := by
  fun_induction segments offset text generalizing joined with
  | case1 =>
    cases joins
    rfl
  | case2 offset text c tail skipped first begins ih =>
    rw [← closed?_skipTerminators, skipped] at unclosed
    have finishes := finishes_firstStatement (c :: tail)
    rw [show firstStatement (c :: tail) = first from rfl] at finishes
    generalize first = first at finishes ih joins
    cases finishes with
    | whole =>
      rw [List.map_cons, Stmt.segments_eq_nil rfl] at joins
      cases joins with
      | single => exact unclosed
      | cons _ _ _ _ some => exact absurd rfl some
    | @terminator before rest t cut isEnd =>
      have noBrace := splitUnquoted_before_boundary cut
      rw [← append_of_splitWhere _ _ cut,
        closed?_append noBrace (settled_of_splitBoundary cut)] at unclosed
      rw [List.map_cons] at joins
      generalize isOthers : List.map _ _ = others at joins
      cases joins with
      | single => rw [closed?, noBrace, Option.bind_none]
      | cons _ _ terminator terminators _ joins =>
        rw [closed?_append noBrace (settled_of_splitBoundary cut), ← List.cons_append,
          closed?_of_terminators (List.forall_mem_cons.2 ⟨terminator, terminators⟩)]
        exact ih _ unclosed (isOthers ▸ joins)
    | block closed => exact absurd unclosed closed

/-- Behind the first statement, a joined text ends or goes on with a terminator. -/
theorem exists_of_joined (joins : Joined (own :: texts) joined) :
    (texts = [] ∧ joined = own) ∨ ∃ t gap others, t.val = ';' ∧ (∀ c ∈ gap, c.val = ';') ∧
      texts ≠ [] ∧ Joined texts others ∧ joined = own ++ t :: (gap ++ others) := by
  cases joins with
  | single => exact .inl ⟨rfl, rfl⟩
  | cons _ _ terminator terminators some joins =>
    exact .inr ⟨_, _, _, terminator, terminators, some, joins, rfl⟩

theorem BeginsPart.append (begins : text.BeginsPart) (behind : Span) :
    BeginsPart (text ++ behind) := by
  obtain ⟨word, mem, begins⟩ := begins
  refine ⟨word, mem, List.isPrefixOf_iff_prefix.2 ?_⟩
  rw [chars_append]
  exact (List.isPrefixOf_iff_prefix.1 begins).trans (List.prefix_append _ _)

/-- What is joined from the statements of a text begins like a part only if the
text does. -/
theorem beginsPart_of_joined (joins : Joined ((text.segments offset).map Segment.span) joined)
    (begins : joined.BeginsPart) : text.skipTerminators.BeginsPart := by
  cases skipped : text.skipTerminators with
  | nil =>
    rw [Stmt.segments_eq_nil skipped] at joins
    cases joins
    exact begins
  | cons c tail =>
    rw [segments_of_skipTerminators skipped, List.map_cons] at joins
    rw [← append_firstStatement (c :: tail)]
    rcases exists_of_joined joins with ⟨-, rfl⟩ | ⟨t, gap, others, terminator, -, -, -, rfl⟩
    · exact begins.append _
    · exact ((beginsPart_append terminator _).1 begins).append _

/-- A joined text begins with no terminator. -/
theorem skipTerminators_of_joined
    (joins : Joined ((text.segments offset).map Segment.span) joined) :
    joined.skipTerminators = joined := by
  cases skipped : text.skipTerminators with
  | nil =>
    rw [Stmt.segments_eq_nil skipped] at joins
    cases joins
    rfl
  | cons c tail =>
    rw [segments_of_skipTerminators skipped, List.map_cons] at joins
    have noTerminator := head_skipTerminators skipped
    obtain ⟨own, isOwn⟩ := exists_firstStatement tail noTerminator
    have head : ∃ behind, joined = c :: behind := by
      dsimp only at joins
      rw [isOwn] at joins
      rcases exists_of_joined joins with ⟨-, rfl⟩ | ⟨t, gap, others, -, -, -, -, rfl⟩
      · exact ⟨_, rfl⟩
      · exact ⟨_, rfl⟩
    obtain ⟨behind, rfl⟩ := head
    exact List.dropWhile_cons_of_neg (by simp [noTerminator])

/-- What continues no block continues none when its statements are joined. -/
theorem continuation?_of_joined (ends : text.continuation? = none)
    (joins : Joined ((text.segments offset).map Segment.span) joined)
    (terminators : ∀ c ∈ gap, c.val = ';') : continuation? (gap ++ joined) = none := by
  have none : gap.skipTerminators = [] :=
    List.dropWhile_eq_nil_iff.2 fun c mem => beq_iff_eq.2 (terminators c mem)
  rw [continuation?_eq_closed?, skipTerminators_append_of_nil none,
    skipTerminators_of_joined joins]
  split
  · next begins =>
    rw [continuation?_eq_closed?, if_pos (beginsPart_of_joined joins begins),
      closed?_skipTerminators] at ends
    exact closed?_of_joined joined ends joins
  · rfl

/-- What is joined begins with the first statement again. -/
theorem exists_segments_span_append (tail : Span) (noTerminator : c.val ≠ ';') (offset : Nat)
    (behind : Span) (ends : behind = [] ∨ ∃ t rest, behind = t :: rest ∧ t.val = ';' ∧
      (firstStatement (c :: tail)).rest ≠ [])
    (noPart : (firstStatement (c :: tail)).form = .block → behind.continuation? = none) :
    let first := firstStatement (c :: tail)
    ∃ begins, segments offset (first.span ++ behind) =
      ⟨first.form, begins, first.span⟩ :: segments (begins + first.span.bytes) behind := by
  intro first
  obtain ⟨own, isOwn⟩ : ∃ own, first.span = c :: own := exists_firstStatement tail noTerminator
  have skipped : (first.span ++ behind).skipTerminators = first.span ++ behind := by
    rw [isOwn, List.cons_append]
    exact List.dropWhile_cons_of_neg (by simp [noTerminator])
  have isFirst : firstStatement (first.span ++ behind) = ⟨first.form, first.span, behind⟩ :=
    firstStatement_span_append ends noPart
  have some : (first.span ++ behind).skipTerminators ≠ [] := by
    rw [skipped, isOwn]
    exact List.cons_ne_nil _ _
  have again := Stmt.exists_segments offset some
  rwa [skipped, isFirst] at again

/-- What is joined from the statements of a text is cut into the same
statements. -/
theorem segments_of_joined (joined : Span) (offset' : Nat)
    (joins : Joined ((text.segments offset).map Segment.span) joined) :
    (joined.segments offset').map (fun segment => (segment.form, segment.span)) =
      (text.segments offset).map fun segment => (segment.form, segment.span) := by
  fun_induction segments offset text generalizing joined offset' with
  | case1 =>
    cases joins
    rw [Stmt.segments_eq_nil rfl]
  | case2 offset text c tail skipped first begins ih =>
    have again := exists_segments_span_append tail (head_skipTerminators skipped) offset'
    rw [List.map_cons] at joins ⊢
    rcases exists_of_joined joins with
      ⟨isLast, rfl⟩ | ⟨t, gap, others, terminator, terminators, some, joins', rfl⟩
    · obtain ⟨begins', same⟩ := again [] (.inl rfl) fun _ => rfl
      rw [List.append_nil] at same
      rw [same, List.map_cons, Stmt.segments_eq_nil rfl, List.map_eq_nil_iff.1 isLast]
    · have terminators' : ∀ c ∈ t :: gap, c.val = ';' :=
        List.forall_mem_cons.2 ⟨terminator, terminators⟩
      have goesOn : first.rest ≠ [] := by
        intro none
        rw [none, Stmt.segments_eq_nil rfl] at some
        exact some rfl
      obtain ⟨begins', same⟩ := again (t :: (gap ++ others)) (.inr ⟨t, _, rfl, terminator, goesOn⟩)
        fun isBlock => continuation?_of_joined
          (continuation?_firstStatement_rest isBlock) joins' terminators'
      have none : skipTerminators (t :: gap) = [] :=
        List.dropWhile_eq_nil_iff.2 fun c mem => beq_iff_eq.2 (terminators' c mem)
      rw [same, List.map_cons, ← List.cons_append, segments_append_of_terminators none,
        ih _ _ joins']

/-- **The statements of a text partition it**, balanced or not: each of them
begins with something else than a terminator and stands where its offset says,
they come in order and do not overlap, and every byte outside of them is a
terminator. And joined with one or more terminators between neighbours they are
cut into the same statements again, wherever the joined text begins. -/
theorem segments_partition (base : Nat) (text : Span) :
    Partition base text (text.segments base) ∧
      ∀ joined, Joined ((text.segments base).map Segment.span) joined → ∀ base',
        (joined.segments base').map (fun segment => (segment.form, segment.span)) =
          (text.segments base).map fun segment => (segment.form, segment.span) :=
  ⟨(madeUp_segments base text).partition, fun joined joins base' =>
    segments_of_joined joined base' joins⟩

/-- A block goes on behind a terminator, and an `elseif` waits for its brace at
the end. -/
theorem segments_partition_of_chain :
    let text := ofString ";a=1;;if(b)\x7bc;\x7d;else\x7bd;\x7de;elseif(f" 1
    let joined := ofString "a=1;if(b)\x7bc;\x7d;else\x7bd;\x7d;;e;;elseif(f" 1
    Joined ((text.segments 5).map Segment.span) joined ∧
      Partition 5 text (text.segments 5) ∧
        (joined.segments 0).map (fun segment => (segment.form, segment.span)) =
          [(.instruction, ofString "a=1" 1), (.block, ofString "if(b)\x7bc;\x7d;else\x7bd;\x7d" 1),
            (.instruction, ofString "e" 1), (.instruction, ofString "elseif(f" 1)] := by
  intro text joined
  have statements : (text.segments 5).map (fun segment => (segment.form, segment.span)) =
      [(.instruction, ofString "a=1" 1), (.block, ofString "if(b)\x7bc;\x7d;else\x7bd;\x7d" 1),
        (.instruction, ofString "e" 1), (.instruction, ofString "elseif(f" 1)] := by
    decide +kernel
  have spans : (text.segments 5).map Segment.span = [ofString "a=1" 1,
      ofString "if(b)\x7bc;\x7d;else\x7bd;\x7d" 1, ofString "e" 1, ofString "elseif(f" 1] := by
    have seconds := congrArg (List.map Prod.snd) statements
    rwa [List.map_map] at seconds
  have joins : Joined ((text.segments 5).map Segment.span) joined := by
    rw [spans]
    refine .cons _ [] rfl nofun nofun ?_
    refine .cons _ (ofString ";" 1) rfl (by decide) nofun ?_
    exact .cons _ (ofString ";" 1) rfl (by decide) nofun (.single _)
  obtain ⟨partition, again⟩ := segments_partition 5 text
  exact ⟨joins, partition, (again joined joins 0).trans statements⟩

end Span

end RoutineScript
