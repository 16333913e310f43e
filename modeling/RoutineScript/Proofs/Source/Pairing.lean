/-
Which delimiter closes which.

The search for a closing delimiter counts delimiters of one kind only, and it
knows nothing of what stands in front of the place where it begins. Still it
finds the partner that a stack of all open delimiters gives (`Span.pairs`), in
a normalized text and in every piece of it that the parser reads by itself
(`Span.delimiters_paired`).

# The argument

When the stack meets a delimiter, it holds what has been opened since the search
began and is still open, then the delimiter that the search began at, then what
was open before. The count is one more than the delimiters of the search's kind
among the first of these (`findsPartner`). So both come to the partner together:
because the text nests, nothing that has been opened since is open then, and the
count is one.

A piece need not nest. It may close what was opened in front of it, and leave
open what is closed behind it. But neither of the two looks further than the
partner: the search sees nothing behind the character that it stops at
(`matchingClose_within`), and the stack of a piece is the upper part of the
stack of the whole text (`mem_pairs_iff_of_cut`).
-/
import RoutineScript.Proofs.Source.Agreement
import RoutineScript.Proofs.Source.Joining
import RoutineScript.Proofs.Source.Partition
import RoutineScript.Proofs.Source.Stack

namespace RoutineScript

namespace Span

variable {q : Quote} {opened outer : Opened} {place start close depth : Nat}
  {c opener closer : Char} {text front behind piece rest : Span}

-- ================================================================ the search

/-- The search for a closing delimiter, from a count on. -/
def searchFrom (opener closer : Char) (q : Quote) (depth : Nat) (text : Span) :
    Option (Span × Span) :=
  splitWhere (countDelimiter opener closer)
    (fun (q, depth) c => q == .outside && c == closer && depth == 1) (q, depth) text

/-- The search goes on unless it has found the partner. -/
theorem searchFrom_cons {c : Located Char}
    (goesOn : q = .outside → c.val = closer → depth ≠ 1) (rest : Span) :
    searchFrom opener closer q depth (c :: rest) =
      (searchFrom opener closer (q.step c.val) (countDelimiter opener closer (q, depth) c.val).2
        rest).map (spanInFront [c]) := by
  have state : countDelimiter opener closer (q, depth) c.val =
      (q.step c.val, (countDelimiter opener closer (q, depth) c.val).2) := by
    cases q <;> rfl
  have stops : (q == .outside && c.val == closer && depth == 1) = false := by
    by_cases here : q = .outside ∧ c.val = closer
    · simp [goesOn here.1 here.2]
    · rcases not_and_or.1 here with inside | other
      · simp [inside]
      · simp [other]
  rw [searchFrom, splitWhere]
  refine (if_neg (ne_true_of_eq_false stops)).trans ?_
  rw [state]
  rfl

/-- The search that begins at a delimiter has counted it. -/
theorem splitClosing_eq_searchFrom {opener : Located Char}
    (pair : closerOf? opener.val = some closer) (rest : Span) :
    splitClosing (opener :: rest) =
      (searchFrom opener.val closer .outside 1 rest).map (spanInFront [opener]) := by
  have noMark := (ne_of_isDelimiter (isDelimiter_of_closerOf? pair).1).2.2
  have isSearch : splitClosing (opener :: rest) =
      searchFrom opener.val closer .outside 0 (opener :: rest) := by
    simp only [splitClosing, pair, searchFrom]
  have counted : (countDelimiter opener.val closer (.outside, 0) opener.val).2 = 1 := by
    simp [countDelimiter]
  rw [isSearch, searchFrom_cons (fun _ _ => Nat.zero_ne_one), counted, Quote.step_outside noMark]

/-- The open delimiters of a kind. -/
def countOf (opener : Char) (opened : Opened) : Nat :=
  opened.countP (·.2 == opener)

theorem countOf_cons (start : Nat) (c : Char) (opened : Opened) :
    countOf opener ((start, c) :: opened) =
      countOf opener opened + if c = opener then 1 else 0 := by
  simp [countOf, List.countP_cons]

/-- A character that shows no delimiter is not counted. -/
theorem count_quiet (pair : closerOf? opener = some closer) (quiet : q.shows c = []) (depth : Nat) :
    (countDelimiter opener closer (q, depth) c).2 = depth ∧ (q = .outside → c ≠ closer) := by
  cases q with
  | inside => exact ⟨rfl, nofun⟩
  | outside =>
    have delimiters := isDelimiter_of_closerOf? pair
    have other : isDelimiter c = false := by
      cases delimiter : isDelimiter c with
      | false => rfl
      | true =>
        rw [shows_of_isDelimiter delimiter] at quiet
        cases quiet
    have noOpener : c ≠ opener := by
      rintro rfl
      rw [delimiters.1] at other
      cases other
    have noCloser : c ≠ closer := by
      rintro rfl
      rw [delimiters.2] at other
      cases other
    exact ⟨by simp [countDelimiter, noOpener, noCloser], fun _ => noCloser⟩

/-- A delimiter that opens is counted if it is of the kind, and ends no search. -/
theorem count_opens (pair : closerOf? opener = some closer) {closer' : Char}
    (pair' : closerOf? c = some closer') (depth : Nat) :
    (countDelimiter opener closer (.outside, depth) c).2 = depth + (if c = opener then 1 else 0) ∧
      c ≠ closer := by
  have noCloser : c ≠ closer := by
    rintro rfl
    rw [closerOf?_closer pair] at pair'
    cases pair'
  refine ⟨?_, noCloser⟩
  by_cases own : c = opener <;> simp [countDelimiter, own, noCloser]

/-- A delimiter that closes another one counts as that one does. -/
theorem count_closes (pair : closerOf? opener = some closer) {opener' : Char}
    (pair' : closerOf? opener' = some c) (depth : Nat) :
    (countDelimiter opener closer (.outside, depth) c).2 =
        depth - (if opener' = opener then 1 else 0) ∧ (c = closer ↔ opener' = opener) := by
  rcases closerOf?_cases pair with ⟨rfl, rfl⟩ | ⟨rfl, rfl⟩ | ⟨rfl, rfl⟩ <;>
    rcases closerOf?_cases pair' with ⟨rfl, rfl⟩ | ⟨rfl, rfl⟩ | ⟨rfl, rfl⟩ <;>
      simp [countDelimiter]

/-- The search and the stack come to the same partner of a delimiter that is open,
from a character on. -/
def FindsPartner (opener closer : Char) (start : Nat) (q : Quote) (opened : Opened)
    (depth place : Nat) (text : Span) : Prop :=
  ∃ before after, searchFrom opener closer q depth text = some (before, after) ∧
    (start, place + before.bytes) ∈ pairsFrom q opened place text

theorem FindsPartner.cons {c : Located Char} {opened' : Opened} {depth' : Nat}
    (isNext : (meet q opened place c.val).2 = opened')
    (count : (countDelimiter opener closer (q, depth) c.val).2 = depth')
    (goesOn : q = .outside → c.val = closer → depth ≠ 1)
    (finds : FindsPartner opener closer start (q.step c.val) opened' depth'
      (place + c.val.utf8Size) text) :
    FindsPartner opener closer start q opened depth place (c :: text) := by
  obtain ⟨before, after, found, mem⟩ := finds
  refine ⟨c :: before, after, ?_, ?_⟩
  · rw [searchFrom_cons goesOn, count, found]
    rfl
  · rw [pairsFrom, isNext, bytes, ← Nat.add_assoc]
    exact List.mem_append_right _ mem

/-- Nothing that has been opened since is open where the partner stands. -/
theorem findsPartner_here {c : Located Char}
    (met : (meet .outside opened place c.val).1 = some (start, place)) :
    FindsPartner opener c.val start .outside opened 1 place (c :: text) := by
  refine ⟨[], c :: text, by simp [searchFrom, splitWhere], ?_⟩
  rw [pairsFrom, met]
  exact List.mem_append_left _ List.mem_cons_self

/-- **The search finds the partner that the stack gives.** Its count is one more
than the delimiters of its kind that have been opened since and are still open. -/
theorem findsPartner (pair : closerOf? opener = some closer) (inner : Opened) (place : Nat)
    (closes : ClosesAll q (inner ++ (start, opener) :: outer) text) :
    FindsPartner opener closer start q (inner ++ (start, opener) :: outer)
      (countOf opener inner + 1) place text := by
  induction text generalizing q inner place with
  | nil =>
    obtain ⟨marks, outline, unwinds⟩ := closes
    cases q with
    | inside => cases outline
    | outside =>
      cases outline
      simp at unwinds
  | cons c rest ih =>
    have next := closes.meet place
    have met := meets q (inner ++ (start, opener) :: outer) place c.val
    generalize isNext : meet q (inner ++ (start, opener) :: outer) place c.val = result at met next
    cases met with
    | passes noOpener noCloser =>
      obtain ⟨same, other⟩ := count_quiet pair (closes.shows_eq_nil noOpener noCloser)
        (countOf opener inner + 1)
      exact .cons (congrArg Prod.snd isNext) same
        (fun isOutside isCloser => absurd isCloser (other isOutside)) (ih inner _ next)
    | opens isOutside pair' =>
      subst isOutside
      obtain ⟨more, other⟩ := count_opens pair pair' (countOf opener inner + 1)
      have isInner : countOf opener inner + 1 + (if c.val = opener then 1 else 0) =
          countOf opener ((place, c.val) :: inner) + 1 := by
        rw [countOf_cons]
        omega
      exact .cons (congrArg Prod.snd isNext) (more.trans isInner)
        (fun _ isCloser => absurd isCloser other) (ih ((place, c.val) :: inner) _ next)
    | closes isOutside isOpened pair' =>
      subst isOutside
      obtain ⟨less, own⟩ := count_closes pair pair' (countOf opener inner + 1)
      cases inner with
      | nil =>
        obtain ⟨isPair, rfl⟩ := List.cons.inj isOpened
        cases isPair
        obtain rfl : c.val = closer := own.2 rfl
        exact findsPartner_here (congrArg Prod.fst isNext)
      | cons innermost inner =>
        obtain ⟨rfl, rfl⟩ := List.cons.inj isOpened
        rw [countOf_cons] at less
        refine .cons (congrArg Prod.snd isNext) ?_ (fun _ isCloser => ?_) (ih inner _ next)
        · rw [countOf_cons, less]
          omega
        · rw [countOf_cons, if_pos (own.1 isCloser)]
          omega

-- ============================================================== a whole text

theorem matchingClose_append (front rest : Span) :
    matchingClose (front ++ rest) front.bytes =
      rest.splitClosing.map fun cut => front.bytes + cut.1.bytes :=
  Except.ok.inj ((ByOffset.matchingClose_eq _ _).symm.trans
    (ByOffset.matchingClose_append front rest))

/-- Every delimiter that opens has a partner, and the search finds it. -/
theorem exists_partner (closes : ClosesAll .outside [] text) (opens : text.OpensAt start) :
    ∃ close, text.matchingClose start = some close ∧ (start, close) ∈ text.pairs := by
  obtain ⟨front, opener, rest, rfl, rfl, settled, isSome⟩ := opens
  obtain ⟨closer, pair⟩ := Option.isSome_iff_exists.1 isSome
  have noMark := (ne_of_isDelimiter (isDelimiter_of_closerOf? pair).1).2.2
  have here := closes.right 0
  rw [settled] at here
  have next := here.meet front.bytes
  rw [meet_opener pair, Quote.step_outside noMark] at next
  obtain ⟨before, after, found, mem⟩ :=
    findsPartner pair [] (front.bytes + opener.val.utf8Size) next
  refine ⟨front.bytes + bytes (opener :: before), ?_, ?_⟩
  · have count : countOf opener.val [] + 1 = 1 := rfl
    rw [matchingClose_append, splitClosing_eq_searchFrom pair, ← count, found]
    rfl
  · rw [pairs, pairsFrom_append, settled, Nat.zero_add, pairsFrom, meet_opener pair,
      Quote.step_outside noMark, bytes, ← Nat.add_assoc]
    exact List.mem_append_right _ (List.mem_append_right _ mem)

/-- In a text that nests, counting one kind of delimiter gives the pairs of the
stack. -/
theorem matchingClose_iff (closes : ClosesAll .outside [] text) (opens : text.OpensAt start)
    (close : Nat) : text.matchingClose start = some close ↔ (start, close) ∈ text.pairs := by
  obtain ⟨partner, found, mem⟩ := exists_partner closes opens
  rw [found, Option.some_inj]
  constructor
  · rintro rfl
    exact mem
  · exact close_unique (List.pairwise_singleton _ _) mem

-- It does not where delimiters of two kinds cross.
example : (ofString "([)]" 1).matchingClose 0 = some 2 ∧ (ofString "([)]" 1).pairs = [(1, 3)] := by
  decide

-- ================================================================== the cuts

/-- What follows a text does not matter to a search that ends in it, and one that
does not end in it ends behind it. -/
theorem splitClosing_append (text behind : Span) :
    (∃ before after, text = before ++ after ∧ after ≠ [] ∧
        text.splitClosing = some (before, after) ∧
        (text ++ behind).splitClosing = some (before, after ++ behind)) ∨
      text.splitClosing = none ∧ ∀ before after,
        (text ++ behind).splitClosing = some (before, after) → text.bytes ≤ before.bytes := by
  cases text with
  | nil => exact .inr ⟨rfl, fun _ _ _ => Nat.zero_le _⟩
  | cons first rest =>
    rw [List.cons_append, splitClosing, splitClosing]
    cases closerOf? first.val with
    | none => exact .inr ⟨rfl, fun _ _ cut => by cases cut⟩
    | some closer =>
      dsimp only
      generalize found : splitWhere _ _ _ (first :: rest) = result
      cases result with
      | some cut =>
        exact .inl ⟨cut.1, cut.2, (append_of_splitWhere _ _ found).symm,
          ne_nil_of_splitWhere _ _ found, rfl, splitWhere_append found behind⟩
      | none =>
        refine .inr ⟨rfl, fun before after cut => ?_⟩
        rw [← List.cons_append, splitWhere_append_of_none found] at cut
        obtain ⟨⟨more, after'⟩, -, same⟩ := Option.map_eq_some_iff.1 cut
        obtain ⟨rfl, -⟩ := Prod.mk.inj same
        rw [bytes_append]
        exact Nat.le_add_right _ _

/-- **The search in a piece of a text finds what it finds there in the whole**,
wherever the text is cut. -/
theorem matchingClose_within {before : Span} (whole : text = front ++ (piece ++ behind))
    (isPiece : piece = before ++ rest) : piece.matchingClose before.bytes = some close ↔
      close < piece.bytes ∧
        text.matchingClose (front.bytes + before.bytes) = some (front.bytes + close) := by
  have isWhole : text = (front ++ before) ++ (rest ++ behind) := by rw [whole, isPiece]; simp
  rw [isWhole, isPiece, ← bytes_append, matchingClose_append, matchingClose_append]
  rcases splitClosing_append rest behind with
    ⟨inside, after, rfl, some, found, found'⟩ | ⟨none, further⟩
  · have positive := ByOffset.bytes_pos some
    rw [found, found', Option.map_some, Option.map_some, Option.some_inj, Option.some_inj]
    simp only [bytes_append]
    omega
  · rw [none]
    refine iff_of_false (by simp) ?_
    rintro ⟨inside, found⟩
    obtain ⟨⟨between, after⟩, cut, place⟩ := Option.map_eq_some_iff.1 found
    have past := further between after cut
    simp only [bytes_append] at inside place
    omega

/-- Of two fronts of a text the shorter one is a front of the other. -/
theorem exists_of_append_eq {a b c d : Span} (same : a ++ b = c ++ d)
    (shorter : a.bytes ≤ c.bytes) : ∃ between, c = a ++ between ∧ b = between ++ d := by
  rcases List.append_eq_append_iff.1 same with found | ⟨between, isFront, isRest⟩
  · exact found
  · cases between with
    | nil => exact ⟨[], by simpa using isFront.symm, isRest.symm⟩
    | cons e between =>
      have positive := e.val.utf8Size_pos
      rw [isFront, bytes_append, bytes] at shorter
      omega

/-- What opens in a piece opens there in the whole text. -/
theorem opensAt_iff_of_cut (whole : text = front ++ (piece ++ behind)) (settled : front.Settled)
    (start : Nat) :
    piece.OpensAt start ↔ start < piece.bytes ∧ text.OpensAt (front.bytes + start) := by
  constructor
  · rintro ⟨before, opener, rest, rfl, rfl, settled', opens⟩
    have positive := opener.val.utf8Size_pos
    refine ⟨by rw [bytes_append, bytes]; omega, front ++ before, opener, rest ++ behind, ?_,
      bytes_append _ _, settled.append settled', opens⟩
    simp [whole]
  · rintro ⟨inside, before, opener, rest, same, place, settled', opens⟩
    rw [whole] at same
    obtain ⟨ahead, rfl, inRest⟩ := exists_of_append_eq same (by omega)
    rw [bytes_append] at place
    obtain ⟨more, rfl, isMore⟩ := exists_of_append_eq inRest.symm (by omega)
    cases more with
    | nil =>
      rw [List.append_nil] at inside
      omega
    | cons first more =>
      obtain ⟨rfl, -⟩ := List.cons.inj isMore
      exact ⟨ahead, opener, more, rfl, by omega, settled'.right settled, opens⟩

-- ================================================================ the pieces

/-- What the parser reads by itself, behind a front of the text: a level, which is
the text or the body of a part of a block, or what is left of it behind some of
its statements; and each of these statements. -/
inductive Piece (whole : Span) : Span → Span → Prop where
  | level {front text : Span} : Stands whole .statements front text → Piece whole front text
  | statement {front text : Span} :
      Stands whole .statement front text → Piece whole front (firstStatement text).span

theorem Piece.cutOut {whole : Span} (settled : whole.Settled) (isPiece : Piece whole front piece) :
    CutOut whole front piece := by
  cases isPiece with
  | level stands => exact stands.cutOut settled
  | statement stands =>
    have cutOut := stands.cutOut settled
    exact cutOut.left (append_firstStatement _).symm (settled_firstStatement cutOut.text)

/-- Every level is read by itself, and so is every statement of it. -/
theorem exists_piece_of_level {whole level : Span} (isLevel : Stmt.Level whole level) :
    (∃ front, Piece whole front level) ∧
      ∀ segment ∈ level.segments 0, ∃ front, Piece whole front segment.span := by
  obtain ⟨front, stands⟩ := Stands.of_level isLevel
  refine ⟨⟨front, .level stands⟩, fun segment mem => ?_⟩
  obtain ⟨front', text', here, -, isSpan⟩ := stands.of_mem_segments mem
  exact ⟨front', isSpan ▸ .statement here⟩

/-- What a piece of a text pairs by itself is what the text pairs within it, for the
stack and for the search alike. -/
structure PairsWithin (text front piece : Span) : Prop where
  within : ∃ behind, text = front ++ (piece ++ behind)
  opensAt : ∀ start, piece.OpensAt start ↔
    start < piece.bytes ∧ text.OpensAt (front.bytes + start)
  pairs : ∀ start close, (start, close) ∈ piece.pairs ↔
    close < piece.bytes ∧ (front.bytes + start, front.bytes + close) ∈ text.pairs
  search : ∀ start close, piece.OpensAt start →
    (piece.matchingClose start = some close ↔ (start, close) ∈ piece.pairs)

/-- A piece that begins outside of literals, of a text that nests. -/
theorem CutOut.pairsWithin (closes : ClosesAll .outside [] text)
    (cutOut : CutOut text front piece) : PairsWithin text front piece := by
  obtain ⟨⟨behind, whole⟩, settled, -⟩ := cutOut
  have opensAt := opensAt_iff_of_cut whole settled
  have pairs := mem_pairs_iff_of_cut whole settled
  refine ⟨⟨behind, whole⟩, opensAt, pairs, fun start close opens => ?_⟩
  have inWhole := matchingClose_iff closes ((opensAt start).1 opens).2 (front.bytes + close)
  obtain ⟨before, opener, rest, isPiece, rfl, -⟩ := opens
  rw [matchingClose_within whole isPiece, inWhole, pairs]

/-- **Counting delimiters of one kind pairs them as a stack of all kinds does.** In
an accepted source each delimiter that opens outside of the literals has exactly
one partner on the stack, and the search finds it; and when a level or a
statement is cut out of the text, the stack and the search find in it the pairs
of the text that have both ends there, and no others. -/
theorem delimiters_paired {source : String} (normal : normalize source = .ok text) :
    (∀ start, text.OpensAt start → ∃ close, text.matchingClose start = some close ∧
        ∀ other, (start, other) ∈ text.pairs ↔ other = close) ∧
      (∀ front piece, Piece text front piece → PairsWithin text front piece) ∧
      ∀ level, Stmt.Level text level → (∃ front, Piece text front level) ∧
        ∀ segment ∈ level.segments 0, ∃ front, Piece text front segment.span := by
  have closes := closesAll_of_normalize normal
  obtain ⟨traced, traces, isWhole⟩ := exists_trace normal
  have settled : text.Settled := isWhole ▸ (readsCode_of_trace traces).1
  refine ⟨fun start opens => ?_,
    fun front piece isPiece => (isPiece.cutOut settled).pairsWithin closes,
    fun level => exists_piece_of_level⟩
  obtain ⟨close, found, mem⟩ := exists_partner closes opens
  refine ⟨close, found, fun other => ⟨fun mem' => ?_, fun same => same ▸ mem⟩⟩
  rw [← matchingClose_iff closes opens, found] at mem'
  exact (Option.some.inj mem').symm

/-- Delimiters in a literal behind a character of two bytes, and a brace within a
parenthesis, which cuts it: neither the block nor what follows it nests. -/
theorem delimiters_paired_of_cut_parenthesis :
    ∃ text : Span, normalize "f(a[\"é)\"])\nh(\x7bx\x7d[0])" = .ok text ∧
      (text.segments 0).map (fun segment => segment.span.text) =
        ["f(a[\"é)\"])", "h(\x7bx\x7d", "[0])"] ∧
      text.pairs = [(3, 9), (1, 10), (14, 16), (17, 19), (13, 20)] ∧
      (∀ start, text.OpensAt start → ∃ close, text.matchingClose start = some close ∧
          ∀ other, (start, other) ∈ text.pairs ↔ other = close) ∧
        (∀ front piece, Piece text front piece → PairsWithin text front piece) ∧
        ∀ level, Stmt.Level text level → (∃ front, Piece text front level) ∧
          ∀ segment ∈ level.segments 0, ∃ front, Piece text front segment.span := by
  have normal : normalize "f(a[\"é)\"])\nh(\x7bx\x7d[0])" = .ok _ := rfl
  exact ⟨_, normal, by decide +kernel, by decide +kernel, delimiters_paired normal⟩

end Span

end RoutineScript
