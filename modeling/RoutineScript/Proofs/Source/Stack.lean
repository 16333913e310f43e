/-
The stack of open delimiters, and the pairs that it finds in a text.

A stack of all three kinds of delimiters is what tells which delimiter closes
which: one that opens is put on it, one that closes is paired with the innermost
one, and literals show it nothing. `Span.pairs` is this stack, and it takes any
text, whether its delimiters nest or not.

What it pairs in a piece of a text does not depend on the rest. What was open in
front of the piece lies below all that the piece opens, and no pair of the
piece reaches down to it (`mem_pairs_iff_of_cut`). In a text that nests
(`ClosesAll`) no delimiter is passed over.
-/
import RoutineScript.Proofs.Source.Literals

namespace RoutineScript

namespace Span

-- ================================================================= the stack

/-- Delimiters that are open, innermost first, each with the byte offset at
which it stands. -/
abbrev Opened := List (Nat × Char)

/-- What a stack of open delimiters makes of a character at an offset: the pair
that the character completes, if it closes the innermost of them, and what is
open behind it. In a literal no character counts, and a delimiter that does not
close the innermost open one is passed over. -/
def meet : Quote → Opened → Nat → Char → Option (Nat × Nat) × Opened
  | .inside .., opened, _, _ => (none, opened)
  | .outside, opened, place, c =>
    if (closerOf? c).isSome then (none, (place, c) :: opened)
    else
      match opened with
      | [] => (none, [])
      | (start, opener) :: outer =>
        if closerOf? opener == some c then (some (start, place), outer) else (none, opened)

/-- The pairs that a stack finds in a text which begins at an offset. -/
def pairsFrom : Quote → Opened → Nat → Span → List (Nat × Nat)
  | _, _, _, [] => []
  | q, opened, place, c :: rest =>
    (meet q opened place c.val).1.toList ++
      pairsFrom (q.step c.val) (meet q opened place c.val).2 (place + c.val.utf8Size) rest

/-- The pairs of delimiters of a text, each as the byte offsets of the two, as a
stack of all three kinds finds them. -/
def pairs (text : Span) : List (Nat × Nat) :=
  pairsFrom .outside [] 0 text

/-- A delimiter opens at a byte offset of a text, and stands outside of its
literals. -/
def OpensAt (text : Span) (place : Nat) : Prop :=
  ∃ (front : Span) (opener : Located Char) (rest : Span), text = front ++ opener :: rest ∧
    front.bytes = place ∧ front.Settled ∧ (closerOf? opener.val).isSome = true

/-- What can come of a character that a stack meets. -/
inductive Meets (q : Quote) (opened : Opened) (place : Nat) (c : Char) :
    Option (Nat × Nat) × Opened → Prop where
  | passes : (q = .outside → closerOf? c = none) →
      (∀ start opener outer, q = .outside → opened = (start, opener) :: outer →
        closerOf? opener ≠ some c) → Meets q opened place c (none, opened)
  | opens {closer : Char} : q = .outside → closerOf? c = some closer →
      Meets q opened place c (none, (place, c) :: opened)
  | closes {start : Nat} {opener : Char} {outer : Opened} :
      q = .outside → opened = (start, opener) :: outer → closerOf? opener = some c →
        Meets q opened place c (some (start, place), outer)

variable {q : Quote} {opened outer : Opened} {place start close : Nat} {c opener closer : Char}
  {text front behind piece : Span}

theorem meet_opener (pair : closerOf? c = some closer) :
    meet .outside opened place c = (none, (place, c) :: opened) := by
  cases opened <;> simp [meet, pair]

theorem meet_closer (pair : closerOf? opener = some c) :
    meet .outside ((start, opener) :: outer) place c = (some (start, place), outer) := by
  simp [meet, pair, closerOf?_closer pair]

theorem meets (q : Quote) (opened : Opened) (place : Nat) (c : Char) :
    Meets q opened place c (meet q opened place c) := by
  cases q with
  | inside => exact .passes nofun nofun
  | outside =>
    cases pair : closerOf? c with
    | some closer =>
      rw [meet_opener pair]
      exact .opens rfl pair
    | none =>
      rcases opened with _ | ⟨⟨start, opener⟩, outer⟩
      · have nothing : meet .outside [] place c = (none, []) := by simp [meet, pair]
        rw [nothing]
        exact .passes (fun _ => pair) fun _ _ _ _ same => by cases same
      · by_cases closes : closerOf? opener = some c
        · rw [meet_closer closes]
          exact .closes rfl rfl closes
        · have other : meet .outside ((start, opener) :: outer) place c =
              (none, (start, opener) :: outer) := by simp [meet, pair, closes]
          rw [other]
          refine .passes (fun _ => pair) fun _ _ _ _ same => ?_
          cases same
          exact closes

/-- What is open behind a character was open before, or it is the character. -/
theorem mem_meet {entry : Nat × Char} (mem : entry ∈ (meet q opened place c).2) :
    entry ∈ opened ∨ entry.1 = place := by
  have met := meets q opened place c
  generalize meet q opened place c = result at met mem
  cases met with
  | passes => exact .inl mem
  | opens => exact (List.mem_cons.1 mem).symm.imp_right fun own => by rw [own]
  | closes _ isOpened => exact .inl (isOpened ▸ List.mem_cons_of_mem _ mem)

/-- What is open behind a text. -/
def openedBehind : Quote → Opened → Nat → Span → Opened
  | _, opened, _, [] => opened
  | q, opened, place, c :: rest =>
    openedBehind (q.step c.val) (meet q opened place c.val).2 (place + c.val.utf8Size) rest

theorem mem_openedBehind {entry : Nat × Char} (mem : entry ∈ openedBehind q opened place text) :
    entry ∈ opened ∨ place ≤ entry.1 ∧ entry.1 < place + text.bytes := by
  induction text generalizing q opened place with
  | nil => exact .inl mem
  | cons c rest ih =>
    have positive := c.val.utf8Size_pos
    rw [bytes]
    rcases ih mem with before | within
    · rcases mem_meet before with before | here
      · exact .inl before
      · exact .inr ⟨by omega, by omega⟩
    · exact .inr ⟨by omega, by omega⟩

/-- A stack that goes through a text goes through what follows with what is open
behind the text. -/
theorem pairsFrom_append (q : Quote) (opened : Opened) (place : Nat) (front text : Span) :
    pairsFrom q opened place (front ++ text) = pairsFrom q opened place front ++
      pairsFrom (q.past front.chars) (openedBehind q opened place front) (place + front.bytes)
        text := by
  induction front generalizing q opened place with
  | nil => rfl
  | cons c front ih =>
    rw [List.cons_append, pairsFrom, pairsFrom, ih, List.append_assoc, bytes, chars_cons,
      Quote.past_cons, openedBehind, Nat.add_assoc]

/-- A pair ends within the text, and it begins there or with what was open. -/
theorem bounds_of_mem (mem : (start, close) ∈ pairsFrom q opened place text) :
    place ≤ close ∧ close < place + text.bytes ∧
      ((∃ opener, (start, opener) ∈ opened) ∨ place ≤ start) := by
  induction text generalizing q opened place with
  | nil => cases mem
  | cons c rest ih =>
    have positive := c.val.utf8Size_pos
    rw [pairsFrom] at mem
    rw [bytes]
    rcases List.mem_append.1 mem with here | later
    · have met := meets q opened place c.val
      generalize meet q opened place c.val = result at met here
      cases met with
      | passes => cases here
      | opens => cases here
      | @closes start' opener outer _ isOpened =>
        obtain ⟨rfl, rfl⟩ := Prod.mk.inj (List.mem_singleton.1 here)
        exact ⟨Nat.le_refl _, by omega, .inl ⟨opener, isOpened ▸ List.mem_cons_self⟩⟩
    · obtain ⟨lower, upper, begins⟩ := ih later
      refine ⟨by omega, by omega, ?_⟩
      rcases begins with ⟨opener, before⟩ | behind
      · rcases mem_meet before with before | same
        · exact .inl ⟨opener, before⟩
        · exact .inr (Nat.le_of_eq same.symm)
      · exact .inr (by omega)

/-- The places of the open delimiters descend, from a place behind them. -/
def Descends (opened : Opened) (place : Nat) : Prop :=
  (place :: opened.map Prod.fst).Pairwise (· > ·)

theorem Descends.meet (descends : Descends opened place) (q : Quote) (c : Char) :
    Descends (meet q opened place c).2 (place + c.utf8Size) := by
  have positive := c.utf8Size_pos
  obtain ⟨before, others⟩ := List.pairwise_cons.1 descends
  have met := meets q opened place c
  generalize Span.meet q opened place c = result at met
  cases met with
  | passes =>
    refine List.pairwise_cons.2 ⟨fun start mem => ?_, others⟩
    have := before start mem
    omega
  | opens =>
    refine List.pairwise_cons.2 ⟨List.forall_mem_cons.2 ⟨by omega, fun start mem => ?_⟩, descends⟩
    have := before start mem
    omega
  | closes _ isOpened =>
    subst isOpened
    refine List.pairwise_cons.2 ⟨fun start mem => ?_, (List.pairwise_cons.1 others).2⟩
    have := before start (List.mem_cons_of_mem _ mem)
    omega

/-- What has been closed is open no more. -/
theorem not_mem_of_met (descends : Descends opened place)
    (met : (meet q opened place c).1 = some (start, close)) {later : Nat} :
    (start, later) ∉ pairsFrom (q.step c) (meet q opened place c).2 (place + c.utf8Size) text := by
  intro again
  have outcome := meets q opened place c
  generalize meet q opened place c = result at outcome met again
  cases outcome with
  | passes => cases met
  | opens => cases met
  | closes _ isOpened =>
    cases met
    subst isOpened
    obtain ⟨before, others⟩ := List.pairwise_cons.1 descends
    rcases (bounds_of_mem again).2.2 with ⟨opener, isOpen⟩ | behind
    · have := (List.pairwise_cons.1 others).1 start (List.mem_map_of_mem isOpen)
      omega
    · have := before start List.mem_cons_self
      omega

/-- **A delimiter has one partner at most.** -/
theorem close_unique {close' : Nat} (descends : Descends opened place)
    (mem : (start, close) ∈ pairsFrom q opened place text)
    (mem' : (start, close') ∈ pairsFrom q opened place text) : close = close' := by
  induction text generalizing q opened place with
  | nil => cases mem
  | cons c rest ih =>
    rw [pairsFrom, List.mem_append, Option.mem_toList] at mem mem'
    rcases mem with here | later <;> rcases mem' with here' | later'
    · exact (Prod.mk.inj (Option.some.inj (here.symm.trans here'))).2
    · exact absurd later' (not_mem_of_met descends here)
    · exact absurd later (not_mem_of_met descends here')
    · exact ih (descends.meet q c.val) later later'

-- ================================================================ in a piece

/-- Open delimiters of a piece of a text that begins at an offset. -/
def shift (offset : Nat) (opened : Opened) : Opened :=
  opened.map fun entry => (offset + entry.1, entry.2)

/-- A stack does the same to a character whatever lies below, except that what
lies below may be closed when nothing else is open. -/
theorem meet_shift (offset : Nat) (q : Quote) (opened outer : Opened) (place : Nat) (c : Char)
    (before : ∀ entry ∈ outer, entry.1 < offset) :
    ∃ outer', (∀ entry ∈ outer', entry ∈ outer) ∧
      (meet q (shift offset opened ++ outer) (offset + place) c).2 =
        shift offset (meet q opened place c).2 ++ outer' ∧
      ∀ start close, (offset + start, offset + close) ∈
          (meet q (shift offset opened ++ outer) (offset + place) c).1.toList ↔
        (start, close) ∈ (meet q opened place c).1.toList := by
  have met := meets q opened place c
  generalize meet q opened place c = result at met
  cases met with
  | opens isOutside pair =>
    subst isOutside
    rw [meet_opener pair]
    exact ⟨outer, fun _ mem => mem, rfl, by simp⟩
  | @closes start opener inner isOutside isOpened pair =>
    subst isOutside isOpened
    have both : meet .outside (shift offset ((start, opener) :: inner) ++ outer) (offset + place) c =
        (some (offset + start, offset + place), shift offset inner ++ outer) := meet_closer pair
    rw [both]
    exact ⟨outer, fun _ mem => mem, rfl, by simp⟩
  | passes noOpener noCloser =>
    have below := meets q (shift offset opened ++ outer) (offset + place) c
    generalize meet q (shift offset opened ++ outer) (offset + place) c = result at below
    cases below with
    | passes =>
      exact ⟨outer, fun _ mem => mem, rfl, fun _ _ => iff_of_false List.not_mem_nil List.not_mem_nil⟩
    | opens isOutside pair =>
      rw [noOpener isOutside] at pair
      cases pair
    | @closes lower opener outer' isOutside isOpened pair =>
      cases opened with
      | cons innermost opened =>
        obtain ⟨isInnermost, -⟩ := List.cons.inj isOpened
        cases isInnermost
        exact absurd pair (noCloser _ _ _ isOutside rfl)
      | nil =>
        obtain rfl : outer = (lower, opener) :: outer' := isOpened
        have isBelow := before (lower, opener) List.mem_cons_self
        refine ⟨outer', fun _ mem => List.mem_cons_of_mem _ mem, rfl, fun start close => ?_⟩
        refine iff_of_false (fun mem => ?_) List.not_mem_nil
        have isLower : offset + start = lower := (Prod.mk.inj (List.mem_singleton.1 mem)).1
        omega

/-- What a stack pairs in a piece does not depend on what was open in front of
it. -/
theorem mem_pairsFrom_shift (offset : Nat) (q : Quote) (opened : Opened) (place : Nat) (text : Span)
    (before : ∀ entry ∈ outer, entry.1 < offset) :
    (offset + start, offset + close) ∈
        pairsFrom q (shift offset opened ++ outer) (offset + place) text ↔
      (start, close) ∈ pairsFrom q opened place text := by
  induction text generalizing q opened outer place with
  | nil => exact iff_of_false List.not_mem_nil List.not_mem_nil
  | cons c rest ih =>
    obtain ⟨outer', sub, isBehind, here⟩ := meet_shift offset q opened outer place c.val before
    rw [pairsFrom, pairsFrom, List.mem_append, List.mem_append, here, isBehind, Nat.add_assoc,
      ih _ _ _ fun entry mem => before entry (sub entry mem)]

/-- **A stack pairs in a piece of a text what it pairs there in the whole**, if
the piece begins outside of literals. -/
theorem mem_pairs_iff_of_cut (whole : text = front ++ (piece ++ behind)) (settled : front.Settled)
    (start close : Nat) :
    (start, close) ∈ piece.pairs ↔
      close < piece.bytes ∧ (front.bytes + start, front.bytes + close) ∈ text.pairs := by
  have inPiece : (front.bytes + start, front.bytes + close) ∈
      pairsFrom .outside (openedBehind .outside [] 0 front) front.bytes piece ↔
        (start, close) ∈ piece.pairs :=
    mem_pairsFrom_shift front.bytes .outside [] 0 piece fun entry mem => by
      rcases mem_openedBehind mem with before | within
      · cases before
      · omega
  have isPairs : text.pairs = pairsFrom .outside [] 0 front ++
      (pairsFrom .outside (openedBehind .outside [] 0 front) front.bytes piece ++
        pairsFrom (Quote.outside.past piece.chars)
          (openedBehind .outside (openedBehind .outside [] 0 front) front.bytes piece)
          (front.bytes + piece.bytes) behind) := by
    rw [pairs, whole, pairsFrom_append, pairsFrom_append, Nat.zero_add, settled]
  rw [isPairs, List.mem_append, List.mem_append, inPiece]
  constructor
  · intro mem
    have bounds := (bounds_of_mem mem).2.1
    exact ⟨by omega, .inr (.inl mem)⟩
  · rintro ⟨inside, inFront | within | inBehind⟩
    · have bounds := (bounds_of_mem inFront).2.1
      omega
    · exact within
    · have bounds := (bounds_of_mem inBehind).1
      omega

-- ========================================================== in a nested text

/-- A text closes what is open in front of it, in turn, and all that it opens. -/
def ClosesAll (q : Quote) (opened : Opened) (text : Span) : Prop :=
  ∃ marks, outline? false (.ofQuote q) text.chars = some marks ∧
    unwind (opened.map Prod.snd) marks = some []

theorem shows_of_isDelimiter (delimiter : isDelimiter c = true) :
    Quote.outside.shows c = [c] := by
  simp [Quote.shows, marksOf, delimiter]

theorem ClosesAll.exists_tail {c : Located Char} (closes : ClosesAll q opened (c :: text)) :
    ∃ marks, outline? false (.ofQuote (q.step c.val)) text.chars = some marks ∧
      unwind (opened.map Prod.snd) (q.shows c.val ++ marks) = some [] := by
  obtain ⟨marks, outline, unwinds⟩ := closes
  rw [chars_cons, outline?_cons (allows_of_outline outline)] at outline
  obtain ⟨tail, outline', rfl⟩ := Option.map_eq_some_iff.1 outline
  exact ⟨tail, outline', unwinds⟩

/-- Where all is closed in turn, the stack passes over no delimiter. -/
theorem ClosesAll.shows_eq_nil {c : Located Char} (closes : ClosesAll q opened (c :: text))
    (noOpener : q = .outside → closerOf? c.val = none)
    (noCloser : ∀ start opener outer, q = .outside → opened = (start, opener) :: outer →
      closerOf? opener ≠ some c.val) : q.shows c.val = [] := by
  cases q with
  | inside => rfl
  | outside =>
    cases delimiter : isDelimiter c.val with
    | false => exact marksOf_eq_nil delimiter
    | true =>
      obtain ⟨marks, -, unwinds⟩ := closes.exists_tail
      rw [shows_of_isDelimiter delimiter] at unwinds
      rcases unwind_cons_cases unwinds with ⟨closer, pair, -⟩ | ⟨opener, others, isOpened, pair, -⟩
      · rw [noOpener rfl] at pair
        cases pair
      · obtain ⟨⟨start, opener'⟩, outer, rfl, rfl, -⟩ := List.map_eq_cons_iff.1 isOpened
        exact absurd pair (noCloser start opener' outer rfl rfl)

/-- The stack keeps what the rest of the text has to close. -/
theorem ClosesAll.meet {c : Located Char} (closes : ClosesAll q opened (c :: text)) (place : Nat) :
    ClosesAll (q.step c.val) (meet q opened place c.val).2 text := by
  obtain ⟨marks, outline, unwinds⟩ := closes.exists_tail
  refine ⟨marks, outline, ?_⟩
  have met := meets q opened place c.val
  generalize Span.meet q opened place c.val = result at met
  cases met with
  | passes noOpener noCloser =>
    rwa [closes.shows_eq_nil noOpener noCloser] at unwinds
  | opens isOutside pair =>
    subst isOutside
    rw [shows_of_isDelimiter (isDelimiter_of_closerOf? pair).1] at unwinds
    exact (unwind_opener pair).symm.trans unwinds
  | closes isOutside isOpened pair =>
    subst isOutside isOpened
    rw [shows_of_isDelimiter (isDelimiter_of_closerOf? pair).2] at unwinds
    exact (unwind_closer pair).symm.trans unwinds

theorem ClosesAll.right (closes : ClosesAll q opened (front ++ text)) (place : Nat) :
    ClosesAll (q.past front.chars) (openedBehind q opened place front) text := by
  induction front generalizing q opened place with
  | nil => exact closes
  | cons c front ih => exact ih (closes.meet place) _

theorem closesAll_of_normalize {source : String} (normal : normalize source = .ok text) :
    ClosesAll .outside [] text := by
  obtain ⟨marks, -, nests, output⟩ := exists_outline_of_normalize normal
  exact ⟨marks, (output false).read, dyck_iff.1 nests⟩

end Span

end RoutineScript
