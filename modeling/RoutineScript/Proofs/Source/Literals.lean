/-
Where literals stand: along a text, and in the source it was given off from.

A scan that carries a `Quote` along knows at each character whether it is in
a literal. What it knows behind some characters is a function of these
characters alone (`Quote.past`). So two scans that begin outside of literals
agree on every character, and a piece of a text can be scanned by itself
where no literal is open in front of it (`Span.Settled`).

# The argument

Every search cuts where no literal is open (`Span.settled_of_splitWhere`), so
what it cuts off is settled, and with the whole text also what it leaves. A
layout is in a literal exactly when the characters that it has given off are:
what it gives off for one character takes their `Quote` to its own
(`Layout.Keeps`), and comments, blanks and line ends give off nothing that
quotes. The trace of a normalized text says of each character where in the
source it comes from, and so whether it is read there as part of a literal
(`Span.readsCode_of_trace`).
-/
import RoutineScript.Proofs.Offsets.Segments
import RoutineScript.Proofs.Source.Origins
import RoutineScript.Proofs.Source.Scans

namespace RoutineScript

-- ============================================================== along a text

namespace Quote

/-- What is known behind some characters. -/
def past (q : Quote) (text : List Char) : Quote :=
  text.foldl step q

variable {q : Quote} {c : Char} {text : List Char}

@[simp] theorem past_nil (q : Quote) : q.past [] = q :=
  rfl

@[simp] theorem past_cons (q : Quote) (c : Char) (text : List Char) :
    q.past (c :: text) = (q.step c).past text :=
  rfl

@[simp] theorem past_append (q : Quote) (front text : List Char) :
    q.past (front ++ text) = (q.past front).past text :=
  List.foldl_append

theorem step_outside (noMark : isMark c = false) : outside.step c = outside := by
  rw [step, noMark]
  rfl

theorem legal_past (legal : ByOffset.Legal q) (text : List Char) : ByOffset.Legal (q.past text) := by
  induction text generalizing q with
  | nil => exact legal
  | cons c text ih => exact ih (legal.step c)

/-- What does not quote opens no literal. -/
theorem past_outside (noMarks : ∀ c ∈ text, isMark c = false) : outside.past text = outside := by
  induction text with
  | nil => rfl
  | cons c text ih =>
    obtain ⟨noMark, noMarks⟩ := List.forall_mem_cons.1 noMarks
    rw [past_cons, step_outside noMark, ih noMarks]

/-- What does not quote closes no literal. -/
theorem eq_outside_of_past (noMarks : ∀ c ∈ text, isMark c = false)
    (legal : ByOffset.Legal q) (closed : q.past text = outside) : q = outside := by
  induction text generalizing q with
  | nil => exact closed
  | cons c text ih =>
    obtain ⟨noMark, noMarks⟩ := List.forall_mem_cons.1 noMarks
    have closed' := ih noMarks (legal.step c) closed
    cases q with
    | outside => rfl
    | inside quote escaped =>
      exfalso
      cases escaped with
      | true => cases closed'
      | false =>
        rw [step] at closed'
        split at closed'
        · cases closed'
        · split at closed'
          · next ends =>
            rw [beq_iff_eq.1 ends, legal quote false rfl] at noMark
            cases noMark
          · cases closed'

end Quote


namespace Span

variable {text front before after : Span}

/-- No literal is open behind a text that begins outside of literals. -/
def Settled (text : Span) : Prop :=
  Quote.outside.past text.chars = .outside

theorem settled_of_plain (noMarks : ∀ c ∈ text, Quote.isMark c.val = false) : text.Settled :=
  Quote.past_outside fun c mem => by
    obtain ⟨d, mem', rfl⟩ := List.mem_map.1 mem
    exact noMarks d mem'

theorem settled_of_delimiter {c : Located Char} (delimiter : isDelimiter c.val = true) :
    Settled [c] :=
  settled_of_plain fun d mem => by
    rw [List.mem_singleton.1 mem]
    exact (ne_of_isDelimiter delimiter).2.2

theorem past_append_of_settled (settled : front.Settled) (text : List Char) :
    Quote.outside.past (front.chars ++ text) = Quote.outside.past text := by
  rw [Quote.past_append, settled]

/-- Behind a settled text another one is settled when both are together. -/
theorem settled_append_iff (settled : front.Settled) : (front ++ text).Settled ↔ text.Settled := by
  rw [Settled, chars_append, past_append_of_settled settled, Settled]

theorem Settled.append (settled : front.Settled) (settled' : text.Settled) :
    (front ++ text).Settled :=
  (settled_append_iff settled).2 settled'

theorem Settled.right (settled : (front ++ text).Settled) (settled' : front.Settled) :
    text.Settled :=
  (settled_append_iff settled').1 settled

/-- A search that carries a quote along, and stops only outside of literals,
cuts where no literal is open. -/
theorem settled_of_splitWhere {σ : Type} {advance : σ → Char → σ} {stops : σ → Char → Bool}
    {s : σ} (quote : σ → Quote) (follows : ∀ s c, quote (advance s c) = (quote s).step c)
    (outside : ∀ s c, stops s c = true → quote s = .outside)
    (cut : splitWhere advance stops s text = some (before, after)) :
    (quote s).past before.chars = .outside := by
  induction text generalizing s before with
  | nil => cases cut
  | cons c rest ih =>
    rw [splitWhere] at cut
    split at cut
    · next stop =>
      cases cut
      exact outside s c.val stop
    · obtain ⟨⟨before', after'⟩, cut', same⟩ := Option.map_eq_some_iff.1 cut
      cases same
      have behind := ih cut'
      rw [follows] at behind
      exact behind

theorem settled_of_splitUnquoted {target : Char}
    (cut : text.splitUnquoted target = some (before, after)) : before.Settled :=
  settled_of_splitWhere id (fun _ _ => rfl) (fun q c stop => by
    rw [Bool.and_eq_true, beq_iff_eq] at stop
    exact stop.1) cut

theorem settled_of_splitBoundary (cut : text.splitBoundary = some (before, after)) :
    before.Settled :=
  settled_of_splitWhere Prod.fst (fun (q, depth) c => by cases q <;> rfl)
    (fun (q, depth) c stop => by
      rw [Bool.and_eq_true, beq_iff_eq] at stop
      exact stop.1) cut

theorem settled_of_splitClosing (cut : text.splitClosing = some (before, after)) :
    before.Settled := by
  unfold splitClosing at cut
  split at cut
  · cases cut
  · split at cut
    · cases cut
    · refine settled_of_splitWhere Prod.fst ?_ ?_ cut
      · rintro ⟨q, depth⟩ c
        cases q <;> rfl
      · rintro ⟨q, depth⟩ c stop
        rw [Bool.and_eq_true, Bool.and_eq_true, beq_iff_eq] at stop
        exact stop.1.1

/-- What is enclosed is settled, and stands between two delimiters. -/
theorem exists_settled_of_enclosed? {body : Span}
    (enclosed : text.enclosed? = some (body, after)) :
    ∃ opener closer : Located Char, text = opener :: (body ++ closer :: after) ∧
      isDelimiter opener.val = true ∧ isDelimiter closer.val = true ∧ body.Settled := by
  obtain ⟨opener, closer, rfl, -, -, closes⟩ := ByOffset.exists_of_enclosed? enclosed
  have settled : Settled ([opener] ++ body) := settled_of_splitClosing closes
  cases pair : closerOf? opener.val with
  | none => simp only [splitClosing, pair, reduceCtorEq] at closes
  | some mark =>
    simp only [splitClosing, pair] at closes
    obtain ⟨state, d, tail, same, stops⟩ := ByOffset.exists_stop_of_splitWhere closes
    obtain ⟨rfl, rfl⟩ := List.cons.inj same
    simp only [Bool.and_eq_true, beq_iff_eq] at stops
    obtain ⟨opens, closes'⟩ := isDelimiter_of_closerOf? pair
    have isCloser : isDelimiter closer.val = true := by rw [stops.1.2, closes']
    exact ⟨opener, closer, rfl, opens, isCloser, settled.right (settled_of_delimiter opens)⟩

/-- Terminators at the end of a settled text stand outside of literals. -/
theorem settled_of_terminators (settled : (front ++ text).Settled)
    (terminators : ∀ c ∈ text, c.val = ';') : front.Settled := by
  rw [Settled, chars_append, Quote.past_append] at settled
  refine Quote.eq_outside_of_past (fun c mem => ?_) (Quote.legal_past .outside _) settled
  obtain ⟨d, mem', rfl⟩ := List.mem_map.1 mem
  rw [terminators d mem']
  rfl

end Span

-- =============================================================== in a source

/-- What a scan of the output knows while this is read. -/
def Reading.quote : Reading → Quote
  | code | comment => .outside
  | literal quote escaped => .inside quote escaped

namespace Layout

variable {layout layout' : Layout} {given : Span} {c : Char} {opened : Span}

/-- The layout behind some characters of a source. -/
def past (layout : Layout) (source : List Char) : Except Fault Layout :=
  source.foldlM (fun layout c => (layout.step c).map Prod.snd) layout

theorem past_append (layout : Layout) (front behind : List Char) :
    layout.past (front ++ behind) = layout.past front >>= fun layout => layout.past behind :=
  List.foldlM_append

theorem quote_ofQuote (q : Quote) : (Reading.ofQuote q).quote = q := by
  cases q <;> rfl

/-- What is given off takes the quote from one layout to the next, and all of
it stands where the first of it does. -/
structure Keeps (layout : Layout) (given : Span) (layout' : Layout) : Prop where
  past : layout.reading.quote.past given.chars = layout'.reading.quote
  same : ∀ (front : Span) t rest, given = front ++ t :: rest →
    layout.reading.quote.past front.chars = layout.reading.quote

/-- What does not quote keeps a layout outside of literals. -/
theorem keeps_plain (isCode : layout.reading.quote = .outside)
    (isCode' : layout'.reading.quote = .outside)
    (noMarks : ∀ t ∈ given, Quote.isMark t.val = false) : layout.Keeps given layout' where
  past := by rw [isCode, isCode', Span.settled_of_plain noMarks]
  same front t rest isGiven := by
    rw [isCode]
    exact Span.settled_of_plain fun d mem =>
      noMarks d (isGiven ▸ List.mem_append_left _ mem)

theorem keeps_singleton {t : Located Char}
    (steps : layout.reading.quote.step t.val = layout'.reading.quote) :
    layout.Keeps [t] layout' where
  past := steps
  same front t rest one := by
    cases front with
    | nil => rfl
    | cons => simp at one

theorem keeps_give (isCode : layout.reading.quote = .outside) (noMark : Quote.isMark c = false)
    (gives : layout.give c = .ok (given, layout')) : layout.Keeps given layout' := by
  cases delimits : layout.delimit c with
  | error fault =>
    rw [give, delimits] at gives
    cases gives
  | ok opened =>
    rw [give_of_delimit_eq delimits] at gives
    cases gives
    refine keeps_plain isCode isCode fun t mem => ?_
    rcases List.mem_append.1 mem with space | own
    · split at space
      · rw [List.mem_singleton.1 space]
        rfl
      · cases space
    · rw [List.mem_singleton.1 own]
      exact noMark

theorem keeps_stepCode (isCode : layout.reading.quote = .outside)
    (steps : layout.stepCode c = .ok (given, layout')) : layout.Keeps given layout' := by
  have kind := layout.codeStep c
  rw [steps] at kind
  cases kind with
  | lineEnd _ _ _ gives =>
    rcases gives with rfl | rfl
    · exact keeps_plain isCode rfl nofun
    · exact keeps_singleton (by rw [isCode]; rfl)
  | blank => exact keeps_plain isCode rfl nofun
  | comment => exact keeps_plain isCode rfl nofun
  | quote isMark => exact keeps_singleton (by rw [isCode, Quote.step, isMark]; rfl)
  | give _ _ noMark gives =>
    have keeps := keeps_give rfl noMark gives
    exact ⟨isCode ▸ keeps.past, isCode ▸ keeps.same⟩

/-- **A layout is in a literal exactly when what it has given off is.** -/
theorem keeps_step (steps : layout.step c = .ok (given, layout')) : layout.Keeps given layout' := by
  rw [step] at steps
  cases reading : layout.reading with
  | code =>
    rw [reading] at steps
    exact keeps_stepCode (by rw [reading]; rfl) steps
  | comment =>
    rw [reading] at steps
    simp only at steps
    split at steps
    · exact keeps_stepCode (by rw [reading]; rfl) steps
    · cases steps
      have isCode : layout.reading.quote = .outside := by rw [reading]; rfl
      exact keeps_plain isCode isCode fun t mem => absurd mem List.not_mem_nil
  | literal quote escaped =>
    rw [reading] at steps
    simp only [stepLiteral_eq] at steps
    split at steps
    · cases steps
    · cases steps
      exact keeps_singleton (by rw [reading, quote_ofQuote]; rfl)

/-- A layout at the end has no literal open. -/
theorem quote_of_finish (ends : layout.finish = .ok ()) : layout.reading.quote = .outside := by
  rw [finish] at ends
  split at ends
  · cases ends
  · next isCode => rw [isCode]; rfl
  · next isComment => rw [isComment]; rfl

end Layout

namespace Span

/-- A place of a source is read outside of literals. -/
def readsCode (source : List Char) (place : Nat) : Bool :=
  match Layout.start.past (source.take place) with
  | .ok layout => layout.reading.quote == .outside
  | .error _ => false

variable {layout : Layout} {before rest : List Char} {traced front behind : List Traced} {t : Traced}

theorem readsCode_append (reached : Layout.start.past before = .ok layout) (rest : List Char) :
    readsCode (before ++ rest) before.length = (layout.reading.quote == .outside) := by
  rw [readsCode, List.take_left, reached]

/-- One more character of the source. -/
theorem past_snoc {layout' : Layout} {c : Char} {given : Span}
    (reached : Layout.start.past before = .ok layout) (steps : layout.step c = .ok (given, layout')) :
    Layout.start.past (before ++ [c]) = .ok layout' := by
  have own : layout.past [c] = .ok layout' := by
    rw [Layout.past, List.foldlM_cons, steps]
    rfl
  rw [Layout.past_append, reached, ← own]
  rfl

/-- A trace that a layout takes from a source is outside of literals where the
source is read outside of literals, and it ends so. -/
theorem quotes_of_trace (reached : Layout.start.past before = .ok layout)
    (traces : layout.trace before.length rest = .ok traced) :
    layout.reading.quote.past (chars (traced.map Traced.char)) = .outside ∧
      ∀ front t behind, traced = front ++ t :: behind →
        readsCode (before ++ rest) t.place =
          (layout.reading.quote.past (chars (front.map Traced.char)) == .outside) := by
  induction rest generalizing layout before traced with
  | nil =>
    rw [Layout.trace] at traces
    cases ends : layout.finish with
    | error fault =>
      rw [ends] at traces
      cases traces
    | ok =>
      rw [ends] at traces
      cases traces
      exact ⟨Layout.quote_of_finish ends, by simp⟩
  | cons c rest ih =>
    obtain ⟨given, layout', others, steps, traces', rfl⟩ := Layout.exists_of_trace_cons traces
    have keeps := Layout.keeps_step steps
    have further : (before ++ [c]).length = before.length + 1 := by simp
    obtain ⟨settled, others'⟩ := ih (past_snoc reached steps) (further ▸ traces')
    have own : (given.map (Traced.mk before.length)).map Traced.char = given := by
      rw [List.map_map]
      exact List.map_id' given
    rw [List.append_assoc, List.singleton_append] at others'
    refine ⟨?_, fun front t behind isTraced => ?_⟩
    · rw [List.map_append, own, chars_append, Quote.past_append, keeps.past, settled]
    · rcases List.append_eq_append_iff.1 isTraced with ⟨more, rfl, same⟩ | ⟨more, same, same'⟩
      · rw [others' more t behind same, List.map_append, own, chars_append, Quote.past_append,
          keeps.past]
      · have isGiven : given = front.map Traced.char ++ more.map Traced.char := by
          rw [← own, same, List.map_append]
        cases more with
        | nil =>
          rw [List.map_nil, List.append_nil] at isGiven
          rw [others' [] t behind same'.symm, ← isGiven, keeps.past]
          rfl
        | cons first more =>
          obtain ⟨rfl, rfl⟩ := List.cons.inj same'
          have place : t.place = before.length := by
            have mem : t ∈ given.map (Traced.mk before.length) := by simp [same]
            obtain ⟨_, -, rfl⟩ := List.mem_map.1 mem
            rfl
          rw [place, readsCode_append reached, keeps.same _ _ _ isGiven]

/-- **A character of a normalized text stands in a literal of the text exactly
when its place is read as part of a literal of the source**, and no literal is
open at the end of the text. -/
theorem readsCode_of_trace {source : String} (traces : trace source = .ok traced) :
    Settled (traced.map Traced.char) ∧ ∀ front t behind, traced = front ++ t :: behind →
      readsCode source.toList t.place =
        (Quote.outside.past (chars (front.map Traced.char)) == .outside) := by
  have reached : Layout.start.past [] = .ok Layout.start := rfl
  exact quotes_of_trace reached traces

end Span

end RoutineScript
