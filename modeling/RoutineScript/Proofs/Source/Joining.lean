/-
Two sources, one behind the other.

A line end keeps them apart: unless the second one begins like a part of a
block, each statement of the whole is one of the first source or one of the
second, read as it is there, with the lines of the second raised. So what is
wrong in the one does not change how the other is read.

# The argument

Nothing is open where the first source ends, be it in a comment or behind a
block, so the line end gives off a terminator, and then the second source is
read as from its start, further down (`Span.normalize_join`).

What is cut off the front of a text needs no look at what stands behind a
terminator. Literals and braces that begin in the text end there, because
what is left of an accepted text closes whatever is open in it
(`Span.Closes`); and where the text ends without a terminator, all
parentheses that have opened since are closed, so that the terminator behind
it counts (`Counter.eq_zero_of_closes`). Only a block looks further, for
parts that continue it, which is why the second source must not begin like
one and why no `elseif` may be left waiting for a brace.
-/
import Mathlib.Data.List.TakeWhile
import RoutineScript.Proofs.Source.Lines
import RoutineScript.Proofs.Source.Partners

namespace RoutineScript

-- ============================================================== normalizing

namespace Layout

variable {layout : Layout} {text : List Char} {span : Span}

/-- Nothing is open. -/
structure AtRest (layout : Layout) : Prop where
  opened : layout.opened = []
  reading : layout.reading = .code ∨ layout.reading = .comment

theorem atRest_of_finish (done : layout.finish = .ok ()) : layout.AtRest := by
  obtain ⟨line, opened, gap, afterWord, reading⟩ := layout
  cases reading with
  | literal => cases done
  | code | comment =>
    cases opened with
    | nil => exact ⟨rfl, by simp⟩
    | cons => cases done

/-- A text that can be read alone leaves nothing open. -/
theorem exists_atRest (reads : layout.read text = .ok span) :
    ∃ layout', layout'.AtRest ∧ layout'.line = layout.line + text.count '\n' ∧
      Gives layout text span layout' := by
  induction text generalizing layout span with
  | nil =>
    cases done : layout.finish with
    | error fault =>
      rw [read, done] at reads
      cases reads
    | ok =>
      rw [read, done] at reads
      cases reads
      exact ⟨layout, atRest_of_finish done, rfl, gives_nil layout⟩
  | cons c rest ih =>
    obtain ⟨given, layout', tail, steps, behind, rfl⟩ := exists_of_read_cons reads
    obtain ⟨last, atRest, line, gives⟩ := ih behind
    have keeps := layout.keepsLines_step c
    rw [steps] at keeps
    cases keeps with
    | gives line' =>
      refine ⟨last, atRest, ?_, (gives_singleton steps).append gives⟩
      rw [line, line', List.count_cons]
      by_cases isEnd : c = '\n'
      all_goals simp [isEnd]
      all_goals omega

/-- Behind it a line end gives off a terminator, and a new text begins. -/
theorem AtRest.step_lineEnd (atRest : layout.AtRest) : layout.step '\n' =
    .ok ([⟨layout.line, ';'⟩], start.down layout.line) := by
  obtain ⟨line, opened, gap, afterWord, reading⟩ := layout
  obtain ⟨rfl, rfl | rfl⟩ := atRest
  · simp [step, stepCode, joinsLines, down, start, Nat.add_comm]
  · simp [step, stepCode, joinsLines, down, start, Nat.add_comm]

end Layout

namespace Span

/-- Two sources with a line end between them. -/
theorem normalize_join {a b : String} {first second : Span} (normal : normalize a = .ok first)
    (normal' : normalize b = .ok second) :
    normalize (a ++ "\n" ++ b) =
      let n := 1 + a.toList.count '\n'
      .ok (first ++ ⟨n, ';'⟩ :: second.down n) := by
  obtain ⟨layout, atRest, line, gives⟩ := Layout.exists_atRest normal
  have lineEnd := (gives.append (gives_singleton atRest.step_lineEnd)) b.toList
  rw [Layout.read_down normal', line] at lineEnd
  have text : (a ++ "\n" ++ b).toList = a.toList ++ ['\n'] ++ b.toList := by simp
  rw [normalize, text, lineEnd]
  simp [Except.map, Layout.start]

end Span

-- ================================================================= closing

variable {opened news olds marks front behind : List Char} {depth depth' : Nat}

theorem unwind_append (opened front behind : List Char) :
    unwind opened (front ++ behind) = (unwind opened front).bind (unwind · behind) := by
  induction front generalizing opened with
  | nil => rw [List.nil_append, unwind_nil, Option.bind_some]
  | cons c front ih =>
    cases pair : Span.closerOf? c with
    | some closer => rw [List.cons_append, unwind_opener pair, unwind_opener pair, ih]
    | none =>
      cases opened with
      | nil => simp [unwind, pair]
      | cons opener opened =>
        simp only [List.cons_append, unwind, pair, Option.isSome_none, Bool.false_eq_true, if_false]
        split
        · exact ih opened
        · rfl

/-- Where everything is closed at the end and no brace has opened, a count
that began at nothing ends at nothing: a delimiter that was open before may
close without being counted. -/
theorem Counter.eq_zero_of_closes (closes : unwind (news ++ olds) marks = some [])
    (noBrace : '{' ∉ news) (reaches : boundary.Reaches news.length marks depth) : depth = 0 := by
  induction marks generalizing news olds with
  | nil =>
    rw [unwind_nil, Option.some.injEq, List.append_eq_nil_iff] at closes
    cases reaches
    rw [closes.1]
    rfl
  | cons c marks ih =>
    cases reaches with
    | cons goesOn reaches =>
      rcases unwind_cons_cases closes with
        ⟨closer, pair, unwinds⟩ | ⟨opener, left, same, pair, unwinds⟩
      · have notBrace : c ≠ '{' := by
          rintro rfl
          cases goesOn
        have unwinds' : unwind ((c :: news) ++ olds) marks = some [] := unwinds
        refine ih unwinds'
          (List.not_mem_cons_of_ne_of_not_mem notBrace.symm noBrace) ?_
        rcases closerOf?_cases pair with ⟨rfl, -⟩ | ⟨rfl, -⟩ | ⟨rfl, -⟩
        · exact reaches
        · exact reaches
        · exact absurd rfl notBrace
      · cases news with
        | nil =>
          have unwinds' : unwind ([] ++ left) marks = some [] := unwinds
          refine ih unwinds' List.not_mem_nil ?_
          rcases closerOf?_cases pair with ⟨-, rfl⟩ | ⟨-, rfl⟩ | ⟨-, rfl⟩ <;> exact reaches
        | cons d news =>
          obtain ⟨rfl, rfl⟩ := List.cons.inj same
          rw [List.mem_cons, not_or] at noBrace
          refine ih unwinds noBrace.2 ?_
          rcases closerOf?_cases pair with ⟨rfl, rfl⟩ | ⟨rfl, rfl⟩ | ⟨rfl, -⟩
          · exact reaches
          · exact reaches
          · exact absurd rfl noBrace.1

namespace Span

variable {text before after rest : Span}

/-- A text whose literals close, and which closes whatever is open in front
of it. -/
def Closes (text : Span) : Prop :=
  ∃ marks opened, Outline false text.chars marks ∧ unwind opened marks = some []

theorem closes_of_normalize {source : String} (normal : normalize source = .ok text) :
    text.Closes := by
  obtain ⟨marks, -, nests, outline⟩ := exists_outline_of_normalize normal
  exact ⟨marks, [], outline false, dyck_iff.1 nests⟩

/-- What is left behind a cut outside of literals closes too. -/
theorem Closes.right (closes : (before ++ after).Closes)
    (outside : ∃ marks, Outline false before.chars marks) : after.Closes := by
  obtain ⟨marks, opened, outline, unwinds⟩ := closes
  obtain ⟨front, outline'⟩ := outside
  rw [chars_append] at outline
  obtain ⟨behind, rfl, outline''⟩ := exists_of_outline_append outline outline'
  rw [unwind_append] at unwinds
  obtain ⟨left, -, unwinds⟩ := Option.bind_eq_some_iff.1 unwinds
  exact ⟨behind, left, outline'', unwinds⟩

theorem Closes.skipTerminators (closes : text.Closes) : text.skipTerminators.Closes := by
  obtain ⟨front, same, marks, outline, -⟩ := exists_terminators text
  rw [same] at closes
  exact closes.right ⟨marks, outline⟩

/-- A cut of a counter is made outside of literals. -/
theorem Closes.of_cut {k : Counter} (light : k.Light) (closes : text.Closes)
    (cut : k.cut 0 text = some (before, after)) :
    (∃ marks, Outline false before.chars marks) ∧
      ∃ c rest depth, after = c :: rest ∧ k.stop depth c.val = true := by
  obtain ⟨marks, opened, outline, -⟩ := closes
  obtain ⟨front, -, depth, c, rest, -, outline', -, rfl, -, stops⟩ :=
    Counter.exists_of_cut light outline cut
  exact ⟨⟨front, outline'⟩, c, rest, depth, rfl, stops⟩

/-- A brace that opens a text has its partner there, and what is left behind
that closes. -/
theorem Closes.exists_enclosed {opener : Located Char} (closes : Closes (opener :: text))
    (opens : opener.val = '{') : ∃ body rest, enclosed? (opener :: text) = some (body, rest) ∧
      rest.Closes := by
  cases cut : splitClosing (opener :: text) with
  | none =>
    obtain ⟨marks, opened, outline, unwinds⟩ := closes
    obtain ⟨marks, rfl, -⟩ := exists_of_outline_cons (by rw [opens]; decide) outline
    rw [opens] at outline unwinds
    have pair : closerOf? '{' = some '}' := rfl
    rw [unwind_opener pair] at unwinds
    obtain ⟨inside, behind, closer, rfl, pair, nests, -⟩ := exists_of_unwind_opener unwinds
    cases pair
    rw [splitClosing_eq opens] at cut
    obtain ⟨depth, reaches⟩ :=
      Counter.exists_reaches_of_none (q := .outside) (fun _ => rfl) cut outline.read
    have first : Counter.braces.Reaches 0 ('{' :: inside) 1 :=
      .cons rfl (Counter.braces_of_dyck nests 0)
    cases Counter.Reaches.goesOn (a := '{' :: inside) reaches first
  | some found =>
    obtain ⟨before, braced⟩ := found
    have whole := append_of_splitWhere _ _ (splitClosing_eq opens ▸ cut)
    obtain ⟨outside, closer, rest, depth, rfl, stops⟩ :=
      Closes.of_cut (fun _ => rfl) closes (splitClosing_eq opens ▸ cut)
    simp only [Counter.braces, Bool.and_eq_true, beq_iff_eq] at stops
    refine ⟨before.drop 1, rest, by rw [enclosed?, cut]; rfl, ?_⟩
    rw [← whole] at closes
    have one : ∃ marks, Outline false (Span.chars [closer]) marks :=
      ⟨[closer.val], .delimiter (by rw [stops.1]; decide) .nil⟩
    exact (closes.right outside).right one

-- ================================================================ searching

section

variable {σ : Type} {advance : σ → Char → σ} {stops : σ → Char → Bool} {s : σ}

/-- A search that ends in a text does not see what stands behind. -/
theorem splitWhere_append (cut : splitWhere advance stops s text = some (before, after))
    (behind : Span) : splitWhere advance stops s (text ++ behind) = some (before, after ++ behind) := by
  induction text generalizing s before with
  | nil => cases cut
  | cons c rest ih =>
    rw [splitWhere] at cut
    rw [List.cons_append, splitWhere]
    split at cut
    · next stopped =>
      cases cut
      rw [if_pos stopped, List.cons_append]
    · next goesOn =>
      obtain ⟨⟨before', after'⟩, cut', same⟩ := Option.map_eq_some_iff.1 cut
      cases same
      rw [if_neg goesOn, ih cut']
      rfl

end

theorem enclosed?_append {body : Span} (enclosed : text.enclosed? = some (body, rest))
    (behind : Span) : (text ++ behind).enclosed? = some (body, rest ++ behind) := by
  obtain ⟨⟨before, after⟩, cut, same⟩ := Option.map_eq_some_iff.1 enclosed
  cases same
  have cut' : (text ++ behind).splitClosing = some (before, after ++ behind) := by
    cases text with
    | nil => cases cut
    | cons first text =>
      simp only [splitClosing, List.cons_append] at cut ⊢
      split at cut
      · cases cut
      · exact splitWhere_append cut behind
  have some : after ≠ [] := by
    unfold splitClosing at cut
    split at cut
    · cases cut
    · split at cut
      · cases cut
      · exact ne_nil_of_splitWhere _ _ cut
  obtain ⟨closer, after, rfl⟩ := List.exists_cons_of_ne_nil some
  rw [enclosed?, cut']
  rfl

/-- A search that does not end in a text goes on behind it. -/
theorem cut_append_of_none {k : Counter} (light : k.Light) {q : Quote} {depth : Nat}
    {marks : List Char}
    (none : splitWhere k.advance k.stops (q, depth) text = none)
    (outline : outline? false (.ofQuote q) text.chars = some marks) :
    ∃ depth', k.Reaches depth marks depth' ∧
      ∀ behind, splitWhere k.advance k.stops (q, depth) (text ++ behind) =
        (k.cut depth' behind).map (spanInFront text) := by
  induction text generalizing q depth marks with
  | nil =>
    cases q with
    | outside =>
      cases outline
      exact ⟨depth, .nil depth, fun behind => Option.map_id'.symm⟩
    | inside => cases outline
  | cons c rest ih =>
    rw [splitWhere] at none
    split at none
    · cases none
    · next goesOn =>
      rw [chars_cons, outline?_cons (allows_of_outline outline)] at outline
      obtain ⟨tail, outline', rfl⟩ := Option.map_eq_some_iff.1 outline
      have none' := Option.map_eq_none_iff.1 none
      rw [k.advance_eq] at none'
      obtain ⟨depth', reaches, behind⟩ := ih none' outline'
      refine ⟨depth', Counter.reaches_of_advance light (by simpa using goesOn) reaches, fun text => ?_⟩
      rw [List.cons_append, splitWhere, if_neg goesOn, k.advance_eq, behind]
      exact map_spanInFront_map [c] rest (k.cut depth' text)

variable {t : Located Char} {word : String}

/-- No word reaches beyond a character that is none of its own. -/
theorem startsWith_append_of_not_mem (absent : t.val ∉ word.toList) (behind : Span) :
    (text ++ t :: behind).startsWith word = text.startsWith word := by
  rw [startsWith, startsWith, chars_append, chars_cons]
  generalize word.toList = word at absent
  generalize text.chars = text
  induction text generalizing word with
  | nil =>
    cases word with
    | nil => rfl
    | cons c word =>
      have other : c ≠ t.val := fun same => absent (same ▸ List.mem_cons_self)
      simp [List.isPrefixOf, other]
  | cons d text ih =>
    cases word with
    | nil => rfl
    | cons c word =>
      rw [List.cons_append, List.isPrefixOf, List.isPrefixOf,
        ih word (List.not_mem_of_not_mem_cons absent)]

/-- No word reaches beyond a terminator. -/
theorem startsWith_append (terminator : t.val = ';') (letters : ';' ∉ word.toList) (behind : Span) :
    (text ++ t :: behind).startsWith word = text.startsWith word :=
  startsWith_append_of_not_mem (terminator ▸ letters) behind

-- =========================================================== continuations

/-- A text begins like a part that continues a block. -/
def BeginsPart (text : Span) : Prop :=
  ∃ word ∈ ["elseif(", "else\x7b", "catch\x7b"], text.startsWith word = true

instance (text : Span) : Decidable text.BeginsPart :=
  inferInstanceAs (Decidable (∃ word ∈ _, _))

/-- The brace of a part that continues a block. -/
def brace? (part : Span) : Option Span :=
  if part.startsWith "elseif(" then (part.splitUnquoted '{').map Prod.snd
  else if part.startsWith "else\x7b" then some (part.drop 4)
  else if part.startsWith "catch\x7b" then some (part.drop 5)
  else none

theorem continuation?_eq (text : Span) : text.continuation? =
    text.skipTerminators.brace?.bind fun body => body.enclosed?.map Prod.snd :=
  rfl

variable {part body : Span}

theorem brace?_eq_none (other : ¬ part.BeginsPart) : part.brace? = none := by
  simp only [BeginsPart, List.mem_cons, List.not_mem_nil, or_false, exists_eq_or_imp, exists_eq_left,
    not_or] at other
  rw [brace?, if_neg other.1, if_neg other.2.1, if_neg other.2.2]

/-- A part without a brace is an `elseif` that waits for one. -/
theorem waits_of_brace?_eq_none (begins : part.BeginsPart) (none : part.brace? = none) :
    part.startsWith "elseif(" = true ∧ part.splitUnquoted '{' = .none := by
  rw [brace?] at none
  split at none
  · next waits => exact ⟨waits, Option.map_eq_none_iff.1 none⟩
  · next other =>
    exfalso
    simp only [BeginsPart, List.mem_cons, List.not_mem_nil, or_false, exists_eq_or_imp,
      exists_eq_left] at begins
    split at none
    · cases none
    · split at none
      · cases none
      · simp_all

/-- The brace of a part is that of a text that closes. -/
theorem Closes.of_brace? (closes : part.Closes) (braced : part.brace? = some body) :
    ∃ opener rest, body = opener :: rest ∧ opener.val = '{' ∧ body.Closes := by
  have fixed : ∀ {count : Nat}, Balanced false (chars (part.take count)) →
      (part.drop count).head?.any (·.val == '{') = true →
        ∃ opener rest, part.drop count = opener :: rest ∧ opener.val = '{' ∧
          Closes (part.drop count) := by
    rintro count ⟨marks, outline, -⟩ opens
    have closes' : Closes (part.drop count) := by
      rw [← List.take_append_drop count part] at closes
      exact closes.right ⟨marks, outline⟩
    cases rest : part.drop count with
    | nil =>
      rw [rest] at opens
      cases opens
    | cons opener rest' =>
      rw [rest] at opens closes'
      exact ⟨opener, rest', rfl, beq_iff_eq.1 opens, closes'⟩
  rw [brace?] at braced
  split at braced
  · obtain ⟨⟨header, body⟩, cut, rfl⟩ := Option.map_eq_some_iff.1 braced
    have whole := append_of_splitWhere _ _ cut
    rw [splitUnquoted_eq] at cut
    obtain ⟨outside, opener, rest, depth, rfl, stops⟩ := closes.of_cut (fun _ => rfl) cut
    rw [← whole] at closes
    exact ⟨opener, rest, rfl, beq_iff_eq.1 stops, closes.right outside⟩
  · split at braced
    · next begins =>
      cases braced
      obtain ⟨plain, opens⟩ := exists_of_startsWith ['e', 'l', 's', 'e'] rfl (by decide) begins
      exact fixed plain opens
    · split at braced
      · next begins =>
        cases braced
        obtain ⟨plain, opens⟩ := exists_of_startsWith ['c', 'a', 't', 'c', 'h'] rfl (by decide) begins
        exact fixed plain opens
      · cases braced

theorem Closes.of_continuation? (closes : text.Closes) (goesOn : text.continuation? = some rest) :
    rest.Closes := by
  rw [continuation?_eq] at goesOn
  obtain ⟨body, braced, enclosed⟩ := Option.bind_eq_some_iff.1 goesOn
  obtain ⟨⟨inside, after⟩, enclosed', rfl⟩ := Option.map_eq_some_iff.1 enclosed
  obtain ⟨opener, tail, rfl, opens, closes'⟩ := closes.skipTerminators.of_brace? braced
  obtain ⟨inside', after', same, closes''⟩ := closes'.exists_enclosed opens
  cases enclosed'.symm.trans same
  exact closes''

theorem Closes.afterContinuations (closes : text.Closes) : text.afterContinuations.Closes := by
  fun_induction Span.afterContinuations text with
  | case1 => exact closes
  | case2 text rest goesOn ih => exact ih (closes.of_continuation? goesOn)

theorem skipTerminators_append (some : text.skipTerminators ≠ []) (behind : Span) :
    (text ++ behind).skipTerminators = text.skipTerminators ++ behind := by
  unfold skipTerminators at some ⊢
  rw [List.dropWhile_append, if_neg (mt List.isEmpty_iff.1 some)]

theorem skipTerminators_append_of_nil (none : text.skipTerminators = []) (behind : Span) :
    (text ++ behind).skipTerminators = behind.skipTerminators := by
  unfold skipTerminators at none ⊢
  rw [List.dropWhile_append, if_pos (List.isEmpty_iff.2 none)]

theorem skipTerminators_cons (terminator : t.val = ';') (behind : Span) :
    skipTerminators (t :: behind) = behind.skipTerminators := by
  rw [skipTerminators, List.dropWhile_cons, if_pos (beq_iff_eq.2 terminator)]
  rfl

theorem beginsPart_append (terminator : t.val = ';') (behind : Span) :
    BeginsPart (text ++ t :: behind) ↔ text.BeginsPart := by
  have letters : ∀ word ∈ ["elseif(", "else\x7b", "catch\x7b"], ';' ∉ word.toList := by decide
  constructor
  · rintro ⟨word, mem, begins⟩
    exact ⟨word, mem, startsWith_append terminator (letters word mem) behind ▸ begins⟩
  · rintro ⟨word, mem, begins⟩
    exact ⟨word, mem, (startsWith_append terminator (letters word mem) behind).trans begins⟩

theorem drop_append_of_startsWith (begins : part.startsWith word = true) {count : Nat}
    (short : count ≤ word.toList.length) (behind : Span) :
    (part ++ behind).drop count = part.drop count ++ behind := by
  have long : word.toList.length ≤ part.length := by
    have prefixed := (List.isPrefixOf_iff_prefix.1 begins).length_le
    rwa [chars, List.length_map] at prefixed
  exact List.drop_append_of_le_length (short.trans long)

theorem brace?_append (terminator : t.val = ';') (braced : part.brace? = some body)
    (behind : Span) : brace? (part ++ t :: behind) = some (body ++ t :: behind) := by
  have same : ∀ word ∈ ["elseif(", "else\x7b", "catch\x7b"],
      startsWith (part ++ t :: behind) word = part.startsWith word := fun word mem =>
    startsWith_append terminator (by revert word; decide) behind
  rw [brace?] at braced ⊢
  rw [same _ (by simp), same _ (by simp), same _ (by simp)]
  split at braced
  · next begins =>
    obtain ⟨⟨header, body⟩, cut, rfl⟩ := Option.map_eq_some_iff.1 braced
    rw [if_pos begins, splitUnquoted, splitWhere_append cut]
    rfl
  · next other =>
    rw [if_neg other]
    split at braced
    · next begins =>
      cases braced
      rw [if_pos begins, drop_append_of_startsWith begins (by decide)]
    · next other =>
      rw [if_neg other]
      split at braced
      · next begins =>
        cases braced
        rw [if_pos begins, drop_append_of_startsWith begins (by decide)]
      · cases braced

/-- A part that continues a block is not changed by what stands behind. -/
theorem continuation?_append_of_some (terminator : t.val = ';')
    (goesOn : text.continuation? = some rest) (behind : Span) :
    continuation? (text ++ t :: behind) = some (rest ++ t :: behind) := by
  rw [continuation?_eq] at goesOn ⊢
  obtain ⟨body, braced, enclosed⟩ := Option.bind_eq_some_iff.1 goesOn
  obtain ⟨⟨inside, after⟩, enclosed', rfl⟩ := Option.map_eq_some_iff.1 enclosed
  have some : text.skipTerminators ≠ [] := by
    intro none
    rw [none] at braced
    cases braced
  rw [skipTerminators_append some, brace?_append terminator braced, Option.bind_some,
    enclosed?_append enclosed']
  rfl

theorem continuation?_append_of_none (terminator : t.val = ';') (closes : text.Closes)
    (ends : text.continuation? = none) (complete : text.skipTerminators.startsWith "elseif(" = false)
    {behind : Span} (fresh : ¬ behind.skipTerminators.BeginsPart) :
    continuation? (text ++ t :: behind) = none := by
  have other : ¬ BeginsPart (skipTerminators (text ++ t :: behind)) := by
    by_cases none : text.skipTerminators = []
    · rwa [skipTerminators_append_of_nil none, skipTerminators_cons terminator]
    · rw [skipTerminators_append none, beginsPart_append terminator]
      intro begins
      rw [continuation?_eq] at ends
      cases braced : text.skipTerminators.brace? with
      | none =>
        rw [(waits_of_brace?_eq_none begins braced).1] at complete
        cases complete
      | some body =>
        obtain ⟨opener, tail, rfl, opens, closes'⟩ := closes.skipTerminators.of_brace? braced
        obtain ⟨inside, after, enclosed, -⟩ := closes'.exists_enclosed opens
        rw [braced, Option.bind_some, enclosed] at ends
        cases ends
  rw [continuation?_eq, brace?_eq_none other]
  rfl

/-- Where all parts of a block have been read, none follows. -/
theorem continuation?_afterContinuations (text : Span) :
    text.afterContinuations.continuation? = none := by
  fun_induction afterContinuations text with
  | case1 text ends => exact ends
  | case2 text rest goesOn ih => exact ih

theorem afterContinuations_append (terminator : t.val = ';') (closes : text.Closes)
    (complete : text.afterContinuations.skipTerminators.startsWith "elseif(" = false)
    {behind : Span} (fresh : ¬ behind.skipTerminators.BeginsPart) :
    afterContinuations (text ++ t :: behind) = text.afterContinuations ++ t :: behind := by
  fun_induction afterContinuations text with
  | case1 text ends =>
    exact Stmt.afterContinuations_of_none
      (continuation?_append_of_none terminator closes ends complete fresh)
  | case2 text rest goesOn ih =>
    rw [Stmt.afterContinuations_of_some (continuation?_append_of_some terminator goesOn behind)]
    exact ih (closes.of_continuation? goesOn) complete

-- ================================================================ statements

section

variable {c : Located Char}

theorem firstStatement_of_none (cut : text.splitBoundary = none) :
    firstStatement text = ⟨.instruction, text, []⟩ := by
  rw [firstStatement, cut]

theorem firstStatement_of_terminator (cut : text.splitBoundary = some (before, c :: rest))
    (other : c.val ≠ '{') : firstStatement text = ⟨.instruction, before, c :: rest⟩ := by
  rw [firstStatement, cut]
  simp [other]

theorem firstStatement_of_brace (cut : text.splitBoundary = some (before, c :: rest))
    (opens : c.val = '{') (enclosed : enclosed? (c :: rest) = some (body, after)) :
    firstStatement text =
      ⟨.block, upTo text after.afterContinuations, after.afterContinuations⟩ := by
  rw [firstStatement, cut]
  simp [opens, enclosed]

end

theorem upTo_append_append (text rest behind : Span) :
    upTo (text ++ behind) (rest ++ behind) = upTo text rest := by
  rw [upTo, upTo, List.length_append, List.length_append, Nat.add_sub_add_right]
  exact List.take_append_of_le_length (Nat.sub_le _ _)

/-- How the first statement of a text that closes ends: with the text, at a
terminator, or as a block with all parts that continue it. -/
inductive Ends (text : Span) : FirstStatement → Prop where
  | whole : text.splitBoundary = none → Ends text ⟨.instruction, text, []⟩
  | terminator {before rest : Span} {c : Located Char} :
      text.splitBoundary = some (before, c :: rest) → c.val = ';' → Closes (c :: rest) →
        Ends text ⟨.instruction, before, c :: rest⟩
  | block {before rest body after : Span} {c : Located Char} :
      text.splitBoundary = some (before, c :: rest) → c.val = '{' →
        enclosed? (c :: rest) = some (body, after) → after.Closes →
          Ends text ⟨.block, upTo text after.afterContinuations, after.afterContinuations⟩

theorem Closes.ends (closes : text.Closes) : text.Ends (firstStatement text) := by
  cases cut : text.splitBoundary with
  | none =>
    rw [firstStatement_of_none cut]
    exact .whole cut
  | some found =>
    obtain ⟨before, boundary⟩ := found
    have whole := append_of_splitWhere _ _ cut
    obtain ⟨outside, c, rest, depth, rfl, stops⟩ :=
      closes.of_cut (fun _ => rfl) (splitBoundary_eq text ▸ cut)
    have left : Closes (c :: rest) := (whole ▸ closes).right outside
    by_cases opens : c.val = '{'
    · obtain ⟨body, after, enclosed, closes'⟩ := left.exists_enclosed opens
      rw [firstStatement_of_brace cut opens enclosed]
      exact .block cut opens enclosed closes'
    · simp only [Counter.boundary, Bool.or_eq_true, Bool.and_eq_true, beq_iff_eq, opens,
        false_or] at stops
      rw [firstStatement_of_terminator cut opens]
      exact .terminator cut stops.1 left

theorem Closes.firstStatement_rest (closes : text.Closes) : (firstStatement text).rest.Closes := by
  have ends := closes.ends
  generalize firstStatement text = first at ends
  cases ends with
  | whole => exact ⟨[], [], .nil, rfl⟩
  | terminator _ _ left => exact left
  | block _ _ _ left => exact left.afterContinuations

/-- Where a text ends without a terminator, one behind it counts. -/
theorem splitBoundary_append_of_none (terminator : t.val = ';') (closes : text.Closes)
    (none : text.splitBoundary = none) (behind : Span) :
    splitBoundary (text ++ t :: behind) = some (text, t :: behind) := by
  obtain ⟨marks, opened, outline, unwinds⟩ := closes
  rw [splitBoundary_eq] at none
  obtain ⟨depth, reaches, goesOn⟩ :=
    cut_append_of_none (q := .outside) (fun _ => rfl) none outline.read
  have unwinds' : unwind ([] ++ opened) marks = some [] := unwinds
  obtain rfl := Counter.eq_zero_of_closes unwinds' List.not_mem_nil reaches
  rw [splitBoundary_eq, Counter.cut, goesOn, Counter.cut, splitWhere]
  simp [Counter.stops, Counter.boundary, terminator, spanInFront]

/-- The first statement of a text is the same with another text behind a
terminator. -/
theorem firstStatement_append (terminator : t.val = ';') (closes : text.Closes)
    {behind : Span} (fresh : ¬ behind.skipTerminators.BeginsPart)
    (complete : (firstStatement text).form = .block →
      (firstStatement text).rest.skipTerminators.startsWith "elseif(" = false) :
    firstStatement (text ++ t :: behind) = ⟨(firstStatement text).form, (firstStatement text).span,
      (firstStatement text).rest ++ t :: behind⟩ := by
  have ends := closes.ends
  generalize firstStatement text = first at ends complete
  cases ends with
  | whole none =>
    exact firstStatement_of_terminator (splitBoundary_append_of_none terminator closes none behind)
      (by rw [terminator]; decide)
  | terminator cut isEnd =>
    exact firstStatement_of_terminator (splitWhere_append cut (t :: behind)) (by rw [isEnd]; decide)
  | @block _ _ _ after _ cut opens enclosed left =>
    rw [firstStatement_of_brace (splitWhere_append cut (t :: behind)) opens
      (enclosed?_append enclosed (t :: behind)),
      afterContinuations_append terminator left (complete rfl) fresh, upTo_append_append]

/-- Behind a block stands no part that continues it. -/
theorem continuation?_rest (closes : text.Closes) (isBlock : (firstStatement text).form = .block) :
    (firstStatement text).rest.continuation? = none := by
  have ends := closes.ends
  generalize firstStatement text = first at ends isBlock
  cases ends with
  | whole | terminator => cases isBlock
  | @block _ _ _ after => exact continuation?_afterContinuations after

/-- Without a brace there is no block. -/
theorem val_ne_brace_of_cut {c : Located Char} (closes : text.Closes)
    (none : text.splitUnquoted '{' = none)
    (cut : text.splitBoundary = some (before, c :: rest)) : c.val ≠ '{' := by
  intro brace
  obtain ⟨marks, opened, outline, -⟩ := closes
  rw [splitUnquoted_eq] at none
  rw [splitBoundary_eq] at cut
  obtain ⟨depth, reaches⟩ :=
    Counter.exists_reaches_of_none (q := .outside) (fun _ => rfl) none outline.read
  obtain ⟨front, behind, -, _, _, rfl, -, follows, same, -, -⟩ :=
    Counter.exists_of_cut (fun _ => rfl) outline cut
  cases same
  obtain ⟨behind, rfl, -⟩ := exists_of_outline_cons (by rw [brace]; decide) follows
  rw [brace] at reaches
  exact Counter.not_mem_of_opening reaches (by simp)

/-- An `elseif` that waits for a brace is read as an instruction. -/
theorem exists_waiting (closes : text.Closes) (ends : text.continuation? = none)
    (begins : text.skipTerminators.startsWith "elseif(" = true) (offset : Nat) :
    ∃ segment ∈ text.segments offset,
      segment.form = .instruction ∧ segment.span.startsWith "elseif(" = true := by
  have closes' := closes.skipTerminators
  rw [continuation?_eq] at ends
  cases skipped : text.skipTerminators with
  | nil =>
    rw [skipped] at begins
    cases begins
  | cons c tail =>
    rw [skipped] at begins closes' ends
    rw [segments_of_skipTerminators skipped]
    refine ⟨_, List.mem_cons_self, ?_⟩
    dsimp only
    have none : splitUnquoted '{' (c :: tail) = none := by
      cases braced : brace? (c :: tail) with
      | none => exact (waits_of_brace?_eq_none ⟨_, List.mem_cons_self, begins⟩ braced).2
      | some body =>
        obtain ⟨opener, rest, rfl, opens, closes''⟩ := closes'.of_brace? braced
        obtain ⟨inside, after, enclosed, -⟩ := closes''.exists_enclosed opens
        rw [braced, Option.bind_some, enclosed] at ends
        cases ends
    have ends := closes'.ends
    generalize firstStatement (c :: tail) = first at ends
    cases ends with
    | whole => exact ⟨rfl, begins⟩
    | terminator cut isEnd =>
      rw [← append_of_splitWhere _ _ cut, startsWith_append isEnd (by decide)] at begins
      exact ⟨rfl, begins⟩
    | block cut opens => exact absurd opens (val_ne_brace_of_cut closes' none cut)

-- ================================================================== segments

/-- Terminators alone are no statement. -/
theorem segments_append_of_terminators {offset : Nat} (none : text.skipTerminators = [])
    (behind : Span) : segments offset (text ++ behind) = segments (offset + text.bytes) behind := by
  have skipped := skipTerminators_append_of_nil none behind
  cases behind' : behind.skipTerminators with
  | nil => rw [Stmt.segments_eq_nil (skipped.trans behind'), Stmt.segments_eq_nil behind']
  | cons c tail =>
    have all : ∀ d ∈ text, (d.val == ';') = true := List.dropWhile_eq_nil_iff.1 none
    rw [segments_of_skipTerminators (skipped.trans behind'), segments_of_skipTerminators behind',
      List.takeWhile_append_of_pos all, bytes_append, Nat.add_assoc]

theorem takeWhile_append_of_skipTerminators (some : text.skipTerminators ≠ []) (behind : Span) :
    (text ++ behind).takeWhile (·.val == ';') = text.takeWhile (·.val == ';') := by
  rw [List.takeWhile_append, if_neg]
  intro all
  have whole := List.takeWhile_append_dropWhile (p := fun d : Located Char => d.val == ';') (l := text)
  rw [(List.takeWhile_prefix _).eq_of_length all, List.append_right_eq_self] at whole
  exact some whole

/-- Behind a terminator, the statements of a text are followed by those of
another text. -/
theorem segments_append (terminator : t.val = ';') {behind : Span}
    (fresh : ¬ behind.skipTerminators.BeginsPart) {offset : Nat} (closes : text.Closes)
    (complete : ∀ segment ∈ segments offset text, segment.form = .instruction →
      segment.span.startsWith "elseif(" = false) :
    segments offset (text ++ t :: behind) =
      segments offset text ++ segments (offset + text.bytes) (t :: behind) := by
  fun_induction segments offset text with
  | case1 offset text none => exact segments_append_of_terminators none _
  | case2 offset text c tail skipped first begins ih =>
    have others := (List.forall_mem_cons.1 complete).2
    have closes' := closes.skipTerminators
    rw [skipped] at closes'
    -- An `elseif` behind the block would be one of the instructions that follow.
    have waits : first.form = .block → first.rest.skipTerminators.startsWith "elseif(" = false := by
      intro isBlock
      rw [← Bool.not_eq_true]
      intro begins'
      obtain ⟨segment, mem, isInstruction, waits⟩ := exists_waiting closes'.firstStatement_rest
        (continuation?_rest closes' isBlock) begins' (begins + first.span.bytes)
      rw [others segment mem isInstruction] at waits
      cases waits
    have first_eq := firstStatement_append terminator closes' fresh waits
    have some : text.skipTerminators ≠ [] := skipped ▸ List.cons_ne_nil c tail
    have skipped' : (text ++ t :: behind).skipTerminators = c :: (tail ++ t :: behind) :=
      (skipTerminators_append some (t :: behind)).trans (congrArg (· ++ _) skipped)
    have length : offset + text.bytes = begins + first.span.bytes + first.rest.bytes := by
      have whole := List.takeWhile_append_dropWhile (p := fun d : Located Char => d.val == ';') (l := text)
      have own : bytes (first.span ++ first.rest) = bytes (c :: tail) :=
        congrArg bytes (append_firstStatement (c :: tail))
      have front := congrArg bytes (whole.symm.trans (congrArg (_ ++ ·) skipped))
      rw [bytes_append] at own front
      omega
    rw [segments_of_skipTerminators skipped',
      takeWhile_append_of_skipTerminators some, ← List.cons_append, first_eq, length]
    exact congrArg (_ :: ·) (ih closes'.firstStatement_rest others)

end Span

-- ================================================================= programs

theorem exists_of_any {ε α : Type} {result : Except ε α} {p : α → Bool}
    (found : result.toOption.any p = true) : ∃ a, result = .ok a ∧ p a = true := by
  cases result with
  | error => cases found
  | ok a => exact ⟨a, rfl, found⟩

namespace Stmt

/-- A statement is on the line where its segment begins. -/
theorem lines_readBlock (text : Span) :
    (readBlock text).map Located.line = (text.segments 0).map (·.span.firstLine) := by
  rw [readBlock_eq, List.map_map, List.map_map]
  refine List.map_congr_left fun segment _ => ?_
  exact (standsAt_readPart segment.form segment.span).1.line

/-- Behind a terminator, a text is read as it is read alone. -/
theorem readBlock_append {text behind : Span} {t : Located Char} (terminator : t.val = ';')
    (fresh : ¬ behind.skipTerminators.BeginsPart) (closes : text.Closes)
    (complete : ∀ segment ∈ text.segments 0, segment.form = .instruction →
      segment.span.startsWith "elseif(" = false) :
    readBlock (text ++ t :: behind) = readBlock text ++ readBlock behind := by
  have skipped : Span.skipTerminators [t] = [] := by
    rw [Span.skipTerminators_cons terminator]
    rfl
  have alone : Span.segments (0 + text.bytes) (t :: behind) = _ :=
    Span.segments_append_of_terminators skipped behind
  rw [readBlock_eq, readBlock_eq, readBlock_eq, Span.segments_append terminator fresh closes complete,
    alone, List.map_append, List.map_append, Span.segments_offset _ 0 behind]

end Stmt

/-- **Sources are read one by one.** Let two sources be accepted, the second
one not beginning like a part of a block, and the first one without an
`elseif` that waits for a brace. With a line end between them, they are read
as the statements of the first and those of the second, whose lines are
raised by the number of lines of the first: at every depth, and in the faults
of statements that could not be read. So a statement that could not be read
in the one does not change what is read in the other. -/
theorem Block.ofSource_join {a b : String} {first second : Span}
    (normal : Span.normalize a = .ok first) (normal' : Span.normalize b = .ok second)
    (fresh : ¬ second.skipTerminators.BeginsPart)
    (complete : ∀ segment ∈ first.segments 0, segment.form = .instruction →
      segment.span.startsWith "elseif(" = false) :
    ∃ program program' : Block, ofSource a = .ok program ∧ ofSource b = .ok program' ∧
      ofSource (a ++ "\n" ++ b) = .ok (program ++ program'.down (1 + a.toList.count '\n')) := by
  refine ⟨Stmt.readBlock first, Stmt.readBlock second, by rw [ofSource, normal]; rfl,
    by rw [ofSource, normal']; rfl, ?_⟩
  have fresh' : ¬ (second.down (1 + a.toList.count '\n')).skipTerminators.BeginsPart := by
    rw [Span.skipTerminators_down]
    rintro ⟨word, mem, begins⟩
    exact fresh ⟨word, mem, Span.startsWith_down _ word ▸ begins⟩
  rw [ofSource, Span.normalize_join normal normal', ← Stmt.readBlock_down]
  exact congrArg Except.ok
    (Stmt.readBlock_append rfl fresh' (Span.closes_of_normalize normal) complete)

/-- A source with a statement that could not be read ends in a comment, and
one with another such statement begins with a name. -/
theorem Block.ofSource_join_of_comment :
    let a := "if (x) \x7b\ny = = 1\n\x7d\nz = [1,\n2] # ("
    let b := "else = 2\nwhile (z) \x7b\nw = +\n\x7d"
    ∃ program program' : Block, ofSource a = .ok program ∧ ofSource b = .ok program' ∧
      ofSource (a ++ "\n" ++ b) = .ok (program ++ program'.down 5) ∧
        (program ++ program'.down 5).map Located.line = [1, 4, 6, 7] := by
  intro a b
  have accepted : (Span.normalize a).toOption.any (fun first =>
      (first.segments 0).all fun segment =>
        segment.form == .block || !segment.span.startsWith "elseif(") = true := by decide +kernel
  have accepted' : (Span.normalize b).toOption.any (fun second =>
      !decide second.skipTerminators.BeginsPart) = true := by decide +kernel
  have lines : (Span.normalize (a ++ "\n" ++ b)).toOption.map (fun text =>
      (text.segments 0).map (·.span.firstLine)) = some [1, 4, 6, 7] := by decide +kernel
  obtain ⟨first, normal, own⟩ := exists_of_any accepted
  obtain ⟨second, normal', own'⟩ := exists_of_any accepted'
  have complete : ∀ segment ∈ first.segments 0, segment.form = .instruction →
      segment.span.startsWith "elseif(" = false := by
    intro segment mem isInstruction
    simpa [isInstruction] using List.all_eq_true.1 own segment mem
  obtain ⟨program, program', read, read', joined⟩ :=
    ofSource_join normal normal' (by simpa using own') complete
  have newlines : 1 + a.toList.count '\n' = 5 := by decide
  rw [newlines] at joined
  obtain ⟨text, normal'', whole⟩ := exists_of_ofSource joined
  rw [normal''] at lines
  refine ⟨program, program', read, read', joined, ?_⟩
  rw [whole, Stmt.lines_readBlock]
  exact Option.some.inj lines

end RoutineScript
