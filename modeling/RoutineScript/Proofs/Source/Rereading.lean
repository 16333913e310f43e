/-
Normalized text is normal.

Reading the text that a source has been normalized to changes nothing any more:
it is accepted, and what comes out is the same text, all of it on line one.

# The argument

While a layout reads the source, another one can go through what it gives off.
That one never sees a line end, a comment or a blank outside of literals, save
the single spaces that keep words apart; but what it knows otherwise is what
the first one knows: the same delimiters are open, the same word has ended or
the same literal is being read. So it is a function of the first one
(`Layout.echo`), and each step of the first one is answered by steps of the
echo that give off the same characters (`Layout.gives_echo`). A space that is
given off in front of a word is read by the echo as a blank between two words,
which is why it gives it off again.
-/
import RoutineScript.Proofs.Source.Acceptance
import RoutineScript.Proofs.Source.Blanks

namespace RoutineScript

namespace Layout

variable {layout layout' : Layout} {c : Char} {given opened span : Span} {text : List Char}

/-- The layout that goes through what a layout has given off. -/
def echo (layout : Layout) : Layout where
  line := 1
  opened := oneLine layout.opened.chars
  gap := false
  afterWord := layout.afterWord
  reading := layout.reading.shown

theorem echo_start : start.echo = start :=
  rfl

/-- Between two characters of the code, and within a comment. -/
theorem echo_code (isCode : layout.reading.shown = .code) :
    layout.echo = inCode layout.opened.chars false layout.afterWord := by
  rw [echo, isCode]
  rfl

-- =============================================================== characters

/-- The echo opens and closes the same delimiters, whether or not it has just
read a blank. -/
theorem delimit_inCode (seen : Bool) (delimits : layout.delimit c = .ok opened) :
    (inCode layout.opened.chars seen layout.afterWord).delimit c = .ok (oneLine opened.chars) := by
  have moved : (inCode layout.opened.chars seen layout.afterWord).delimit c =
      .ok (opened.map fun d => ⟨1, d.val⟩) :=
    delimit_map (f := fun _ => 1) List.map_map rfl delimits
  have same : oneLine opened.chars = opened.map fun d => ⟨1, d.val⟩ := List.map_map
  rw [same]
  exact moved

/-- A verbatim character is given off again, and so is the space in front of
it. -/
theorem gives_echo_give (isCode : layout.reading = .code) (verbatim : isVerbatim c = true)
    (gives : layout.give c = .ok (given, layout')) :
    Gives layout.echo given.chars (oneLine given.chars) layout'.echo := by
  obtain ⟨sameLine, noSpace, noComment, noQuote⟩ := isVerbatim_iff.1 verbatim
  rw [give] at gives
  cases delimits : layout.delimit c with
  | error fault =>
    rw [delimits] at gives
    cases gives
  | ok opened =>
    rw [delimits] at gives
    obtain ⟨rfl, rfl⟩ := Prod.mk.inj (Except.ok.inj gives)
    have again : ∀ seen, Gives (inCode layout.opened.chars seen layout.afterWord) [c]
        ((if seen && Text.isWordChar c && layout.afterWord then [⟨1, ' '⟩] else []) ++ [⟨1, c⟩])
        (inCode opened.chars false (Text.isWordChar c)) := by
      intro seen
      refine gives_singleton ?_
      rw [step_inCode sameLine noSpace noComment noQuote]
      exact give_of_delimit (delimit_inCode seen delimits)
    have before : layout.echo = inCode layout.opened.chars false layout.afterWord :=
      echo_code (by rw [isCode]; rfl)
    have after : echo { layout with opened, gap := false, afterWord := Text.isWordChar c } =
        inCode opened.chars false (Text.isWordChar c) := echo_code (by rw [isCode]; rfl)
    rw [before, after]
    by_cases space : (layout.gap && Text.isWordChar c && layout.afterWord) = true
    · -- the space comes back, because a word stands on both sides of it
      have kept : (true && Text.isWordChar c && layout.afterWord) = true := by
        rw [Bool.and_assoc, Bool.and_eq_true] at space
        exact space.2
      have blank : Gives (inCode layout.opened.chars false layout.afterWord) [' '] []
          (inCode layout.opened.chars true layout.afterWord) := gives_singleton rfl
      have both := blank.append (again true)
      rw [if_pos kept] at both
      rw [if_pos space]
      exact both
    · have alone := again false
      rw [Bool.false_and, Bool.false_and, if_neg Bool.false_ne_true] at alone
      rw [if_neg space]
      exact alone

/-- A step within the code is answered by its echo. -/
theorem gives_echo_stepCode (isCode : layout.reading.shown = .code)
    (steps : layout.stepCode c = .ok (given, layout')) :
    Gives layout.echo given.chars (oneLine given.chars) layout'.echo := by
  have before := echo_code isCode
  rw [stepCode] at steps
  split_ifs at steps with isEnd joins isReturn isBlank isComment isMark
  · cases steps
    rw [before]
    exact gives_nil _
  · cases steps
    rw [before]
    exact gives_mark (m := .semicolon) (.inr rfl)
  · cases steps
    rw [before]
    exact gives_nil _
  · cases steps
    rw [before]
    exact gives_nil _
  · cases steps
    rw [before]
    exact gives_nil _
  · cases steps
    rw [before]
    rcases Token.eq_of_isMark isMark with rfl | rfl <;> exact gives_singleton rfl
  · have verbatim : isVerbatim c = true := by
      simp_all [isVerbatim, isSpace]
    have code : layout.echo = { layout with reading := .code }.echo := before
    rw [code]
    exact gives_echo_give rfl verbatim steps

/-- **What a step gives off is given off again by the echo.** -/
theorem gives_echo (steps : layout.step c = .ok (given, layout')) :
    Gives layout.echo given.chars (oneLine given.chars) layout'.echo := by
  rw [step] at steps
  cases reading : layout.reading with
  | code =>
    rw [reading] at steps
    exact gives_echo_stepCode (by rw [reading]; rfl) steps
  | comment =>
    rw [reading] at steps
    dsimp only at steps
    split at steps
    · exact gives_echo_stepCode (by rw [reading]; rfl) steps
    · cases steps
      exact gives_nil _
  | literal quote escaped =>
    rw [reading] at steps
    dsimp only at steps
    rw [stepLiteral_eq] at steps
    split at steps
    · cases steps
    · next sameLine =>
      cases steps
      refine gives_singleton ?_
      have inside : layout.echo.reading = .literal quote escaped := by rw [echo, reading]; rfl
      rw [step, inside]
      dsimp only
      rw [stepLiteral_eq, if_neg sameLine, echo, echo, shown_ofQuote]
      rfl

-- ================================================================== sources

/-- What a layout makes of a text is read by its echo as it is. -/
theorem read_echo (reads : layout.read text = .ok span) :
    layout.echo.read span.chars = .ok (oneLine span.chars) := by
  induction text generalizing layout span with
  | nil =>
    rw [span_of_read_nil reads]
    obtain ⟨line, opened, gap, afterWord, reading⟩ := layout
    cases reading with
    | code =>
      cases opened with
      | nil => rfl
      | cons => cases reads
    | comment =>
      cases opened with
      | nil => rfl
      | cons => cases reads
    | literal => cases reads
  | cons c text ih =>
    obtain ⟨given, layout', span', steps, behind, rfl⟩ := exists_of_read_cons reads
    have chars : Span.chars (given ++ span') = given.chars ++ span'.chars := List.map_append
    rw [chars, gives_echo steps, ih behind, oneLine_append]
    rfl

end Layout

namespace Span

/-- **Normalizing is idempotent.** Text that a source has been normalized to is
accepted, and normalizing it leaves it as it is. -/
theorem normalize_idempotent {source : String} {span : Span} (normal : normalize source = .ok span) :
    ∃ again, normalize span.text = .ok again ∧ again.text = span.text := by
  refine ⟨oneLine span.chars, ?_, ?_⟩
  · have again := Layout.read_echo normal
    rw [Layout.echo_start] at again
    rwa [normalize, text, String.toList_ofList]
  · simp [text, chars, oneLine, Function.comp_def]

/-- A kept space, a comment, a literal, a line end that ends a statement and one
that does not. -/
theorem normalize_idempotent_of_lines :
    let span := ofString "return x+'# ';" 1 ++ ofString "f(a," 2 ++ ofString "b)" 3
    normalize "return  x + '# ' # all\n f ( a ,\r\n b )" = .ok span ∧
      ∃ again, normalize span.text = .ok again ∧ again.text = span.text := by
  intro span
  have normal : normalize "return  x + '# ' # all\n f ( a ,\r\n b )" = .ok span := by
    decide +kernel
  exact ⟨normal, normalize_idempotent normal⟩

end Span

end RoutineScript
