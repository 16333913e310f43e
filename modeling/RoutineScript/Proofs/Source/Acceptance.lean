/-
Which sources can be read: the balanced ones.

A layout reads like the two readers of balanced texts do, both at once. Each
character that it accepts is a step of the reader of outlines, and the
delimiters that this step finds are a step of the reader that unwinds the
open ones (`Layout.Shows`). What the character gives off shows the same
delimiters, so the text that comes out has the outline of the source, with
its comments gone and all else in place.

A character that a layout refuses is one that neither reader gets past, and
so is the end of the source where something is open. These are the only ways
to fail, and all of them are faults of syntax.
-/
import RoutineScript.Proofs.Source.Balance

namespace RoutineScript

-- ================================================================== refusals

/-- The causes that lie in literals and delimiters that do not close. -/
def Cause.isSyntax : Cause → Bool
  | unterminatedQuote _ | mismatchedClose .. | unmatchedClose _ | unclosed _ => true
  | _ => false

-- ================================================================ characters

/-- The delimiters that a character of the code is. -/
def marksOf (c : Char) : List Char :=
  if isDelimiter c then [c] else []

variable {comments : Bool} {c : Char} {rest marks : List Char}

theorem marksOf_eq_nil (other : isDelimiter c = false) : marksOf c = [] := by
  simp [marksOf, other]

/-- A character of the code that begins nothing. -/
theorem outline?_code (noComment : c ≠ '#') (noMark : Quote.isMark c = false) :
    outline? comments .code (c :: rest)
      = (outline? comments .code rest).map (marksOf c ++ ·) := by
  have goesOn : (comments && c == '#') = false := by simp [noComment]
  rw [outline?, goesOn, noMark, marksOf]
  cases isDelimiter c <;> simp

/-- A blank or a terminator, which adds nothing. -/
theorem outline?_blank (blank : c ∈ ['\n', '\r', ' ', '\t', ';']) :
    outline? comments .code (c :: rest) = outline? comments .code rest := by
  have plain : c ≠ '#' ∧ Quote.isMark c = false ∧ isDelimiter c = false := by
    simp only [List.mem_cons, List.not_mem_nil, or_false] at blank
    rcases blank with rfl | rfl | rfl | rfl | rfl <;> decide
  obtain ⟨noComment, noMark, other⟩ := plain
  rw [outline?_code noComment noMark, marksOf_eq_nil other]
  simp

-- ================================================================= one step

/-- What is being read where comments are gone. -/
def Reading.shown : Reading → Reading
  | .comment => .code
  | reading => reading

namespace Layout

/-- A character shows delimiters that can stand where they do: the source
has them there, and so has what is given off. -/
structure Shows (layout : Layout) (c : Char) (given : Span) (layout' : Layout)
    (marks : List Char) : Prop where
  source : ∀ rest, outline? true layout.reading (c :: rest)
    = (outline? true layout'.reading rest).map (marks ++ ·)
  output : ∀ comments rest, outline? comments layout.reading.shown (given.chars ++ rest)
    = (outline? comments layout'.reading.shown rest).map (marks ++ ·)
  delimits : ∀ rest, unwind layout.opened.chars (marks ++ rest) = unwind layout'.opened.chars rest

/-- A character is refused with a fault of syntax, whatever follows it. -/
structure Refuses (layout : Layout) (c : Char) (fault : Fault) : Prop where
  isSyntax : fault.cause.isSyntax = true
  unwinds : ∀ rest marks, outline? true layout.reading (c :: rest) = some marks →
    unwind layout.opened.chars marks = none

/-- A character shows delimiters, or is refused. -/
inductive Follows (layout : Layout) (c : Char) : Except Fault (Span × Layout) → Prop where
  | shows {given : Span} {layout' : Layout} (marks : List Char) :
      layout.Shows c given layout' marks → Follows layout c (.ok (given, layout'))
  | refuses {fault : Fault} : layout.Refuses c fault → Follows layout c (.error fault)

variable {layout layout' : Layout} {given : Span}

/-- A step that shows no delimiters and leaves the open ones as they are. -/
theorem Shows.nothing (same : layout'.opened = layout.opened)
    (source : ∀ rest, outline? true layout.reading (c :: rest)
      = outline? true layout'.reading rest)
    (output : ∀ comments rest, outline? comments layout.reading.shown (given.chars ++ rest)
      = outline? comments layout'.reading.shown rest) : layout.Shows c given layout' [] where
  source rest := by simp [source]
  output comments rest := by simp [output]
  delimits rest := by simp [same]

-- -------------------------------------------------------------- delimiters

/-- What a character does to the open delimiters. -/
theorem delimit_eq (layout : Layout) (c : Char) : layout.delimit c =
    if (Span.closerOf? c).isSome then .ok (⟨layout.line, c⟩ :: layout.opened)
    else if isDelimiter c then
      match layout.opened with
      | [] => .error (.onLine (.unmatchedClose c) layout.line)
      | opener :: rest =>
        if Span.closerOf? opener.val == some c then .ok rest
        else .error (.onLine (.mismatchedClose c opener.val opener.line) layout.line)
    else .ok layout.opened := by
  rw [delimit, isDelimiter]
  cases (Span.closerOf? c).isSome <;> rfl

/-- Which delimiters are opened and closed does not depend on the lines that
they stand on. -/
theorem delimit_map {f : Nat → Nat} {moved : Layout} {opened : Span}
    (same : moved.opened = layout.opened.map fun d => ⟨f d.line, d.val⟩)
    (line : moved.line = f layout.line) (delimits : layout.delimit c = .ok opened) :
    moved.delimit c = .ok (opened.map fun d => ⟨f d.line, d.val⟩) := by
  rw [delimit_eq] at delimits ⊢
  rw [same, line]
  split at delimits
  · next opens =>
    cases delimits
    exact if_pos opens
  · next notOpener =>
    rw [if_neg notOpener]
    split at delimits
    · next delimiter =>
      rw [if_pos delimiter]
      cases before : layout.opened with
      | nil =>
        rw [before] at delimits
        cases delimits
      | cons opener rest =>
        rw [before] at delimits
        dsimp only at delimits
        split at delimits
        · next closes =>
          cases delimits
          exact if_pos closes
        · cases delimits
    · next plain =>
      cases delimits
      exact if_neg plain

/-- How a layout and the reader that unwinds agree on a character of the
code. -/
inductive Unwinds (layout : Layout) (c : Char) : Except Fault Span → Prop where
  | accepts {opened : Span} :
      (∀ rest, unwind layout.opened.chars (marksOf c ++ rest) = unwind opened.chars rest) →
        Unwinds layout c (.ok opened)
  | refuses {fault : Fault} :
      fault.cause.isSyntax = true → isDelimiter c = true →
      (∀ rest, unwind layout.opened.chars (c :: rest) = none) → Unwinds layout c (.error fault)

theorem unwinds_delimit (layout : Layout) (c : Char) : layout.Unwinds c (layout.delimit c) := by
  rw [delimit_eq]
  cases pair : Span.closerOf? c with
  | some closer =>
    have delimiter : isDelimiter c = true := by simp [isDelimiter, pair]
    exact .accepts fun rest => by simp [marksOf, delimiter, unwind_opener pair, Span.chars]
  | none =>
    simp only [Option.isSome_none, Bool.false_eq_true, if_false]
    split
    · rename_i delimiter
      split
      · rename_i opened
        exact .refuses rfl delimiter fun rest => by simp [opened, Span.chars, unwind, pair]
      · rename_i opener behind opened
        split
        · rename_i closes
          rw [beq_iff_eq] at closes
          exact .accepts fun rest => by
            simp [marksOf, delimiter, opened, Span.chars, unwind_closer closes]
        · rename_i other
          rw [beq_iff_eq] at other
          exact .refuses rfl delimiter fun rest => by
            simp [opened, Span.chars, unwind, pair, other]
    · rename_i other
      exact .accepts fun rest => by simp [marksOf, other]

-- --------------------------------------------------------------- characters

/-- A character of the code that is given off, perhaps behind a space. -/
theorem follows_give (isCode : layout.reading = .code) (noComment : c ≠ '#')
    (noMark : Quote.isMark c = false) : layout.Follows c (layout.give c) := by
  have own : ∀ comments rest, outline? comments .code (c :: rest)
      = (outline? comments .code rest).map (marksOf c ++ ·) :=
    fun _ _ => outline?_code noComment noMark
  have unwinds := layout.unwinds_delimit c
  rw [give]
  generalize layout.delimit c = result at unwinds
  cases unwinds with
  | refuses isSyntax delimiter unwinds =>
    refine .refuses ⟨isSyntax, fun rest marks outline => ?_⟩
    rw [isCode, own] at outline
    obtain ⟨marks, -, rfl⟩ := Option.map_eq_some_iff.1 outline
    simpa [marksOf, delimiter] using unwinds marks
  | accepts unwinds =>
    refine .shows (marksOf c) ⟨fun rest => ?_, fun comments rest => ?_, unwinds⟩
    · rw [isCode]
      exact own true rest
    · dsimp only
      rw [isCode]
      split
      · have space := @outline?_blank comments ' ' (c :: rest) (by decide)
        exact space.trans (own comments rest)
      · exact own comments rest

/-- What a layout makes of a character of the code, by what the character
is. -/
inductive CodeStep (layout : Layout) (c : Char) : Except Fault (Span × Layout) → Prop where
  | lineEnd {given : Span} (gap afterWord : Bool) :
      c = '\n' → given = [] ∨ given = [⟨layout.line, ';'⟩] →
        CodeStep layout c (.ok (given, { layout with
          line := layout.line + 1, gap, afterWord, reading := .code }))
  | blank (gap : Bool) :
      c ∈ ['\r', ' ', '\t'] → CodeStep layout c (.ok ([], { layout with gap, reading := .code }))
  | comment :
      c = '#' → CodeStep layout c (.ok ([], { layout with reading := .comment }))
  | quote :
      Quote.isMark c = true → CodeStep layout c (.ok ([⟨layout.line, c⟩], { layout with
        gap := false, afterWord := false, reading := .literal c false }))
  | give {result : Except Fault (Span × Layout)} :
      c ≠ '\n' → c ≠ '#' → Quote.isMark c = false →
        { layout with reading := .code }.give c = result → CodeStep layout c result

theorem codeStep (layout : Layout) (c : Char) : layout.CodeStep c (layout.stepCode c) := by
  rw [stepCode]
  split
  · rename_i isEnd
    rw [beq_iff_eq] at isEnd
    split
    · exact .lineEnd true layout.afterWord isEnd (.inl rfl)
    · exact .lineEnd false false isEnd (.inr rfl)
  · rename_i sameLine
    rw [beq_iff_eq] at sameLine
    split
    · rename_i isReturn
      rw [beq_iff_eq] at isReturn
      exact .blank layout.gap (by simp [isReturn])
    · split
      · rename_i isSpace
        exact .blank true (by simp_all)
      · split
        · rename_i isComment
          exact .comment (beq_iff_eq.1 isComment)
        · rename_i noComment
          rw [beq_iff_eq] at noComment
          split
          · rename_i isMark
            exact .quote isMark
          · rename_i noMark
            exact .give sameLine noComment (by simpa using noMark) rfl

theorem follows_stepCode (layout : Layout) (c : Char) :
    { layout with reading := .code }.Follows c (layout.stepCode c) := by
  have kind := layout.codeStep c
  generalize layout.stepCode c = result at kind
  cases kind with
  | lineEnd _ _ isEnd gives =>
    subst isEnd
    refine .shows [] (.nothing rfl (fun _ => outline?_blank (by decide)) ?_)
    rcases gives with rfl | rfl
    · exact fun _ _ => rfl
    · exact fun _ rest => @outline?_blank _ ';' rest (by decide)
  | blank _ isBlank =>
    have isBlank' : c ∈ ['\n', '\r', ' ', '\t', ';'] := by
      simp only [List.mem_cons, List.not_mem_nil, or_false] at isBlank
      rcases isBlank with rfl | rfl | rfl <;> decide
    exact .shows [] (.nothing rfl (fun _ => outline?_blank isBlank') (fun _ _ => rfl))
  | comment isComment =>
    subst isComment
    exact .shows [] (.nothing rfl (fun _ => rfl) (fun _ _ => rfl))
  | quote isMark =>
    have noComment := (ne_of_isMark isMark).1
    have begins : ∀ comments rest, outline? comments .code (c :: rest)
        = outline? comments (.literal c false) rest := by
      intro comments rest
      rw [outline?, isMark]
      simp [noComment]
    exact .shows [] (.nothing rfl (begins true) begins)
  | give _ noComment noMark gives =>
    rw [← gives]
    exact follows_give rfl noComment noMark

/-- The character behind a comment is read like the code. -/
theorem outline?_behind_comment (ends : endsComment c = true) :
    outline? comments .comment (c :: rest) = outline? comments .code (c :: rest) := by
  obtain ⟨noComment, noMark, other⟩ := plain_of_endsComment ends
  rw [outline?, ends, outline?_code noComment noMark, marksOf_eq_nil other]
  simp

/-- A character of a literal, which both the source and the output have. -/
theorem stepLiteral_eq (layout : Layout) (quote : Char) (escaped : Bool) (c : Char) :
    layout.stepLiteral quote escaped c =
      if c == '\n' then .error (.onLine (.unterminatedQuote quote) layout.line)
      else .ok ([⟨layout.line, c⟩],
        { layout with reading := .ofQuote ((Quote.inside quote escaped).step c) }) := by
  rw [stepLiteral]
  cases (Quote.inside quote escaped).step c <;> rfl

theorem shown_ofQuote (quote : Quote) : (Reading.ofQuote quote).shown = .ofQuote quote := by
  cases quote <;> rfl

theorem follows_step (layout : Layout) (c : Char) : layout.Follows c (layout.step c) := by
  obtain ⟨line, opened, gap, afterWord, reading⟩ := layout
  cases reading with
  | code => exact follows_stepCode ⟨line, opened, gap, afterWord, .code⟩ c
  | comment =>
    simp only [Layout.step]
    split
    · rename_i ends
      have follows := follows_stepCode ⟨line, opened, gap, afterWord, .comment⟩ c
      generalize stepCode _ c = result at follows
      cases follows with
      | shows marks shows =>
        refine .shows marks ⟨fun rest => ?_, shows.output, shows.delimits⟩
        exact (outline?_behind_comment ends).trans (shows.source rest)
      | refuses refuses =>
        refine .refuses ⟨refuses.isSyntax, fun rest marks outline => refuses.unwinds rest marks ?_⟩
        rwa [← outline?_behind_comment ends]
    · rename_i goesOn
      refine .shows [] (.nothing rfl (fun rest => ?_) (fun _ _ => rfl))
      rw [outline?, endsComment, if_neg goesOn]
  | literal quote escaped =>
    simp only [Layout.step, stepLiteral_eq]
    split
    · rename_i isEnd
      refine .refuses ⟨rfl, fun rest marks outline => ?_⟩
      rw [outline?, if_pos isEnd] at outline
      cases outline
    · rename_i sameLine
      have goesOn : ∀ comments rest, outline? comments (.literal quote escaped) (c :: rest)
          = outline? comments (.ofQuote ((Quote.inside quote escaped).step c)) rest :=
        fun _ _ => by rw [outline?, if_neg sameLine]
      refine .shows [] (.nothing rfl (goesOn true) (fun comments rest => ?_))
      rw [shown_ofQuote]
      exact goesOn comments rest

-- ================================================================ a source

/-- What a layout makes of a text: it refuses it, or it gives off a text that
shows the same delimiters, which close what is open. -/
inductive Outcome (layout : Layout) (text : List Char) : Except Fault Span → Prop where
  | refused {fault : Fault} :
      fault.cause.isSyntax = true →
      (∀ marks, outline? true layout.reading text = some marks →
        unwind layout.opened.chars marks ≠ some []) →
        Outcome layout text (.error fault)
  | given {span : Span} {marks : List Char} :
      outline? true layout.reading text = some marks →
      unwind layout.opened.chars marks = some [] →
      (∀ comments, outline? comments layout.reading.shown span.chars = some marks) →
        Outcome layout text (.ok span)

theorem outcome_nil (layout : Layout) : layout.Outcome [] (layout.read []) := by
  obtain ⟨line, opened, gap, afterWord, reading⟩ := layout
  have atEnd : reading = .code ∨ reading = .comment →
      Outcome ⟨line, opened, gap, afterWord, reading⟩ []
        (Layout.read ⟨line, opened, gap, afterWord, reading⟩ []) := by
    rintro (rfl | rfl)
    all_goals
      cases opened with
      | nil => exact .given rfl rfl (fun _ => rfl)
      | cons opener opened =>
        refine .refused rfl (fun marks outline => ?_)
        cases outline
        simp [Span.chars]
  cases reading with
  | code => exact atEnd (.inl rfl)
  | comment => exact atEnd (.inr rfl)
  | literal quote escaped =>
    exact .refused rfl (fun marks outline => by cases outline)

theorem outcome (layout : Layout) (text : List Char) : layout.Outcome text (layout.read text) := by
  induction text generalizing layout with
  | nil => exact outcome_nil layout
  | cons c rest ih =>
    have follows := layout.follows_step c
    rw [read]
    generalize layout.step c = result at follows
    cases follows with
    | refuses refuses =>
      refine .refused refuses.isSyntax (fun marks outline => ?_)
      rw [refuses.unwinds rest marks outline]
      simp
    | @shows given layout' front shows =>
      have tail := ih layout'
      show layout.Outcome (c :: rest) (layout'.read rest >>= fun rest => pure (given ++ rest))
      generalize layout'.read rest = result at tail
      cases tail with
      | refused isSyntax refuses =>
        refine .refused isSyntax (fun marks outline => ?_)
        rw [shows.source] at outline
        obtain ⟨behind, outline', rfl⟩ := Option.map_eq_some_iff.1 outline
        rw [shows.delimits]
        exact refuses behind outline'
      | @given span marks outline unwinds output =>
        have source : outline? true layout.reading (c :: rest) = some (front ++ marks) := by
          rw [shows.source, outline]
          rfl
        refine .given source ?_ (fun comments => ?_)
        · rw [shows.delimits, unwinds]
        · have whole : Span.chars (given ++ span) = given.chars ++ span.chars := List.map_append
          rw [whole, shows.output, output]
          rfl

end Layout

namespace Span

/-- What normalizing gives off shows the delimiters of the source, which
nest. -/
theorem exists_outline_of_normalize {source : String} {span : Span}
    (normal : normalize source = .ok span) :
    ∃ marks, Outline true source.toList marks ∧ Dyck marks ∧
      ∀ comments, Outline comments span.chars marks := by
  have outcome := Layout.start.outcome source.toList
  rw [show Layout.start.read source.toList = .ok span from normal] at outcome
  cases outcome with
  | given outline unwinds output =>
    exact ⟨_, outline_iff.2 outline, dyck_iff.2 unwinds,
      fun comments => outline_iff.2 (output comments)⟩

/-- **Exactly the balanced sources can be read.** A source is normalized if
and only if its literals close on their lines and the delimiters outside of
comments and literals nest; a source that is not is a fault of syntax. What
comes out is balanced in the same sense. -/
theorem normalize_accepts_balanced (source : String) :
    ((∃ span, normalize source = .ok span) ↔ Balanced true source.toList) ∧
      (∀ fault, normalize source = .error fault → fault.cause.isSyntax = true) ∧
      ∀ span, normalize source = .ok span → Balanced true span.chars := by
  have outcome := Layout.start.outcome source.toList
  refine ⟨⟨?_, ?_⟩, ?_, ?_⟩
  · rintro ⟨span, normal⟩
    obtain ⟨marks, outline, nests, -⟩ := exists_outline_of_normalize normal
    exact ⟨marks, outline, nests⟩
  · rintro ⟨marks, outline, nests⟩
    cases normal : normalize source with
    | ok span => exact ⟨span, rfl⟩
    | error fault =>
      rw [show Layout.start.read source.toList = .error fault from normal] at outcome
      cases outcome with
      | refused _ refuses =>
        exact absurd (dyck_iff.1 nests) (refuses marks (outline_iff.1 outline))
  · intro fault refused
    rw [show Layout.start.read source.toList = .error fault from refused] at outcome
    cases outcome with
    | refused isSyntax => exact isSyntax
  · intro span normal
    obtain ⟨marks, -, nests, output⟩ := exists_outline_of_normalize normal
    exact ⟨marks, output true, nests⟩

end Span

end RoutineScript
