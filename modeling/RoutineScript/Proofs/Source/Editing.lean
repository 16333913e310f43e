/-
Edits of the layout of a source, which do not matter.

Blanks at the beginning or the end of a line, comments at the end of a line and
carriage returns in front of the line ends can be put in, one edit after the
other (`Relaid`): what a source is normalized to stays the same, characters and
lines, and a source that is refused is refused for the same cause on the same
line.

# The argument

An edit leaves alone what stands in front of it, so the reader comes to it as
the layout that it has been before (`Layout.read_congr`), and only the rest has
to be compared.

At the beginning of a line blanks open a gap in front of a word. A line end
within parentheses has opened it already, and any other one has given off a
terminator, so that no word stands in front (`Layout.parted_of_lineEnd`); where
that is so, the gap does not come out (`Layout.read_gap`).

At the end of a line the reader forgets whether it has seen blanks or a comment
(`Layout.read_lineEnd`). A literal that is open there is an error, whichever
characters of it come first; only a comment may not be put there, as a quote in
it would close the literal.
-/
import RoutineScript.Proofs.Source.Literals
import Mathlib.Logic.Relation

namespace RoutineScript

-- ==================================================================== edits

namespace Reading

/-- What is being read behind a character. No literal goes on behind its
line. -/
def next : Reading → Char → Reading
  | code, c =>
    if c == '#' then comment
    else if Quote.isMark c then literal c false
    else code
  | comment, c => if endsComment c then code else comment
  | literal quote escaped, c =>
    if c == '\n' then code else .ofQuote ((Quote.inside quote escaped).step c)

/-- What is being read behind some characters of a source. -/
def behind (source : List Char) : Reading :=
  source.foldl next code

end Reading

/-- A text with a carriage return in front of each line end. -/
def withReturns (text : List Char) : List Char :=
  text.flatMap fun c => if c == '\n' then ['\r', '\n'] else [c]

/-- A line begins behind a text. -/
def BeginsLine (before : List Char) : Prop :=
  ∀ c ∈ before.getLast?, c = '\n'

instance (before : List Char) : Decidable (BeginsLine before) :=
  before.getLast?.decidableForallMem

/-- A line ends in front of a text, or at most blanks and carriage returns stand
between. -/
def EndsLine (rest : List Char) : Prop :=
  ∀ c ∈ (rest.dropWhile isSpace).head?, c = '\n'

instance (rest : List Char) : Decidable (EndsLine rest) :=
  (rest.dropWhile isSpace).head?.decidableForallMem

theorem endsLine_cons {c : Char} {rest : List Char} (ends : EndsLine (c :: rest)) :
    (isSpace c = true ∧ EndsLine rest) ∨ c = '\n' := by
  by_cases space : isSpace c = true
  · rw [EndsLine, List.dropWhile_cons_of_pos space] at ends
    exact .inl ⟨space, ends⟩
  · rw [EndsLine, List.dropWhile_cons_of_neg space] at ends
    exact .inr (ends c rfl)

theorem endsLine_append {spaces rest : List Char} (space : ∀ c ∈ spaces, isSpace c = true)
    (ends : EndsLine rest) : EndsLine (spaces ++ rest) := by
  rwa [EndsLine, List.dropWhile_append_of_pos space]

/-- A source, and the same one after an edit of its layout. -/
inductive Relaid : List Char → List Char → Prop where
  /-- Each line end becomes a carriage return with a line end. -/
  | returns (source : List Char) : Relaid source (withReturns source)
  /-- A line is indented. -/
  | leading (before blanks rest : List Char) :
      BeginsLine before → (∀ c ∈ blanks, c = ' ' ∨ c = '\t') →
        Relaid (before ++ rest) (before ++ (blanks ++ rest))
  /-- Blanks are put at the end of a line. -/
  | trailing (before blanks rest : List Char) :
      EndsLine rest → (∀ c ∈ blanks, c = ' ' ∨ c = '\t') →
        Relaid (before ++ rest) (before ++ (blanks ++ rest))
  /-- A comment is put at the end of a line that leaves no literal open. -/
  | comment (before body rest : List Char) :
      EndsLine rest → (Reading.behind before).quote = .outside →
        (∀ c ∈ body, c ≠ ';' ∧ c ≠ '\n') →
        Relaid (before ++ rest) (before ++ ('#' :: body ++ rest))

-- ================================================================== reading

namespace Layout

variable {layout layout' : Layout} {c : Char} {given : Span} {text rest : List Char}

theorem reading_stepCode (steps : layout.stepCode c = .ok (given, layout')) :
    layout'.reading = Reading.code.next c := by
  have kind := layout.codeStep c
  rw [steps] at kind
  rw [Reading.next]
  cases kind with
  | lineEnd _ _ isEnd => rw [isEnd]; rfl
  | blank _ blank =>
    simp only [List.mem_cons, List.not_mem_nil, or_false] at blank
    rcases blank with rfl | rfl | rfl <;> rfl
  | comment isComment => rw [isComment]; rfl
  | quote isMark => simp [isMark, (ne_of_isMark isMark).1]
  | give _ noComment noMark gives =>
    cases delimits : { layout with reading := .code }.delimit c with
    | error =>
      rw [Layout.give, delimits] at gives
      cases gives
    | ok =>
      rw [give_of_delimit_eq delimits] at gives
      cases gives
      simp [noComment, noMark]

/-- What is being read depends on nothing else that a layout knows. -/
theorem reading_step (steps : layout.step c = .ok (given, layout')) :
    layout'.reading = layout.reading.next c := by
  rw [step] at steps
  cases reading : layout.reading with
  | code =>
    rw [reading] at steps
    exact reading_stepCode steps
  | comment =>
    rw [reading] at steps
    dsimp only at steps
    rw [Reading.next, endsComment]
    split at steps
    · next ends =>
      have plain := plain_of_endsComment ends
      rw [if_pos ends, reading_stepCode steps]
      simp [Reading.next, plain]
    · next goesOn =>
      cases steps
      rw [if_neg goesOn, reading]
  | literal quote escaped =>
    rw [reading] at steps
    dsimp only at steps
    rw [stepLiteral_eq] at steps
    split at steps
    · cases steps
    · next sameLine =>
      cases steps
      rw [Reading.next, if_neg sameLine]

theorem exists_of_past_snoc {source : List Char}
    (reached : layout.past (source ++ [c]) = .ok layout') :
    ∃ before given, layout.past source = .ok before ∧ before.step c = .ok (given, layout') := by
  rw [past_append] at reached
  cases front : layout.past source with
  | error =>
    rw [front] at reached
    cases reached
  | ok before =>
    rw [front] at reached
    cases steps : before.step c with
    | error =>
      simp only [past, List.foldlM_cons, steps, bind, Except.bind, Except.map] at reached
      cases reached
    | ok result =>
      obtain ⟨given, layout''⟩ := result
      simp only [past, List.foldlM_cons, List.foldlM_nil, steps, bind, Except.bind, Except.map,
        pure, Except.pure, Except.ok.injEq] at reached
      exact ⟨before, given, rfl, reached ▸ steps⟩

theorem reading_of_past {before : List Char} (reached : start.past before = .ok layout) :
    layout.reading = Reading.behind before := by
  induction before using List.reverseRecOn generalizing layout with
  | nil =>
    cases reached
    rfl
  | append_singleton before c ih =>
    obtain ⟨front, given, reached, steps⟩ := exists_of_past_snoc reached
    rw [reading_step steps, ih reached, Reading.behind, Reading.behind, List.foldl_append]
    rfl

theorem legal_step (legal : ByOffset.Legal layout.reading.quote)
    (steps : layout.step c = .ok (given, layout')) : ByOffset.Legal layout'.reading.quote := by
  rw [← (keeps_step steps).past]
  exact Quote.legal_past legal _

theorem legal_of_past {before : List Char} (reached : start.past before = .ok layout) :
    ByOffset.Legal layout.reading.quote := by
  induction before using List.reverseRecOn generalizing layout with
  | nil =>
    cases reached
    exact .outside
  | append_singleton before c ih =>
    obtain ⟨front, given, reached, steps⟩ := exists_of_past_snoc reached
    exact legal_step (ih reached) steps

/-- Two texts that are read alike behind some characters are read alike with
them. -/
theorem read_congr {before text' : List Char}
    (same : ∀ layout', layout.past before = .ok layout' → layout'.read text = layout'.read text') :
    layout.read (before ++ text) = layout.read (before ++ text') := by
  induction before generalizing layout with
  | nil => exact same layout rfl
  | cons c before ih =>
    rw [List.cons_append, List.cons_append, read, read]
    cases steps : layout.step c with
    | error => rfl
    | ok result =>
      obtain ⟨given, layout'⟩ := result
      have behind : layout'.read (before ++ text) = layout'.read (before ++ text') :=
        ih fun last reached => same last (by
          rw [past, List.foldlM_cons, steps]
          exact reached)
      simp only [bind, Except.bind, behind]

/-- A character that gives off nothing. -/
theorem read_of_silent (steps : layout.step c = .ok ([], layout')) :
    layout.read (c :: text) = layout'.read text := by
  rw [read, steps]
  simp only [bind, Except.bind, List.nil_append]
  cases layout'.read text <;> rfl

-- ========================================================= beginnings of lines

/-- The next word is kept apart, whether or not blanks come first. -/
def Parted (layout : Layout) : Prop :=
  layout.gap = true ∨ layout.afterWord = false

theorem parted_of_lineEnd (steps : layout.step '\n' = .ok (given, layout')) :
    layout'.Parted ∧ layout'.reading = .code := by
  have isCode : layout.stepCode '\n' = .ok (given, layout') := by
    rw [step] at steps
    split at steps
    · exact steps
    · exact steps
    · cases steps
  refine ⟨?_, reading_stepCode isCode⟩
  rw [stepCode, if_pos (beq_self_eq_true _)] at isCode
  split at isCode
  · cases isCode
    exact .inl rfl
  · cases isCode
    exact .inr rfl

/-- Where a line begins, the next word is kept apart. -/
theorem parted_of_past {before : List Char} (begins : BeginsLine before)
    (reached : start.past before = .ok layout) : layout.Parted ∧ layout.reading = .code := by
  cases before using List.reverseRecOn with
  | nil =>
    cases reached
    exact ⟨.inr rfl, rfl⟩
  | append_singleton before c =>
    obtain ⟨front, given, -, steps⟩ := exists_of_past_snoc reached
    rw [begins c (by simp)] at steps
    exact parted_of_lineEnd steps

/-- Where no word stands in front, a gap does not come out: it is forgotten with
a character, or waits for a later one. -/
theorem stepCode_gap (forgets : layout.afterWord = false) (gap : Bool) (c : Char) :
    { layout with gap }.stepCode c = layout.stepCode c ∨
      ∃ given reading, layout.stepCode c = .ok (given, { layout with reading }) ∧
        { layout with gap }.stepCode c = .ok (given, { layout with gap, reading }) := by
  have joins : { layout with gap, reading := .code }.joinsLines =
      { layout with reading := .code }.joinsLines := rfl
  have gives : { layout with gap, reading := .code }.give c =
      { layout with reading := .code }.give c := by
    simp [give, delimit, forgets]
  rw [stepCode, stepCode]
  dsimp only
  rw [joins, gives]
  split_ifs
  · exact .inl rfl
  · exact .inl rfl
  · exact .inr ⟨[], .code, rfl, rfl⟩
  · exact .inl rfl
  · exact .inr ⟨[], .comment, rfl, rfl⟩
  · exact .inl rfl
  · exact .inl rfl

theorem step_gap (forgets : layout.afterWord = false) (gap : Bool) (c : Char) :
    { layout with gap }.step c = layout.step c ∨
      ∃ given reading, layout.step c = .ok (given, { layout with reading }) ∧
        { layout with gap }.step c = .ok (given, { layout with gap, reading }) := by
  cases isReading : layout.reading with
  | code =>
    simp only [step, isReading]
    exact stepCode_gap forgets gap c
  | comment =>
    simp only [step, isReading]
    split
    · exact stepCode_gap forgets gap c
    · exact .inr ⟨[], .comment, by rw [← isReading], by rw [← isReading]⟩
  | literal quote escaped =>
    simp only [step, isReading, stepLiteral_eq]
    split
    · exact .inl rfl
    · exact .inr ⟨_, _, rfl, rfl⟩

theorem read_gap (forgets : layout.afterWord = false) (gap : Bool) :
    { layout with gap }.read text = layout.read text := by
  induction text generalizing layout with
  | nil => rfl
  | cons c text ih =>
    rw [read, read]
    rcases step_gap forgets gap c with same | ⟨given, reading, steps, steps'⟩
    · rw [same]
    · rw [steps, steps']
      have behind := @ih { layout with reading } forgets
      simp only [bind, Except.bind, behind]

/-- **Blanks at the beginning of a line change nothing.** -/
theorem read_leading {blanks : List Char} (parted : layout.Parted) (isCode : layout.reading = .code)
    (isBlank : ∀ c ∈ blanks, c = ' ' ∨ c = '\t') :
    layout.read (blanks ++ rest) = layout.read rest := by
  induction blanks generalizing layout with
  | nil => rfl
  | cons c blanks ih =>
    obtain ⟨own, others⟩ := List.forall_mem_cons.1 isBlank
    have steps : layout.step c = .ok ([], { layout with gap := true }) := by
      rcases own with rfl | rfl <;> simp [step, isCode, stepCode]
    have behind : { layout with gap := true }.read (blanks ++ rest) =
        { layout with gap := true }.read rest := ih (.inl rfl) isCode others
    rw [List.cons_append, read_of_silent steps, behind]
    rcases parted with gap | forgets
    · rw [← gap]
    · exact read_gap forgets true

-- ================================================================ ends of lines

/-- A space outside of literals may open a gap. -/
theorem step_space (noLiteral : layout.reading.quote = .outside) (space : isSpace c = true) :
    ∃ gap, layout.step c = .ok ([], { layout with gap }) := by
  obtain ⟨line, opened, gap, afterWord, reading⟩ := layout
  cases reading with
  | code =>
    rcases eq_of_isSpace space with rfl | rfl | rfl
    · exact ⟨true, rfl⟩
    · exact ⟨true, rfl⟩
    · exact ⟨gap, rfl⟩
  | comment =>
    rcases eq_of_isSpace space with rfl | rfl | rfl <;> exact ⟨gap, rfl⟩
  | literal => cases noLiteral

theorem step_lineEnd (noLiteral : layout.reading.quote = .outside) :
    layout.step '\n' = { layout with reading := .code }.stepCode '\n' := by
  obtain ⟨line, opened, gap, afterWord, reading⟩ := layout
  cases reading with
  | code => rfl
  | comment => rfl
  | literal => cases noLiteral

/-- At the end of a line it is forgotten whether blanks or a comment stand in
front of it. -/
theorem read_lineEnd (ends : EndsLine rest) (noLiteral : layout.reading.quote = .outside)
    (gap : Bool) {reading : Reading} (noLiteral' : reading.quote = .outside) :
    { layout with gap, reading }.read rest = layout.read rest := by
  induction rest generalizing layout gap with
  | nil =>
    cases isReading : layout.reading with
    | literal =>
      rw [isReading] at noLiteral
      cases noLiteral
    | code | comment =>
      cases reading with
      | literal => cases noLiteral'
      | code | comment => simp only [read, finish, isReading]
  | cons c rest ih =>
    rcases endsLine_cons ends with ⟨space, ends⟩ | rfl
    · obtain ⟨seen, steps⟩ := step_space noLiteral space
      have space' : ∃ seen, { layout with gap, reading }.step c =
          .ok ([], { layout with gap := seen, reading }) := step_space noLiteral' space
      obtain ⟨seen', steps'⟩ := space'
      rw [read_of_silent steps, read_of_silent steps']
      exact @ih { layout with gap := seen } ends noLiteral seen'
    · have same : { layout with gap, reading }.step '\n' = layout.step '\n' := by
        rw [step_lineEnd noLiteral', step_lineEnd noLiteral]
        rfl
      rw [read, read, same]

/-- A space within a literal belongs to it. -/
theorem step_space_literal {quote : Char} {escaped : Bool}
    (inLiteral : layout.reading = .literal quote escaped) (isMark : Quote.isMark quote = true)
    (space : isSpace c = true) :
    layout.step c = .ok ([⟨layout.line, c⟩], { layout with reading := .literal quote false }) := by
  have others : c ≠ '\n' ∧ c ≠ '\\' ∧ Quote.isMark c = false := by
    rcases eq_of_isSpace space with rfl | rfl | rfl <;> decide
  obtain ⟨sameLine, noEscape, noMark⟩ := others
  have noQuote : c ≠ quote := by
    rintro rfl
    rw [isMark] at noMark
    cases noMark
  rw [step, inLiteral]
  dsimp only
  rw [stepLiteral_eq, if_neg (by simpa using sameLine)]
  cases escaped <;> simp [Quote.step, noEscape, noQuote, Reading.ofQuote]

/-- A literal that is open at the end of a line is refused. -/
theorem read_open_literal {quote : Char} {escaped : Bool}
    (inLiteral : layout.reading = .literal quote escaped) (isMark : Quote.isMark quote = true)
    (ends : EndsLine rest) :
    layout.read rest = .error (.onLine (.unterminatedQuote quote) layout.line) := by
  induction rest generalizing layout escaped with
  | nil => simp only [read, finish, inLiteral, bind, Except.bind]
  | cons c rest ih =>
    rw [read]
    rcases endsLine_cons ends with ⟨space, ends⟩ | rfl
    · rw [step_space_literal inLiteral isMark space]
      have behind : { layout with reading := .literal quote false }.read rest =
          .error (.onLine (.unterminatedQuote quote) layout.line) := ih rfl ends
      simp only [bind, Except.bind, behind]
    · rw [step, inLiteral]
      rfl

/-- **Spaces at the end of a line change nothing.** -/
theorem read_trailing {spaces : List Char} (legal : ByOffset.Legal layout.reading.quote)
    (space : ∀ c ∈ spaces, isSpace c = true) (ends : EndsLine rest) :
    layout.read (spaces ++ rest) = layout.read rest := by
  cases reading : layout.reading with
  | literal quote escaped =>
    have isMark : Quote.isMark quote = true := legal quote escaped (by rw [reading]; rfl)
    rw [read_open_literal reading isMark (endsLine_append space ends),
      read_open_literal reading isMark ends]
  | code | comment =>
    have noLiteral : layout.reading.quote = .outside := by rw [reading]; rfl
    clear reading legal
    induction spaces generalizing layout with
    | nil => rfl
    | cons c spaces ih =>
      obtain ⟨own, others⟩ := List.forall_mem_cons.1 space
      obtain ⟨seen, steps⟩ := step_space noLiteral own
      have behind : { layout with gap := seen }.read (spaces ++ rest) =
          { layout with gap := seen }.read rest := ih others noLiteral
      rw [List.cons_append, read_of_silent steps, behind]
      exact read_lineEnd ends noLiteral seen noLiteral

/-- **A comment at the end of a line changes nothing**, where no literal is
open. -/
theorem read_comment {body : List Char} (noLiteral : layout.reading.quote = .outside)
    (inside : ∀ c ∈ body, endsComment c = false) (ends : EndsLine rest) :
    layout.read ('#' :: body ++ rest) = layout.read rest := by
  have begins : layout.step '#' = .ok ([], { layout with reading := .comment }) := by
    obtain ⟨line, opened, gap, afterWord, reading⟩ := layout
    cases reading with
    | code => rfl
    | comment => rfl
    | literal => cases noLiteral
  have goesOn : { layout with reading := .comment }.read (body ++ rest) =
      { layout with reading := .comment }.read rest := by
    induction body with
    | nil => rfl
    | cons c body ih =>
      obtain ⟨own, others⟩ := List.forall_mem_cons.1 inside
      have steps : { layout with reading := .comment }.step c =
          .ok ([], { layout with reading := .comment }) := by
        rw [step, if_neg (by rw [← endsComment, own]; exact Bool.false_ne_true)]
      rw [List.cons_append, read_of_silent steps, ih others]
  rw [List.cons_append, read_of_silent begins, goesOn]
  exact read_lineEnd ends noLiteral layout.gap rfl

/-- **Carriage returns in front of the line ends change nothing.** -/
theorem read_withReturns (legal : ByOffset.Legal layout.reading.quote) :
    layout.read (withReturns text) = layout.read text := by
  induction text generalizing layout with
  | nil => rfl
  | cons c text ih =>
    have behind : ∀ {given layout'}, layout.step c = .ok (given, layout') →
        layout'.read (withReturns text) = layout'.read text :=
      fun steps => ih (legal_step legal steps)
    have own : layout.read (c :: withReturns text) = layout.read (c :: text) := by
      rw [read, read]
      cases steps : layout.step c with
      | error => rfl
      | ok result => simp only [bind, Except.bind, behind steps]
    rw [← own, withReturns, List.flatMap_cons, ← withReturns]
    split
    · next isEnd =>
      rw [beq_iff_eq] at isEnd
      have space : ∀ d ∈ ['\r'], isSpace d = true := List.forall_mem_singleton.2 rfl
      have ends : EndsLine ('\n' :: withReturns text) := by
        rintro d ⟨⟩
        rfl
      rw [isEnd]
      exact read_trailing legal space ends
    · rfl

end Layout

-- ================================================================== sources

theorem isSpace_of_blank {c : Char} (isBlank : c = ' ' ∨ c = '\t') : isSpace c = true := by
  rcases isBlank with rfl | rfl <;> rfl

/-- An edit of the layout does not change what is read. -/
theorem Relaid.read_eq {text text' : List Char} (relaid : Relaid text text') :
    Layout.start.read text' = Layout.start.read text := by
  cases relaid with
  | returns => exact Layout.read_withReturns .outside
  | leading _ _ _ begins isBlank =>
    refine Layout.read_congr fun layout reached => ?_
    obtain ⟨parted, isCode⟩ := Layout.parted_of_past begins reached
    exact Layout.read_leading parted isCode isBlank
  | trailing _ _ _ ends isBlank =>
    refine Layout.read_congr fun layout reached => ?_
    exact Layout.read_trailing (Layout.legal_of_past reached)
      (fun c mem => isSpace_of_blank (isBlank c mem)) ends
  | comment _ _ _ ends noLiteral inside =>
    refine Layout.read_congr fun layout reached => ?_
    rw [← Layout.reading_of_past reached] at noLiteral
    refine Layout.read_comment noLiteral (fun c mem => ?_) ends
    simpa [endsComment] using inside c mem

namespace Span

/-- **Layout does not matter.** However the layout of a source is edited, it is
normalized to the same characters on the same lines, or refused for the same
cause on the same line. -/
theorem normalize_relaid {source source' : String}
    (edits : Relation.ReflTransGen Relaid source.toList source'.toList) :
    normalize source' = normalize source := by
  have same : ∀ {text : List Char}, Relation.ReflTransGen Relaid source.toList text →
      Layout.start.read text = Layout.start.read source.toList := by
    intro text edits
    induction edits with
    | refl => rfl
    | tail _ relaid ih => rw [relaid.read_eq, ih]
  exact same edits

/-- The first line of a source gets a comment and the second one is indented;
behind the literal at the end goes another comment; and then the line end
changes. -/
theorem normalize_relaid_of_call :
    let source := "f(a,\nb)+'#'"
    let source' := "f(a,# it's (\r\n \tb)+'#'# all"
    Relation.ReflTransGen Relaid source.toList source'.toList ∧
      normalize source' = normalize source ∧
      normalize source = .ok (ofString "f(a," 1 ++ ofString "b)+'#'" 2) := by
  intro source source'
  have first : Relaid "f(a,\nb)+'#'".toList "f(a,# it's (\nb)+'#'".toList :=
    .comment "f(a,".toList " it's (".toList "\nb)+'#'".toList (by decide) (by decide) (by simp)
  have second : Relaid "f(a,# it's (\nb)+'#'".toList "f(a,# it's (\n \tb)+'#'".toList :=
    .leading "f(a,# it's (\n".toList " \t".toList "b)+'#'".toList (by decide) (by simp)
  have third : Relaid "f(a,# it's (\n \tb)+'#'".toList "f(a,# it's (\n \tb)+'#'# all".toList :=
    .comment "f(a,# it's (\n \tb)+'#'".toList " all".toList [] (by decide) (by decide) (by simp)
  have last : Relaid "f(a,# it's (\n \tb)+'#'# all".toList
      "f(a,# it's (\r\n \tb)+'#'# all".toList :=
    .returns "f(a,# it's (\n \tb)+'#'# all".toList
  have edits := (((Relation.ReflTransGen.single first).tail second).tail third).tail last
  exact ⟨edits, normalize_relaid edits, by decide +kernel⟩

end Span

end RoutineScript
