/-
Where the characters of a normalized text come from.

A layout that is asked to keep a trace (`Layout.trace`) notes with each
character that it gives off the place of the source where it stood then.
Without the places a trace is the normalized text (`Layout.chars_trace`).

# The argument

A character of the source gives off nothing, itself, a terminator for a line
end, or itself behind a space that keeps it apart from the word in front of it
(`Layout.GivenFor`). All of it stands on the line of the layout, which is one
more than the number of line ends that have been read. So along the whole
trace the characters follow the source (`Traced.Exact`); what has to be
carried from step to step is that a layout which remembers a word has given
off the end of one, so that a space only ever comes up within the code between
two words.

The line table repeats the line of each character for each of its bytes, so
what is known of the trace is known of the table (`Traced.Exact.table`).
-/
import RoutineScript.Proofs.Source.Lines

namespace RoutineScript

/-- The line of a place of a source, counted from one. -/
def lineOf (source : List Char) (place : Nat) : Nat :=
  1 + (source.take place).count '\n'

theorem lineOf_append (before rest : List Char) :
    lineOf (before ++ rest) before.length = 1 + before.count '\n' := by
  rw [lineOf, List.take_left]

theorem lineOf_mono (source : List Char) {place place' : Nat} (upTo : place ≤ place') :
    lineOf source place ≤ lineOf source place' :=
  Nat.add_le_add_left ((List.take_sublist_take_left upTo).count_le '\n') 1

-- =================================================================== traces

/-- A character of a normalized text, and the place of the source where it was
given off. -/
structure Traced where
  place : Nat
  char : Located Char
  deriving DecidableEq, Repr

/-- Reads the rest of a source from a place on, and keeps a trace. -/
def Layout.trace (layout : Layout) (place : Nat) : List Char → Except Fault (List Traced)
  | [] => do
    layout.finish
    return []
  | c :: source => do
    let (given, layout) ← layout.step c
    let rest ← layout.trace (place + 1) source
    return given.map (Traced.mk place) ++ rest

/-- The trace of a source. -/
def Span.trace (source : String) : Except Fault (List Traced) :=
  Layout.start.trace 0 source.toList

/-- Without its places a trace is what is read. -/
theorem Layout.chars_trace (layout : Layout) (place : Nat) (source : List Char) :
    (layout.trace place source).map (List.map Traced.char) = layout.read source := by
  induction source generalizing layout place with
  | nil =>
    rw [trace, read]
    cases layout.finish <;> rfl
  | cons c source ih =>
    rw [trace, read]
    cases layout.step c with
    | error => rfl
    | ok result =>
      obtain ⟨given, layout'⟩ := result
      have behind := ih layout' (place + 1)
      show (layout'.trace (place + 1) source >>= fun rest => pure (given.map (Traced.mk place) ++ rest)).map
        (List.map Traced.char) = (layout'.read source >>= fun rest => pure (given ++ rest))
      rw [← behind]
      cases layout'.trace (place + 1) source with
      | error => rfl
      | ok rest =>
        refine congrArg Except.ok ?_
        rw [List.map_append, List.map_map]
        exact congrArg (· ++ _) (List.map_id' given)

/-- A normalized text has a trace. -/
theorem Span.exists_trace {source : String} {text : Span} (normal : normalize source = .ok text) :
    ∃ traced, trace source = .ok traced ∧ text = traced.map Traced.char := by
  have chars := Layout.start.chars_trace 0 source.toList
  rw [normalize, ← chars] at normal
  rw [trace]
  cases traces : Layout.start.trace 0 source.toList with
  | error fault =>
    rw [traces] at normal
    cases normal
  | ok traced =>
    rw [traces] at normal
    cases normal
    exact ⟨traced, rfl, rfl⟩

/-- A trace that follows a source behind a last character that was given off.
Each character is that of its place, unless it is the terminator for a line end
or the space in front of a word that stands behind another word. It is on the
line of its place, and only the space shares its place, with the first
character of the word. -/
inductive Traced.Exact (source : List Char) : Option Char → List Traced → Prop where
  | nil {last : Option Char} : Exact source last []
  | copied {last : Option Char} {c : Char} {place : Nat} {rest : List Traced} :
      source[place]? = some c → c ≠ '\n' → (∀ t ∈ rest, place < t.place) →
      Exact source (some c) rest →
        Exact source last (⟨place, ⟨lineOf source place, c⟩⟩ :: rest)
  | lineEnd {last : Option Char} {place : Nat} {rest : List Traced} :
      source[place]? = some '\n' → (∀ t ∈ rest, place < t.place) →
      Exact source (some ';') rest →
        Exact source last (⟨place, ⟨lineOf source place, ';'⟩⟩ :: rest)
  | apart {last c : Char} {place : Nat} {rest : List Traced} :
      Text.isWordChar last = true → Text.isWordChar c = true →
      source[place]? = some c → (∀ t ∈ rest, place < t.place) →
      Exact source (some c) rest →
        Exact source (some last) (⟨place, ⟨lineOf source place, ' '⟩⟩ ::
          ⟨place, ⟨lineOf source place, c⟩⟩ :: rest)

/-- The last character of what is given off behind another one. -/
def lastGiven (last : Option Char) (given : Span) : Option Char :=
  (given.getLast?.map Located.val).or last

theorem lastGiven_cons (last : Option Char) (c : Located Char) (given : Span) :
    lastGiven last (c :: given) = lastGiven (some c.val) given := by
  rw [lastGiven, lastGiven, List.getLast?_cons]
  cases given.getLast? <;> rfl

-- ================================================================= one step

namespace Layout

variable {layout layout' : Layout} {given : Span} {c : Char} {last : Option Char}

/-- What is given off for a character on a line, perhaps behind a word. -/
inductive GivenFor (line : Nat) (afterWord : Bool) (c : Char) : Span → Prop where
  | nothing : GivenFor line afterWord c []
  | lineEnd : c = '\n' → GivenFor line afterWord c [⟨line, ';'⟩]
  | copied : c ≠ '\n' → GivenFor line afterWord c [⟨line, c⟩]
  | apart : Text.isWordChar c = true → afterWord = true →
      GivenFor line afterWord c [⟨line, ' '⟩, ⟨line, c⟩]

/-- A layout that remembers a word is not in a literal and has given off the
end of a word. -/
def Remembers (layout : Layout) (last : Option Char) : Prop :=
  layout.afterWord = true →
    (∀ quote escaped, layout.reading ≠ .literal quote escaped) ∧
      ∃ c, last = some c ∧ Text.isWordChar c = true

theorem remembers_of_forgets (forgets : layout.afterWord = false) : layout.Remembers last := by
  intro afterWord
  rw [forgets] at afterWord
  cases afterWord

theorem givenFor_give (sameLine : c ≠ '\n')
    (gives : { layout with reading := .code }.give c = .ok (given, layout')) :
    GivenFor layout.line layout.afterWord c given ∧ layout'.Remembers (lastGiven last given) := by
  cases delimits : { layout with reading := .code }.delimit c with
  | error fault =>
    rw [give, delimits] at gives
    cases gives
  | ok opened =>
    rw [give_of_delimit_eq delimits] at gives
    cases gives
    refine ⟨?_, fun isWord => ⟨?_, c, ?_, isWord⟩⟩
    · split
      · rename_i keepsApart
        simp only [Bool.and_eq_true] at keepsApart
        exact .apart keepsApart.1.2 keepsApart.2
      · exact .copied sameLine
    · simp
    · simp [lastGiven]

theorem givenFor_stepCode (remembers : layout.Remembers last)
    (steps : layout.stepCode c = .ok (given, layout')) :
    GivenFor layout.line layout.afterWord c given ∧ layout'.Remembers (lastGiven last given) := by
  -- What gives off nothing only changes what is being read, and the gap.
  have nothing : ∀ line gap reading, (∀ quote escaped, reading ≠ .literal quote escaped) →
      Remembers { layout with line, gap, reading } (lastGiven last []) :=
    fun _ _ _ noLiteral afterWord => ⟨noLiteral, (remembers afterWord).2⟩
  rw [stepCode] at steps
  split_ifs at steps with isEnd joins isReturn isSpace isComment isMark
  · cases steps
    exact ⟨.nothing, nothing _ _ _ (by simp)⟩
  · cases steps
    exact ⟨.lineEnd (beq_iff_eq.1 isEnd), remembers_of_forgets rfl⟩
  · cases steps
    exact ⟨.nothing, nothing _ _ _ (by simp)⟩
  · cases steps
    exact ⟨.nothing, nothing _ _ _ (by simp)⟩
  · cases steps
    exact ⟨.nothing, nothing _ _ _ (by simp)⟩
  · cases steps
    exact ⟨.copied (mt beq_iff_eq.2 isEnd), remembers_of_forgets rfl⟩
  · exact givenFor_give (mt beq_iff_eq.2 isEnd) steps

theorem givenFor_step (remembers : layout.Remembers last)
    (steps : layout.step c = .ok (given, layout')) :
    GivenFor layout.line layout.afterWord c given ∧ layout'.Remembers (lastGiven last given) := by
  rw [step] at steps
  cases reading : layout.reading with
  | code =>
    rw [reading] at steps
    exact givenFor_stepCode remembers steps
  | comment =>
    rw [reading] at steps
    simp only at steps
    split_ifs at steps
    · exact givenFor_stepCode remembers steps
    · cases steps
      exact ⟨.nothing, remembers⟩
  | literal quote escaped =>
    rw [reading] at steps
    simp only [stepLiteral_eq] at steps
    split_ifs at steps with isEnd
    cases steps
    refine ⟨.copied (mt beq_iff_eq.2 isEnd), remembers_of_forgets ?_⟩
    rw [← Bool.not_eq_true]
    exact fun afterWord => (remembers afterWord).1 quote escaped reading

-- =============================================================== whole texts

/-- What is given off for a character in front of the trace of what follows. -/
theorem exact_given {source : List Char} {place : Nat} {afterWord : Bool} {others : List Traced}
    (own : GivenFor (lineOf source place) afterWord c given)
    (word : afterWord = true → ∃ d, last = some d ∧ Text.isWordChar d = true)
    (here : source[place]? = some c) (later : ∀ t ∈ others, place < t.place)
    (behind : Traced.Exact source (lastGiven last given) others) :
    Traced.Exact source last (given.map (Traced.mk place) ++ others) := by
  cases own with
  | nothing => exact behind
  | lineEnd isEnd => exact .lineEnd (isEnd ▸ here) later behind
  | copied sameLine => exact .copied here sameLine later behind
  | apart isWord isAfter =>
    obtain ⟨d, rfl, isWord'⟩ := word isAfter
    exact .apart isWord' isWord here later behind

theorem exists_of_trace_cons {place : Nat} {rest : List Char} {traced : List Traced}
    (traces : layout.trace place (c :: rest) = .ok traced) :
    ∃ (given : Span) (layout' : Layout) (others : List Traced),
      layout.step c = .ok (given, layout') ∧ layout'.trace (place + 1) rest = .ok others ∧
        traced = given.map (Traced.mk place) ++ others := by
  rw [trace] at traces
  cases steps : layout.step c with
  | error fault =>
    rw [steps] at traces
    cases traces
  | ok result =>
    obtain ⟨given, layout'⟩ := result
    rw [steps] at traces
    cases behind : layout'.trace (place + 1) rest with
    | error fault =>
      simp only [bind, Except.bind, behind] at traces
      cases traces
    | ok others =>
      simp only [bind, Except.bind, behind] at traces
      cases traces
      exact ⟨given, layout', others, rfl, behind, rfl⟩

/-- **A trace follows its source**, from any place on. -/
theorem exact_trace (before : List Char) {rest : List Char} {traced : List Traced}
    (line : layout.line = 1 + before.count '\n') (remembers : layout.Remembers last)
    (traces : layout.trace before.length rest = .ok traced) :
    Traced.Exact (before ++ rest) last traced ∧ ∀ t ∈ traced, before.length ≤ t.place := by
  induction rest generalizing layout before last traced with
  | nil =>
    rw [trace] at traces
    cases ends : layout.finish with
    | error fault =>
      rw [ends] at traces
      cases traces
    | ok =>
      rw [ends] at traces
      cases traces
      exact ⟨.nil, nofun⟩
  | cons c rest ih =>
    obtain ⟨given, layout', others, steps, behind, rfl⟩ := exists_of_trace_cons traces
    obtain ⟨own, remembers'⟩ := givenFor_step remembers steps
    have keeps := layout.keepsLines_step c
    rw [steps] at keeps
    have line' : layout'.line = 1 + (before ++ [c]).count '\n' := by
      cases keeps with
      | gives line' =>
        rw [line', line, List.count_append, List.count_singleton]
        simp [Nat.add_assoc]
    have further : (before ++ [c]).length = before.length + 1 := by simp
    have whole : before ++ [c] ++ rest = before ++ c :: rest := by simp
    obtain ⟨others', later⟩ := ih (before ++ [c]) line' remembers' (further ▸ behind)
    rw [further] at later
    rw [whole] at others'
    have here : (before ++ c :: rest)[before.length]? = some c := by simp
    rw [line, ← lineOf_append before (c :: rest)] at own
    refine ⟨exact_given own (fun afterWord => (remembers afterWord).2) here later others', ?_⟩
    intro t mem
    rcases List.mem_append.1 mem with mem | mem
    · obtain ⟨_, -, rfl⟩ := List.mem_map.1 mem
      exact Nat.le_refl _
    · exact Nat.le_of_lt (later t mem)

end Layout

-- ================================================================ the trace

namespace Traced

variable {source : List Char} {last : Option Char} {traced front rest : List Traced} {t : Traced}

theorem Exact.tail (exact : Exact source last (t :: rest)) :
    Exact source (some t.char.val) rest := by
  cases exact with
  | copied _ _ _ behind => exact behind
  | lineEnd _ _ behind => exact behind
  | apart _ isWord here later behind =>
    refine .copied here ?_ later behind
    rintro rfl
    revert isWord
    decide

/-- What stands behind a front of a trace follows the source too. -/
theorem Exact.right (exact : Exact source last (front ++ rest)) :
    Exact source (lastGiven last (front.map Traced.char)) rest := by
  induction front generalizing last with
  | nil => exact exact
  | cons t front ih =>
    rw [List.map_cons, lastGiven_cons]
    exact ih exact.tail

/-- Each character is on the line of its place. -/
theorem Exact.line (exact : Exact source last traced) :
    ∀ t ∈ traced, t.char.line = lineOf source t.place := by
  induction exact with
  | nil => exact nofun
  | copied _ _ _ _ ih => exact List.forall_mem_cons.2 ⟨rfl, ih⟩
  | lineEnd _ _ _ ih => exact List.forall_mem_cons.2 ⟨rfl, ih⟩
  | apart _ _ _ _ _ ih => exact List.forall_mem_cons.2 ⟨rfl, List.forall_mem_cons.2 ⟨rfl, ih⟩⟩

/-- The places of a trace ascend. -/
theorem Exact.ascends (exact : Exact source last traced) :
    traced.Pairwise (·.place ≤ ·.place) := by
  induction exact with
  | nil => exact .nil
  | copied _ _ later _ ih => exact ih.cons fun t mem => Nat.le_of_lt (later t mem)
  | lineEnd _ later _ ih => exact ih.cons fun t mem => Nat.le_of_lt (later t mem)
  | apart _ _ _ later _ ih =>
    have others := fun t mem => Nat.le_of_lt (later t mem)
    exact (ih.cons others).cons (List.forall_mem_cons.2 ⟨Nat.le_refl _, others⟩)

/-- A character that does not end a statement is that of its place, if no word
stands in front of it. -/
theorem Exact.copied_of_apart (exact : Exact source last (t :: rest))
    (noTerminator : t.char.val ≠ ';') (noWord : ∀ d ∈ last, Text.isWordChar d = false) :
    source[t.place]? = some t.char.val := by
  cases exact with
  | copied here => exact here
  | lineEnd => exact absurd rfl noTerminator
  | apart isWord =>
    have := noWord _ rfl
    rw [isWord] at this
    cases this

end Traced

-- ================================================================ the table

namespace Span

/-- The length of a span is that of its text. -/
theorem utf8ByteSize_text (span : Span) : span.text.utf8ByteSize = span.bytes := by
  induction span with
  | nil => rfl
  | cons c rest ih =>
    rw [text, chars, List.map_cons, String.ofList_cons, String.utf8ByteSize_append,
      String.utf8ByteSize_singleton, bytes, ← ih]
    rfl

/-- The bytes of a character have its line in the table. -/
theorem getElem?_byteLines (before rest : Span) (c : Located Char) {i : Nat}
    (inside : i < c.val.utf8Size) :
    (byteLines (before ++ c :: rest))[before.bytes + i]? = some c.line := by
  have split : byteLines (before ++ c :: rest) =
      byteLines before ++ (List.replicate c.val.utf8Size c.line ++ byteLines rest) := by
    simp [byteLines]
  rw [split, ← length_byteLines, List.getElem?_append_right (Nat.le_add_right _ _),
    Nat.add_sub_cancel_left, List.getElem?_append_left (by simpa using inside)]
  simp [inside]

/-- The table is in order when the lines of the characters are. -/
theorem pairwise_byteLines {span : Span} (inOrder : span.Pairwise (·.line ≤ ·.line)) :
    span.byteLines.Pairwise (· ≤ ·) := by
  rw [byteLines, List.pairwise_flatMap]
  refine ⟨fun c _ => List.pairwise_replicate.2 (.inr (Nat.le_refl _)), inOrder.imp ?_⟩
  intro c d upTo line mem line' mem'
  rw [List.eq_of_mem_replicate mem, List.eq_of_mem_replicate mem']
  exact upTo

end Span

/-- **The line table is exact.** It has one entry for each byte of the text; for
each byte of a character the entry is the line of the place of the source where
the character was given off; and the entries do not go down. -/
theorem Traced.Exact.table {source : List Char} {last : Option Char} {traced : List Traced}
    (exact : Exact source last traced) :
    let text : Span := traced.map Traced.char
    text.byteLines.length = text.text.utf8ByteSize ∧
    (∀ front t behind, traced = front ++ t :: behind → ∀ i < t.char.val.utf8Size,
      text.byteLines[Span.bytes (front.map Traced.char) + i]? = some (lineOf source t.place)) ∧
    text.byteLines.Pairwise (· ≤ ·) := by
  intro text
  refine ⟨by rw [Span.length_byteLines, Span.utf8ByteSize_text], ?_, ?_⟩
  · rintro front t behind isTraced i inside
    have line := exact.line t (by simp [isTraced])
    rw [← line]
    have entry := Span.getElem?_byteLines (front.map Traced.char) (behind.map Traced.char) t.char inside
    rwa [← List.map_cons, ← List.map_append, ← isTraced] at entry
  · refine Span.pairwise_byteLines (List.pairwise_map.2 ?_)
    refine exact.ascends.imp_of_mem fun mem mem' upTo => ?_
    rw [exact.line _ mem, exact.line _ mem']
    exact lineOf_mono source upTo

end RoutineScript
