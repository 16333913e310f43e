/-
Balanced texts, told apart from any way to read them.

A text is balanced when its literals close and its delimiters nest. Two small
grammars say so: `Outline` steps over comments and literals and keeps the
delimiters, in their order, and `Dyck` is the grammar of delimiters that
nest.

Each grammar has a reader next to it that decides it from left to right, as
scans do: `outline?` with what is being read, and `unwind` with the open
delimiters. Scans are compared with the readers, and the grammars are what
the results speak of.
-/
import RoutineScript.Source.Normalized

namespace RoutineScript

-- =============================================================== delimiters

/-- The six delimiters. -/
def isDelimiter (c : Char) : Bool :=
  (Span.closerOf? c).isSome || c == ')' || c == ']' || c == '}'

/-- Delimiters that nest properly. -/
inductive Dyck : List Char → Prop where
  | nil : Dyck []
  | pair {opener closer : Char} {inside behind : List Char} :
      Span.closerOf? opener = some closer → Dyck inside → Dyck behind →
        Dyck (opener :: (inside ++ closer :: behind))

/-- The three pairs. -/
theorem closerOf?_cases {opener closer : Char} (pair : Span.closerOf? opener = some closer) :
    (opener = '(' ∧ closer = ')') ∨ (opener = '[' ∧ closer = ']') ∨
      (opener = '{' ∧ closer = '}') := by
  unfold Span.closerOf? at pair
  split at pair <;> cases pair <;> simp

/-- What opens and what closes are delimiters. -/
theorem isDelimiter_of_closerOf? {opener closer : Char}
    (pair : Span.closerOf? opener = some closer) :
    isDelimiter opener = true ∧ isDelimiter closer = true := by
  rcases closerOf?_cases pair with ⟨rfl, rfl⟩ | ⟨rfl, rfl⟩ | ⟨rfl, rfl⟩ <;> decide

/-- What closes opens nothing. -/
theorem closerOf?_closer {opener closer : Char} (pair : Span.closerOf? opener = some closer) :
    Span.closerOf? closer = none := by
  rcases closerOf?_cases pair with ⟨rfl, rfl⟩ | ⟨rfl, rfl⟩ | ⟨rfl, rfl⟩ <;> rfl

theorem Dyck.append {a b : List Char} (first : Dyck a) (second : Dyck b) : Dyck (a ++ b) := by
  induction first with
  | nil => exact second
  | pair pair inside _ _ behind =>
    simpa using Dyck.pair pair inside behind

-- ================================================================ unwinding

/-- Goes through delimiters with those that are open, innermost first, and
tells which of them stay open. There is none to tell where a delimiter closes
another one than the innermost. -/
def unwind : List Char → List Char → Option (List Char)
  | opened, [] => some opened
  | opened, c :: marks =>
    if (Span.closerOf? c).isSome then unwind (c :: opened) marks
    else
      match opened with
      | [] => none
      | innermost :: opened =>
        if Span.closerOf? innermost == some c then unwind opened marks else none

variable {opened marks : List Char} {opener closer : Char}

@[simp] theorem unwind_nil : unwind opened [] = some opened := by
  cases opened <;> rfl

theorem unwind_opener (pair : Span.closerOf? opener = some closer) :
    unwind opened (opener :: marks) = unwind (opener :: opened) marks := by
  cases opened <;> simp [unwind, pair]

theorem unwind_closer (pair : Span.closerOf? opener = some closer) :
    unwind (opener :: opened) (closer :: marks) = unwind opened marks := by
  simp [unwind, closerOf?_closer pair, pair]

/-- What a delimiter does that may stand where it does. -/
theorem unwind_cons_cases {c : Char} {left : List Char}
    (unwinds : unwind opened (c :: marks) = some left) :
    (∃ closer, Span.closerOf? c = some closer ∧ unwind (c :: opened) marks = some left) ∨
      ∃ opener opened', opened = opener :: opened' ∧ Span.closerOf? opener = some c ∧
        unwind opened' marks = some left := by
  cases pair : Span.closerOf? c with
  | some closer =>
    rw [unwind_opener pair] at unwinds
    exact .inl ⟨closer, rfl, unwinds⟩
  | none =>
    cases opened with
    | nil => simp [unwind, pair] at unwinds
    | cons opener opened =>
      simp only [unwind, pair, Option.isSome_none, Bool.false_eq_true, if_false, beq_iff_eq,
        Option.ite_none_right_eq_some] at unwinds
      exact .inr ⟨opener, opened, rfl, unwinds⟩

/-- Nested delimiters leave open what was open. -/
theorem unwind_dyck {inside : List Char} (nests : Dyck inside) (opened marks : List Char) :
    unwind opened (inside ++ marks) = unwind opened marks := by
  induction nests generalizing opened marks with
  | nil => rfl
  | pair pair _ _ inside behind =>
    rw [List.cons_append, unwind_opener pair, List.append_assoc, inside, List.cons_append,
      unwind_closer pair, behind]

/-- Delimiters that close all that is open: each of the open ones is closed
in its turn, and what stands between nests. -/
inductive Closing : List Char → List Char → Prop where
  | nest {marks : List Char} : Dyck marks → Closing [] marks
  | close {opener closer : Char} {opened inside behind : List Char} :
      Span.closerOf? opener = some closer → Dyck inside → Closing opened behind →
        Closing (opener :: opened) (inside ++ closer :: behind)

/-- A pair in front belongs to what stands between. -/
theorem Closing.pair (pair : Span.closerOf? opener = some closer) {inside behind : List Char}
    (nests : Dyck inside) (closing : Closing opened behind) :
    Closing opened (opener :: (inside ++ closer :: behind)) := by
  cases closing with
  | nest nests' => exact .nest (.pair pair nests nests')
  | @close opener' closer' _ inside' behind' pair' nests' closing =>
    have closing' := Closing.close pair' (.pair pair nests nests') closing
    rwa [List.cons_append, List.append_assoc, List.cons_append] at closing'

theorem closing_of_unwind (unwinds : unwind opened marks = some []) : Closing opened marks := by
  induction marks generalizing opened with
  | nil =>
    cases unwinds
    exact .nest .nil
  | cons c marks ih =>
    rcases unwind_cons_cases unwinds with
      ⟨closer, pair, unwinds⟩ | ⟨opener, opened, rfl, pair, unwinds⟩
    · cases ih unwinds with
      | close pair' nests closing =>
        exact closing.pair pair' nests
    · exact .close pair .nil (ih unwinds)

/-- The grammar and its reader agree. -/
theorem dyck_iff : Dyck marks ↔ unwind [] marks = some [] := by
  constructor
  · intro nests
    simpa using unwind_dyck nests [] []
  · intro unwinds
    cases closing_of_unwind unwinds with
    | nest nests => exact nests

/-- What an open delimiter encloses, and what stands behind the one that
closes it. -/
theorem exists_of_unwind_opener (unwinds : unwind (opener :: opened) marks = some []) :
    ∃ (inside behind : List Char) (closer : Char), marks = inside ++ closer :: behind ∧
      Span.closerOf? opener = some closer ∧ Dyck inside ∧ unwind opened behind = some [] := by
  cases closing_of_unwind unwinds with
  | @close _ closer _ inside behind pair nests closing =>
    rw [unwind_dyck nests, unwind_closer pair] at unwinds
    exact ⟨inside, behind, closer, rfl, pair, nests, unwinds⟩

-- ================================================================= outlines

/-- A literal behind the quote that begins it, up to the one that ends it. A
backslash hides the character behind it, and no line ends within. -/
inductive Literal (quote : Char) : List Char → Prop where
  | close : Literal quote [quote]
  | escaped {c : Char} {rest : List Char} :
      c ≠ '\n' → Literal quote rest → Literal quote ('\\' :: c :: rest)
  | plain {c : Char} {rest : List Char} :
      c ≠ quote → c ≠ '\\' → c ≠ '\n' → Literal quote rest → Literal quote (c :: rest)

/-- Where a comment ends: before a terminator or a line end, or with the
text. -/
def endsComment (c : Char) : Bool :=
  c == ';' || c == '\n'

/-- The delimiters of a text whose literals close, outside of its literals
and, where there are any, of its comments. -/
inductive Outline (comments : Bool) : List Char → List Char → Prop where
  | nil : Outline comments [] []
  | comment {body rest marks : List Char} :
      comments = true → (∀ c ∈ body, endsComment c = false) →
        (∀ c ∈ rest.head?, endsComment c = true) → Outline comments rest marks →
          Outline comments ('#' :: (body ++ rest)) marks
  | literal {quote : Char} {body rest marks : List Char} :
      Quote.isMark quote = true → Literal quote body → Outline comments rest marks →
        Outline comments (quote :: (body ++ rest)) marks
  | delimiter {c : Char} {rest marks : List Char} :
      isDelimiter c = true → Outline comments rest marks →
        Outline comments (c :: rest) (c :: marks)
  | plain {c : Char} {rest marks : List Char} :
      (comments = true → c ≠ '#') → Quote.isMark c = false → isDelimiter c = false →
        Outline comments rest marks → Outline comments (c :: rest) marks

/-- A text whose literals close and whose delimiters nest. -/
def Balanced (comments : Bool) (text : List Char) : Prop :=
  ∃ marks, Outline comments text marks ∧ Dyck marks

-- ========================================================= reading outlines

/-- What is being read behind a character of a literal. -/
def Reading.ofQuote : Quote → Reading
  | .outside => .code
  | .inside quote escaped => .literal quote escaped

/-- The delimiters of a text, if its literals close. -/
def outline? (comments : Bool) : Reading → List Char → Option (List Char)
  | .literal .., [] => none
  | .code, [] | .comment, [] => some []
  | .literal quote escaped, c :: rest =>
    if c == '\n' then none
    else outline? comments (.ofQuote ((Quote.inside quote escaped).step c)) rest
  | .comment, c :: rest => outline? comments (if endsComment c then .code else .comment) rest
  | .code, c :: rest =>
    if comments && c == '#' then outline? comments .comment rest
    else if Quote.isMark c then outline? comments (.literal c false) rest
    else if isDelimiter c then (outline? comments .code rest).map (c :: ·)
    else outline? comments .code rest

variable {comments : Bool} {c quote : Char} {escaped : Bool} {text rest marks : List Char}
  {reading : Reading}

theorem plain_of_endsComment (ends : endsComment c = true) :
    c ≠ '#' ∧ Quote.isMark c = false ∧ isDelimiter c = false := by
  simp only [endsComment, Bool.or_eq_true, beq_iff_eq] at ends
  rcases ends with rfl | rfl <;> decide

theorem ne_of_isMark (isMark : Quote.isMark c = true) :
    c ≠ '#' ∧ c ≠ '\\' ∧ c ≠ '\n' ∧ isDelimiter c = false := by
  simp only [Quote.isMark, Bool.or_eq_true, beq_iff_eq] at isMark
  rcases isMark with rfl | rfl <;> decide

theorem isDelimiter_cases (delimiter : isDelimiter c = true) :
    c ∈ ['(', '[', '{', ')', ']', '}'] := by
  simp only [isDelimiter, Bool.or_eq_true, beq_iff_eq, or_assoc] at delimiter
  rcases delimiter with opens | rfl | rfl | rfl
  · obtain ⟨closer, pair⟩ := Option.isSome_iff_exists.1 opens
    rcases closerOf?_cases pair with ⟨rfl, -⟩ | ⟨rfl, -⟩ | ⟨rfl, -⟩ <;> decide
  all_goals decide

/-- A delimiter is no other sign. -/
theorem ne_of_isDelimiter (delimiter : isDelimiter c = true) :
    c ≠ '#' ∧ c ≠ '\n' ∧ Quote.isMark c = false := by
  have mem := isDelimiter_cases delimiter
  simp only [List.mem_cons, List.not_mem_nil, or_false] at mem
  rcases mem with rfl | rfl | rfl | rfl | rfl | rfl <;> decide

-- -------------------------------------------------- from grammar to reader

/-- The reader steps over a comment. -/
theorem outline?_comment {body : List Char} (inside : ∀ c ∈ body, endsComment c = false)
    (ends : ∀ c ∈ rest.head?, endsComment c = true) :
    outline? comments .comment (body ++ rest) = outline? comments .code rest := by
  induction body with
  | nil =>
    cases rest with
    | nil => rfl
    | cons c rest =>
      have last := ends c rfl
      have plain := plain_of_endsComment last
      simp [outline?, last, plain]
  | cons c body ih =>
    obtain ⟨own, others⟩ := List.forall_mem_cons.1 inside
    rw [List.cons_append, outline?, own]
    exact ih others

/-- The reader steps over a literal. -/
theorem outline?_literal {body : List Char} (isMark : Quote.isMark quote = true)
    (closes : Literal quote body) :
    outline? comments (.literal quote false) (body ++ rest) = outline? comments .code rest := by
  have mark := ne_of_isMark isMark
  induction closes with
  | close => simp [outline?, Quote.step, Reading.ofQuote, mark]
  | escaped sameLine _ ih => simpa [outline?, Quote.step, Reading.ofQuote, sameLine] using ih
  | plain noQuote noEscape sameLine _ ih =>
    simpa [outline?, Quote.step, Reading.ofQuote, noQuote, noEscape, sameLine] using ih

theorem Outline.read (outline : Outline comments text marks) :
    outline? comments .code text = some marks := by
  induction outline with
  | nil => rfl
  | comment sees inside ends _ ih =>
    rw [outline?, if_pos (by simp [sees]), outline?_comment inside ends, ih]
  | literal isMark closes _ ih =>
    have mark := ne_of_isMark isMark
    rw [outline?, if_neg (by simp [mark]), if_pos isMark, outline?_literal isMark closes, ih]
  | delimiter delimiter _ ih =>
    have other := ne_of_isDelimiter delimiter
    rw [outline?, if_neg (by simp [other]), if_neg (by simp [other]), if_pos delimiter, ih]
    rfl
  | plain noComment noMark noDelimiter _ ih =>
    rw [outline?, if_neg (by simpa using noComment), if_neg (by simp [noMark]),
      if_neg (by simp [noDelimiter]), ih]

-- -------------------------------------------------- from reader to grammar

/-- What a text has to be from a character on, by what is being read there. -/
def Outline.From (comments : Bool) (text marks : List Char) : Reading → Prop
  | .code => Outline comments text marks
  | .comment => ∃ body rest, text = body ++ rest ∧ (∀ c ∈ body, endsComment c = false) ∧
      (∀ c ∈ rest.head?, endsComment c = true) ∧ Outline comments rest marks
  | .literal quote escaped => ∃ body rest, text = body ++ rest ∧
      Literal quote (if escaped then '\\' :: body else body) ∧ Outline comments rest marks

/-- One more character of a literal. -/
theorem Outline.from_literal (sameLine : c ≠ '\n')
    (follows : From comments rest marks (.ofQuote ((Quote.inside quote escaped).step c))) :
    From comments (c :: rest) marks (.literal quote escaped) := by
  cases escaped with
  | true =>
    obtain ⟨body, rest, rfl, closes, outline⟩ := follows
    exact ⟨c :: body, rest, rfl, .escaped sameLine closes, outline⟩
  | false =>
    rw [Quote.step] at follows
    split at follows
    · rename_i backslash
      obtain ⟨body, rest, rfl, closes, outline⟩ := follows
      rw [beq_iff_eq.1 backslash]
      exact ⟨'\\' :: body, rest, rfl, closes, outline⟩
    · split at follows
      · rename_i ends
        rw [beq_iff_eq.1 ends]
        exact ⟨[quote], rest, rfl, .close, follows⟩
      · rename_i noEscape noQuote
        obtain ⟨body, rest, rfl, closes, outline⟩ := follows
        rw [beq_iff_eq] at noEscape noQuote
        exact ⟨c :: body, rest, rfl, .plain noQuote noEscape sameLine closes, outline⟩

/-- What the reader finds has the shape that the grammar asks for. -/
theorem Outline.from_read (read : outline? comments reading text = some marks) :
    From comments text marks reading := by
  induction text generalizing reading marks with
  | nil =>
    cases reading with
    | code =>
      cases read
      exact .nil
    | comment =>
      cases read
      exact ⟨[], [], rfl, by simp, by simp, .nil⟩
    | literal => cases read
  | cons c rest ih =>
    cases reading with
    | code =>
      rw [outline?] at read
      split at read
      · rename_i sees
        rw [Bool.and_eq_true, beq_iff_eq] at sees
        obtain ⟨body, rest, rfl, inside, ends, outline⟩ := ih read
        rw [sees.2]
        exact .comment sees.1 inside ends outline
      · rename_i noComment
        split at read
        · rename_i isMark
          obtain ⟨body, rest, rfl, closes, outline⟩ := ih read
          exact .literal isMark closes outline
        · rename_i noMark
          split at read
          · rename_i delimiter
            obtain ⟨marks', tail, rfl⟩ := Option.map_eq_some_iff.1 read
            exact .delimiter delimiter (ih tail)
          · rename_i noDelimiter
            exact .plain (by simpa using noComment) (by simpa using noMark)
              (by simpa using noDelimiter) (ih read)
    | comment =>
      rw [outline?] at read
      split at read
      · rename_i ends
        obtain ⟨noComment, noMark, noDelimiter⟩ := plain_of_endsComment ends
        exact ⟨[], c :: rest, rfl, by simp, by simpa using ends,
          .plain (fun _ => noComment) noMark noDelimiter (ih read)⟩
      · rename_i goesOn
        obtain ⟨body, rest, rfl, inside, ends, outline⟩ := ih read
        exact ⟨c :: body, rest, rfl,
          List.forall_mem_cons.2 ⟨by simpa using goesOn, inside⟩, ends, outline⟩
    | literal quote escaped =>
      rw [outline?] at read
      split at read
      · cases read
      · rename_i sameLine
        exact from_literal (by simpa using sameLine) (ih read)

/-- The grammar and its reader agree. -/
theorem outline_iff : Outline comments text marks ↔ outline? comments .code text = some marks :=
  ⟨Outline.read, Outline.from_read⟩

/-- A text is balanced where the two readers find it so. -/
theorem balanced_iff : Balanced comments text ↔
    (outline? comments .code text).bind (unwind []) = some [] := by
  simp only [Balanced, outline_iff, dyck_iff, Option.bind_eq_some_iff]

instance : Decidable (Balanced comments text) :=
  decidable_of_iff _ balanced_iff.symm

-- Neither the quote in the comment nor the closer in the literal counts.
example : Balanced true "f(a['\\')']) # isn't\ng(\x7b\x7d)".toList := by decide +kernel

example : ¬Balanced true "f(a[0)]".toList := by decide +kernel

end RoutineScript
