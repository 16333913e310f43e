/-
Normalizing a written text.

A text of tokens stays as it is, but for the blanks that its spelling put
around numbers: reading a source drops them. What is left is the text of the
same tokens in the tidy spelling, where numbers have no such blanks, and all
of it stands on line one.

The layout that reads a text comes out of each token knowing whether it was a
word. The invariant that carries the induction is that a word is kept apart
from what it could run into: where blanks are dropped behind it, the layout
has seen a gap.
-/
import RoutineScript.Proofs.Printing.Cutting

namespace RoutineScript

-- ============================================================ tidy spellings

/-- A spelling without the blanks that are dropped. -/
def Spelling.tidy (sp : Spelling) : Spelling where
  quote := sp.quote
  isMark := sp.isMark
  numeral x := (sp.numeral x).filter (!isSpace ·)

variable {sp : Spelling}

/-- Dropping blanks leaves the digits of a number. -/
theorem tidy_numeral {x : Float} {before digits after : List Char}
    (eq : sp.numeral x = before ++ digits ++ after) (numeral : Token.IsNumeral x digits) :
    sp.tidy.numeral x
      = before.filter (!isSpace ·) ++ digits ++ after.filter (!isSpace ·) := by
  have whole : digits.filter (!isSpace ·) = digits := by
    refine List.filter_eq_self.2 fun c mem => ?_
    rw [isSpace_of_solid (Token.isBlank_of_digit_or_point (numeral.digit_or_point c mem))]
    rfl
  rw [Spelling.tidy]
  simp only [eq, List.filter_append, whole]

/-- A tidy spelling spells the same numbers. -/
theorem reads_tidy {token : Token} (reads : sp.Reads token) : sp.tidy.Reads token := by
  cases token with
  | number x =>
    obtain ⟨before, digits, after, eq, blank, numeral, blank'⟩ := numeral_of_reads reads
    have blanks : ∀ c ∈ before.filter (!isSpace ·), Text.isBlank c = true :=
      fun c mem => blank c (List.mem_filter.1 mem).1
    have blanks' : ∀ c ∈ after.filter (!isSpace ·), Text.isBlank c = true :=
      fun c mem => blank' c (List.mem_filter.1 mem).1
    constructor
    · have ends : ∀ d ∈ (after.filter (!isSpace ·)).head?, d.isDigit = false ∧ d ≠ '.' := by
        intro d mem
        exact Token.endsNumber_of_isBlank (blanks' d (List.mem_of_head? mem))
      rw [tidy_numeral eq numeral, List.append_assoc, Token.scan_blanks blanks,
        Token.scan_numeral numeral ends, ← List.append_nil (after.filter _),
        Token.scan_blanks blanks', Token.scan]
      rfl
    · intro mem
      exact reads.2 (List.mem_filter.1 mem).1
  | name s => exact reads
  | string | keyword | mark => trivial

-- ========================================================= reading characters

/-- A layout within the code of line one. -/
def inCode (opened : List Char) (seen afterWord : Bool) : Layout :=
  { line := 1, opened := oneLine opened, gap := seen, afterWord, reading := .code }

/-- A layout that gives something off for a text and goes on as another one. -/
def Gives (layout : Layout) (text : List Char) (given : Span) (layout' : Layout) : Prop :=
  ∀ source, layout.read (text ++ source) = (layout'.read source).map (given ++ ·)

theorem gives_nil (layout : Layout) : Gives layout [] [] layout := by
  intro source
  cases eq : layout.read source with
  | error fault => rw [List.nil_append, eq]; rfl
  | ok rest => rw [List.nil_append, eq]; rfl

theorem Gives.append {l₁ l₂ l₃ : Layout} {a b : List Char} {g h : Span}
    (first : Gives l₁ a g l₂) (second : Gives l₂ b h l₃) : Gives l₁ (a ++ b) (g ++ h) l₃ := by
  intro source
  rw [List.append_assoc, first, second]
  cases l₃.read source with
  | error fault => rfl
  | ok rest => simp [Except.map]

theorem gives_singleton {layout layout' : Layout} {c : Char} {given : Span}
    (step : layout.step c = .ok (given, layout')) : Gives layout [c] given layout' := by
  intro source
  rw [List.singleton_append, Layout.read, step]
  rfl

/-- Reading goes on with the layout behind a character. -/
theorem exists_of_read_cons {layout : Layout} {c : Char} {rest : List Char} {span : Span}
    (read : layout.read (c :: rest) = .ok span) :
    ∃ (given : Span) (layout' : Layout) (span' : Span), layout.step c = .ok (given, layout') ∧
      layout'.read rest = .ok span' ∧ span = given ++ span' := by
  rw [Layout.read] at read
  cases step : layout.step c with
  | error fault =>
    rw [step] at read
    cases read
  | ok found =>
    obtain ⟨given, layout'⟩ := found
    rw [step] at read
    cases tail : layout'.read rest with
    | error fault =>
      simp only [bind, Except.bind, tail] at read
      cases read
    | ok span' =>
      simp only [bind, Except.bind, tail] at read
      cases read
      exact ⟨given, layout', span', rfl, tail, rfl⟩

/-- A character of the code that is given off and neither opens nor closes. -/
structure IsGiven (c : Char) : Prop where
  sameLine : c ≠ '\n'
  noSpace : isSpace c = false
  noComment : c ≠ '#'
  noQuote : Quote.isMark c = false
  noDelimiter : c ∉ ['(', ')', '[', ']', '{', '}']

/-- The space that is put in front of a text to keep it from the word before. -/
def lead (afterWord : Bool) (text : List Char) : Span :=
  if afterWord && text.head?.any Text.isWordChar then [⟨1, ' '⟩] else []

variable {opened : List Char} {seen afterWord : Bool}

theorem step_inCode {c : Char} (sameLine : c ≠ '\n') (noSpace : isSpace c = false)
    (noComment : c ≠ '#') (noQuote : Quote.isMark c = false) :
    (inCode opened seen afterWord).step c = (inCode opened seen afterWord).give c := by
  rw [isSpace, Bool.or_eq_false_iff, Bool.or_eq_false_iff] at noSpace
  show (inCode opened seen afterWord).stepCode c = _
  simp [Layout.stepCode, inCode, sameLine, noSpace, noComment, noQuote]

theorem give_of_delimit {c : Char} {opened' : List Char}
    (delimit : (inCode opened seen afterWord).delimit c = .ok (oneLine opened')) :
    (inCode opened seen afterWord).give c
      = .ok ((if seen && Text.isWordChar c && afterWord then [⟨1, ' '⟩] else []) ++ [⟨1, c⟩],
          inCode opened' false (Text.isWordChar c)) := by
  rw [Layout.give, delimit]
  rfl

variable (opened seen afterWord) in
theorem gives_given {c : Char} (own : IsGiven c) :
    Gives (inCode opened seen afterWord) [c]
      ((if seen && Text.isWordChar c && afterWord then [⟨1, ' '⟩] else []) ++ oneLine [c])
      (inCode opened false (Text.isWordChar c)) := by
  refine gives_singleton ?_
  rw [step_inCode own.sameLine own.noSpace own.noComment own.noQuote]
  refine give_of_delimit ?_
  have := own.noDelimiter
  simp only [List.mem_cons, List.not_mem_nil, or_false, not_or] at this
  obtain ⟨h₁, h₂, h₃, h₄, h₅, h₆⟩ := this
  have noOpener : Span.closerOf? c = none := by
    unfold Span.closerOf?
    split <;> first | rfl | contradiction
  simp [Layout.delimit, noOpener, h₂, h₄, h₆, inCode]

variable (opened seen afterWord) in
/-- Dropped blanks leave a gap at most. -/
theorem gives_space {c : Char} (space : isSpace c = true) :
    ∃ seen', (seen = true → seen' = true) ∧
      Gives (inCode opened seen afterWord) [c] [] (inCode opened seen' afterWord) := by
  rcases eq_of_isSpace space with rfl | rfl | rfl
  · exact ⟨true, fun _ => rfl, gives_singleton rfl⟩
  · exact ⟨true, fun _ => rfl, gives_singleton rfl⟩
  · exact ⟨seen, id, gives_singleton rfl⟩

-- =============================================================== reading runs

/-- What numbers and words are written with is given off. -/
theorem isGiven_of_class {c : Char}
    (h : Text.isBlank c = true ∨ Text.isWordChar c = true ∨ c = '.') (sameLine : c ≠ '\n')
    (noSpace : isSpace c = false) : IsGiven c := by
  obtain ⟨noQuote, notSearched⟩ := notMem_searchedFor h
  refine ⟨sameLine, noSpace, ?_, noQuote, fun mem => notSearched ?_⟩
  · intro same
    subst same
    revert h
    decide
  · simp only [List.mem_cons, List.not_mem_nil, or_false] at mem
    rcases mem with rfl | rfl | rfl | rfl | rfl | rfl <;> decide

theorem isGiven_of_isWordChar {c : Char} (word : Text.isWordChar c = true) : IsGiven c := by
  refine isGiven_of_class (.inr (.inl word)) ?_
    (isSpace_of_solid (Text.isBlank_of_isWordChar word))
  intro same
  subst same
  revert word
  decide

variable (opened seen afterWord) in
/-- A run without blanks is given off as it is, behind a space if it has to
be. -/
theorem gives_run {c : Char} {rest : List Char} (own : ∀ d ∈ c :: rest, IsGiven d) :
    Gives (inCode opened seen afterWord) (c :: rest)
      ((if seen && Text.isWordChar c && afterWord then [⟨1, ' '⟩] else []) ++ oneLine (c :: rest))
      (inCode opened false (rest.foldl (fun _ d => Text.isWordChar d) (Text.isWordChar c))) := by
  induction rest generalizing c seen afterWord with
  | nil => exact gives_given opened seen afterWord (own c List.mem_cons_self)
  | cons d rest ih =>
    obtain ⟨first, others⟩ := List.forall_mem_cons.1 own
    have both := (gives_given opened seen afterWord first).append
      (ih false (Text.isWordChar c) others)
    rw [Bool.false_and, Bool.false_and, if_neg Bool.false_ne_true, List.nil_append,
      List.append_assoc, ← oneLine_append] at both
    exact both

/-- A word is given off behind a space, if a word stands before it. -/
theorem gives_word {text : List Char} (word : Token.IsWord text)
    (kept : afterWord = true → seen = true) :
    Gives (inCode opened seen afterWord) text (lead afterWord text ++ oneLine text)
      (inCode opened false true) := by
  have all := word.isWordChar
  obtain ⟨c, rest, rfl, -, behind⟩ := word
  have first := all c List.mem_cons_self
  have run := gives_run opened seen afterWord fun d mem => isGiven_of_isWordChar (all d mem)
  have ends : rest.foldl (fun _ d => Text.isWordChar d) (Text.isWordChar c) = true := by
    rw [first]
    clear run first all
    induction rest with
    | nil => rfl
    | cons d rest ih =>
      obtain ⟨own, others⟩ := List.forall_mem_cons.1 behind
      rw [List.foldl_cons, own]
      exact ih others
  have space : (seen && Text.isWordChar c && afterWord) = (afterWord && Text.isWordChar c) := by
    cases afterWord with
    | false => simp
    | true => simp [kept rfl]
  rw [ends, space] at run
  exact run

variable (opened seen afterWord) in
/-- Blanks leave only those that are not dropped, and then no word stands
before what follows. -/
theorem gives_blanks {text : List Char} (blank : ∀ c ∈ text, Text.isBlank c = true)
    (sameLine : '\n' ∉ text) :
    ∃ seen' afterWord', Gives (inCode opened seen afterWord) text
        (oneLine (text.filter (!isSpace ·))) (inCode opened seen' afterWord') ∧
      (text.filter (!isSpace ·) = [] →
        afterWord' = afterWord ∧ (seen = true → seen' = true)) ∧
      (text.filter (!isSpace ·) ≠ [] → afterWord' = false) := by
  induction text generalizing seen afterWord with
  | nil => exact ⟨seen, afterWord, gives_nil _, fun _ => ⟨rfl, id⟩, fun h => absurd rfl h⟩
  | cons c text ih =>
    obtain ⟨first, others⟩ := List.forall_mem_cons.1 blank
    rw [List.mem_cons, not_or] at sameLine
    by_cases space : isSpace c = true
    · obtain ⟨seen₁, kept, gives⟩ := gives_space opened seen afterWord space
      obtain ⟨seen', afterWord', behind, dropped, left⟩ := ih seen₁ afterWord others sameLine.2
      rw [List.filter_cons_of_neg (by simp [space])]
      exact ⟨seen', afterWord', gives.append behind,
        fun none => ⟨(dropped none).1, fun h => (dropped none).2 (kept h)⟩, left⟩
    · have solid := eq_false_of_ne_true space
      have given := isGiven_of_class (.inl first) (Ne.symm sameLine.1) solid
      have one := gives_given opened seen afterWord given
      rw [Text.isWordChar_of_isBlank first, Bool.and_false, Bool.false_and,
        if_neg Bool.false_ne_true, List.nil_append] at one
      obtain ⟨seen', afterWord', behind, dropped, left⟩ := ih false false others sameLine.2
      have noWord : afterWord' = false := by
        by_cases none : text.filter (!isSpace ·) = []
        · exact (dropped none).1
        · exact left none
      rw [List.filter_cons_of_pos (by simp [solid])]
      exact ⟨seen', afterWord', one.append behind,
        fun none => absurd none (List.cons_ne_nil _ _), fun _ => noWord⟩

/-- A gap has been seen where a word might run into a text. -/
def Kept (afterWord seen : Bool) (text : List Char) : Prop :=
  afterWord = true → (text.head?.any fun c => Text.isWordChar c || isSpace c) = true →
    seen = true

/-- The space that the digits of a number are given off with stands in front
of the whole number. -/
theorem lead_numeral {before rest after : List Char} {c : Char} {seen' afterWord' : Bool}
    (blank : ∀ d ∈ before, Text.isBlank d = true)
    (kept : Kept afterWord seen (before ++ c :: rest ++ after))
    (dropped : before.filter (!isSpace ·) = [] →
      afterWord' = afterWord ∧ (seen = true → seen' = true))
    (left : before.filter (!isSpace ·) ≠ [] → afterWord' = false) (tail : List Char) :
    oneLine (before.filter (!isSpace ·))
        ++ (if seen' && Text.isWordChar c && afterWord' then [⟨1, ' '⟩] else [])
      = lead afterWord (before.filter (!isSpace ·) ++ c :: rest ++ tail)
        ++ oneLine (before.filter (!isSpace ·)) := by
  cases none : before.filter (!isSpace ·) with
  | cons d front =>
    have mem : d ∈ before.filter (!isSpace ·) := none ▸ List.mem_cons_self
    have noWord := Text.isWordChar_of_isBlank (blank d (List.mem_filter.1 mem).1)
    rw [left (none ▸ List.cons_ne_nil d front)]
    simp [lead, noWord]
  | nil =>
    obtain ⟨same, seen''⟩ := dropped none
    have runs : Text.isWordChar c = true →
        ((before ++ c :: rest ++ after).head?.any fun d => Text.isWordChar d || isSpace d)
          = true := by
      intro word
      cases before with
      | nil => simp [word]
      | cons d before =>
        have := List.filter_eq_nil_iff.1 none d List.mem_cons_self
        simp only [Bool.not_eq_true', Bool.not_eq_false] at this
        simp [this]
    have space : (seen' && Text.isWordChar c && afterWord')
        = (afterWord && Text.isWordChar c) := by
      subst same
      by_cases both : afterWord' = true ∧ Text.isWordChar c = true
      · simp [both, seen'' (kept both.1 (runs both.2))]
      · cases afterWord' <;> simp_all
    rw [space, lead]
    simp [oneLine]

/-- A number is given off without the blanks that are dropped. -/
theorem gives_numeral {x : Float} (reads : sp.Reads (.number x))
    (kept : Kept afterWord seen (sp.numeral x)) :
    ∃ seen' afterWord', Gives (inCode opened seen afterWord) (sp.numeral x)
      (lead afterWord (sp.tidy.numeral x) ++ oneLine (sp.tidy.numeral x))
      (inCode opened seen' afterWord') := by
  obtain ⟨before, digits, after, eq, blank, numeral, blank'⟩ := numeral_of_reads reads
  have sameLine := reads.2
  have tidy := tidy_numeral eq numeral
  have solid := numeral.digit_or_point
  obtain ⟨c, rest, rfl⟩ := List.exists_cons_of_ne_nil numeral.ne_nil
  rw [eq, List.mem_append, List.mem_append, not_or, not_or] at sameLine
  have given : ∀ d ∈ c :: rest, IsGiven d := by
    intro d mem
    have own := solid d mem
    refine isGiven_of_class (own.elim (fun h => .inr (.inl (Text.isWordChar_of_isDigit h)))
      fun h => .inr (.inr h)) ?_ (isSpace_of_solid (Token.isBlank_of_digit_or_point own))
    intro same
    subst same
    exact sameLine.1.2 mem
  obtain ⟨seen₁, afterWord₁, gives₁, dropped, left⟩ :=
    gives_blanks opened seen afterWord blank sameLine.1.1
  have middle := gives_run opened seen₁ afterWord₁ given
  obtain ⟨seen₂, afterWord₂, gives₂, -, -⟩ := gives_blanks opened false _ blank' sameLine.2
  refine ⟨seen₂, afterWord₂, ?_⟩
  have whole := (gives₁.append middle).append gives₂
  rw [eq] at kept ⊢
  have front := lead_numeral blank kept dropped left (after.filter (!isSpace ·))
  rw [← List.append_assoc, front, ← tidy] at whole
  have spans : lead afterWord (sp.tidy.numeral x) ++ oneLine (sp.tidy.numeral x)
      = lead afterWord (sp.tidy.numeral x) ++ oneLine (before.filter (!isSpace ·))
        ++ oneLine (c :: rest) ++ oneLine (after.filter (!isSpace ·)) := by
    conv => lhs; rw [tidy, oneLine_append, oneLine_append, ← tidy]
    simp only [List.append_assoc]
  rw [spans]
  exact whole

-- ============================================================ reading literals

/-- A layout within a literal of line one. -/
def inLiteral (opened : List Char) (quote : Char) (escaped : Bool) : Layout :=
  { line := 1, opened := oneLine opened, gap := false, afterWord := false
    reading := .literal quote escaped }

theorem gives_inLiteral {quote c : Char} {escaped escaped' : Bool} (sameLine : c ≠ '\n')
    (stays : (Quote.inside quote escaped).step c = .inside quote escaped') :
    Gives (inLiteral opened quote escaped) [c] (oneLine [c])
      (inLiteral opened quote escaped') := by
  refine gives_singleton ?_
  show (inLiteral opened quote escaped).stepLiteral quote escaped c = _
  rw [Layout.stepLiteral, if_neg (by simpa using sameLine), stays]
  rfl

/-- Escaped characters stay as they are. -/
theorem gives_escape {quote : Char} (isMark : Quote.isMark quote = true) (c : Char) :
    Gives (inLiteral opened quote false) (Token.escape quote c)
      (oneLine (Token.escape quote c)) (inLiteral opened quote false) := by
  have opens : (Quote.inside quote false).step '\\' = .inside quote true := by
    simp [Quote.step]
  have backslash : Gives (inLiteral opened quote false) ['\\'] (oneLine ['\\'])
      (inLiteral opened quote true) :=
    gives_inLiteral (by decide) opens
  rw [Token.escape]
  by_cases special : c = quote ∨ c = '\\'
  · rw [if_pos special]
    have sameLine : c ≠ '\n' := by
      intro same
      subst same
      rcases special with rfl | special
      · cases isMark
      · cases special
    exact backslash.append (gives_inLiteral sameLine rfl)
  · rw [if_neg special]
    obtain ⟨notQuote, notBackslash⟩ := not_or.1 special
    by_cases lineEnd : c = '\n'
    · rw [if_pos lineEnd]
      exact backslash.append (gives_inLiteral (by decide) rfl)
    · rw [if_neg lineEnd]
      exact gives_inLiteral lineEnd (by simp [Quote.step, notQuote, notBackslash])

theorem gives_contents {quote : Char} (isMark : Quote.isMark quote = true)
    (contents : List Char) :
    Gives (inLiteral opened quote false) (contents.flatMap (Token.escape quote))
      (oneLine (contents.flatMap (Token.escape quote))) (inLiteral opened quote false) := by
  induction contents with
  | nil => exact gives_nil _
  | cons c contents ih =>
    rw [List.flatMap_cons, oneLine_append]
    exact (gives_escape isMark c).append ih

/-- A literal stays as it is. -/
theorem gives_literal {quote : Char} (isMark : Quote.isMark quote = true)
    (contents : List Char) :
    Gives (inCode opened seen afterWord)
      (quote :: contents.flatMap (Token.escape quote) ++ [quote])
      (oneLine (quote :: contents.flatMap (Token.escape quote) ++ [quote]))
      (inCode opened false false) := by
  have enters : Gives (inCode opened seen afterWord) [quote] (oneLine [quote])
      (inLiteral opened quote false) := by
    rcases Token.eq_of_isMark isMark with rfl | rfl <;> exact gives_singleton rfl
  have leaves : Gives (inLiteral opened quote false) [quote] (oneLine [quote])
      (inCode opened false false) := by
    rcases Token.eq_of_isMark isMark with rfl | rfl <;> exact gives_singleton rfl
  have whole := (enters.append (gives_contents isMark contents)).append leaves
  rw [← oneLine_append, ← oneLine_append] at whole
  exact whole

-- ========================================================== reading delimiters

theorem gives_delimiter {c : Char} {opened' : List Char}
    (own : c ∈ ['(', ')', '[', ']', '{', '}'])
    (delimit : (inCode opened seen afterWord).delimit c = .ok (oneLine opened')) :
    Gives (inCode opened seen afterWord) [c] (oneLine [c]) (inCode opened' false false) := by
  have classes : c ≠ '\n' ∧ isSpace c = false ∧ c ≠ '#' ∧ Quote.isMark c = false ∧
      Text.isWordChar c = false := by
    simp only [List.mem_cons, List.not_mem_nil, or_false] at own
    rcases own with rfl | rfl | rfl | rfl | rfl | rfl <;> decide
  obtain ⟨sameLine, noSpace, noComment, noQuote, noWord⟩ := classes
  refine gives_singleton ?_
  rw [step_inCode sameLine noSpace noComment noQuote, give_of_delimit delimit, noWord,
    Bool.and_false, Bool.false_and, if_neg Bool.false_ne_true]
  rfl

theorem gives_opener {c d : Char} (pair : Span.closerOf? c = some d) :
    Gives (inCode opened seen afterWord) [c] (oneLine [c]) (inCode (c :: opened) false false) := by
  refine gives_delimiter ?_ ?_
  · unfold Span.closerOf? at pair
    split at pair <;> first | decide | cases pair
  · rw [Layout.delimit, pair]
    rfl

theorem gives_closer {c d : Char} (pair : Span.closerOf? c = some d) :
    Gives (inCode (c :: opened) seen afterWord) [d] (oneLine [d]) (inCode opened false false) := by
  refine gives_delimiter ?_ ?_
  · unfold Span.closerOf? at pair
    split at pair <;> cases pair <;> decide
  · unfold Span.closerOf? at pair
    split at pair <;> cases pair <;> rfl

-- ============================================================ reading tokens

/-- Tokens that close what is open, innermost first, and all they open. -/
inductive Closes : List Char → List Token → Prop where
  | nil : Closes [] []
  | opener {stack : List Char} {m : Mark} {c d : Char} {rest : List Token}
      (spelled : m.spelling.toList = [c]) (pair : Span.closerOf? c = some d)
      (behind : Closes (c :: stack) rest) : Closes stack (.mark m :: rest)
  | closer {stack : List Char} {m : Mark} {c d : Char} {rest : List Token}
      (spelled : m.spelling.toList = [d]) (pair : Span.closerOf? c = some d)
      (behind : Closes stack rest) : Closes (c :: stack) (.mark m :: rest)
  | other {stack : List Char} {token : Token} {rest : List Token}
      (own : token.isPlain = true ∨ token = .mark .semicolon) (behind : Closes stack rest) :
    Closes stack (token :: rest)

/-- A mark that is no delimiter is given off as it is. -/
theorem gives_mark {m : Mark} (own : (Token.mark m).isPlain = true ∨ m = .semicolon) :
    Gives (inCode opened seen afterWord) m.spelling.toList (oneLine m.spelling.toList)
      (inCode opened false false) := by
  have given : ∀ c ∈ m.spelling.toList, IsGiven c ∧ Text.isWordChar c = false := by
    have all : m.spelling.toList.all (fun c => decide (c ≠ '\n' ∧ isSpace c = false ∧ c ≠ '#' ∧
        Quote.isMark c = false ∧ c ∉ ['(', ')', '[', ']', '{', '}'] ∧
        Text.isWordChar c = false)) = true := by
      cases m <;> first | decide | (rcases own with own | own <;> cases own)
    intro c mem
    obtain ⟨h₁, h₂, h₃, h₄, h₅, h₆⟩ := of_decide_eq_true (List.all_eq_true.1 all c mem)
    exact ⟨⟨h₁, h₂, h₃, h₄, h₅⟩, h₆⟩
  have one : ∀ {seen afterWord : Bool} {c : Char}, c ∈ m.spelling.toList →
      Gives (inCode opened seen afterWord) [c] (oneLine [c]) (inCode opened false false) := by
    intro seen afterWord c mem
    obtain ⟨isGiven, noWord⟩ := given c mem
    have := gives_given opened seen afterWord isGiven
    rwa [noWord, Bool.and_false, Bool.false_and, if_neg Bool.false_ne_true,
      List.nil_append] at this
  rcases Token.spelling_mark m with ⟨c, spelled, -⟩ | ⟨c, d, spelled, -⟩
  · rw [spelled] at one ⊢
    exact one List.mem_cons_self
  · rw [spelled] at one ⊢
    exact (one List.mem_cons_self).append (one (List.mem_cons_of_mem c List.mem_cons_self))

/-- Nothing stands in front of what begins with no word. -/
theorem lead_eq_nil {text : List Char} (noWord : ∀ c ∈ text.head?, Text.isWordChar c = false) :
    lead afterWord text = [] := by
  rw [lead]
  cases text with
  | nil => simp
  | cons c rest => simp [noWord c rfl]

theorem isWordChar_head_mark (m : Mark) :
    ∀ c ∈ m.spelling.toList.head?, Text.isWordChar c = false := by
  obtain ⟨c, tail, spelled, own⟩ := exists_head_mark m
  rw [spelled]
  intro d mem
  cases mem
  exact (Token.classes_of_isMarkChar own).2.2.1

theorem isWordChar_of_isMark {c : Char} (isMark : Quote.isMark c = true) :
    Text.isWordChar c = false := by
  rcases Token.eq_of_isMark isMark with rfl | rfl <;> decide

/-- A token that is no delimiter is given off in its tidy spelling. -/
theorem gives_token {token : Token} (reads : sp.Reads token)
    (own : token.isPlain = true ∨ token = .mark .semicolon)
    (kept : Kept afterWord seen (sp.text token)) :
    ∃ seen' afterWord', Gives (inCode opened seen afterWord) (sp.text token)
        (lead afterWord (sp.tidy.text token) ++ oneLine (sp.tidy.text token))
        (inCode opened seen' afterWord') ∧
      ((∀ x, token ≠ .number x) →
        afterWord' = (sp.text token).getLast?.any Text.isWordChar) := by
  have word : ∀ {text : List Char}, Token.IsWord text → Kept afterWord seen text →
      Gives (inCode opened seen afterWord) text (lead afterWord text ++ oneLine text)
          (inCode opened false true) ∧
        true = text.getLast?.any Text.isWordChar := by
    intro text isWord kept
    obtain ⟨c, last⟩ := Option.isSome_iff_exists.1 (List.getLast?_isSome.2 isWord.ne_nil)
    obtain ⟨d, head⟩ := Option.isSome_iff_exists.1 (List.isSome_head?.2 isWord.ne_nil)
    have ends := isWord.isWordChar c (List.mem_of_getLast? last)
    have begins := isWord.isWordChar d (List.mem_of_head? head)
    refine ⟨gives_word isWord fun after => kept after ?_, ?_⟩
    · simp [head, begins]
    · simp [last, ends]
  cases token with
  | number x =>
    obtain ⟨seen', afterWord', gives⟩ := gives_numeral reads kept
    exact ⟨seen', afterWord', gives, fun none => absurd rfl (none x)⟩
  | string s =>
    have noWord := isWordChar_of_isMark sp.isMark
    have noSpace : lead afterWord (sp.tidy.text (.string s)) = [] := by
      refine lead_eq_nil ?_
      intro c mem
      cases mem
      exact noWord
    refine ⟨false, false, ?_, fun _ => ?_⟩
    · rw [noSpace]
      exact gives_literal sp.isMark s.toList
    · rw [Spelling.text, List.getLast?_concat]
      exact noWord.symm
  | name s => exact ⟨false, true, (word (isWord_of_reads reads) kept).imp_right fun h _ => h⟩
  | keyword w => exact ⟨false, true, (word (isWord_keyword w) kept).imp_right fun h _ => h⟩
  | mark m =>
    have noSpace : lead afterWord (sp.tidy.text (.mark m)) = [] :=
      lead_eq_nil (isWordChar_head_mark m)
    refine ⟨false, false, ?_, fun _ => ?_⟩
    · rw [noSpace]
      exact gives_mark (own.imp_right Token.mark.inj)
    · cases m <;> rfl

-- =========================================================== reading a source

/-- No tidy token begins with a blank that is dropped. -/
theorem isSpace_head_tidy {token : Token} (reads : sp.Reads token) :
    ∀ c ∈ (sp.tidy.text token).head?, isSpace c = false := by
  intro c head
  cases token with
  | number x =>
    have := (List.mem_filter.1 (List.mem_of_head? head)).2
    simpa using this
  | string s =>
    cases head
    rcases Token.eq_of_isMark sp.tidy.isMark with eq | eq <;> rw [eq] <;> rfl
  | name s =>
    have word := (isWord_of_reads reads).isWordChar c (List.mem_of_head? head)
    exact isSpace_of_solid (Text.isBlank_of_isWordChar word)
  | keyword w =>
    have word := (isWord_keyword w).isWordChar c (List.mem_of_head? head)
    exact isSpace_of_solid (Text.isBlank_of_isWordChar word)
  | mark m =>
    obtain ⟨d, tail, spelled, own⟩ := exists_head_mark m
    rw [Spelling.text, spelled] at head
    cases head
    exact isSpace_of_solid (Token.classes_of_isMarkChar own).1

/-- The space in front of a tidy text is the gap behind the word before. -/
theorem lead_eq_gap {left right : List Char} (noSpace : ∀ c ∈ right.head?, isSpace c = false) :
    lead (left.getLast?.any Text.isWordChar) right = oneLine (gap left right) := by
  rw [lead, gap, runsInto]
  cases eq : right.head? with
  | none => simp [oneLine]
  | some c =>
    simp only [Option.any_some, noSpace c eq, Bool.or_false]
    split <;> rfl

/-- No word stands behind a number. -/
theorem head_behind_number {x : Float} {rest : List Token} (fit : Fit (.number x :: rest)) :
    ∀ c ∈ (sp.render rest).head?, Text.isWordChar c = false ∧ isSpace c = false := by
  cases rest with
  | nil =>
    intro c mem
    cases mem
  | cons next rest =>
    obtain ⟨fits, -⟩ := fit_cons.1 fit
    cases next with
    | mark m =>
      intro c mem
      obtain ⟨d, tail, spelled, own⟩ := exists_head_mark m
      rw [render_mark_cons, spelled] at mem
      cases mem
      obtain ⟨noBlank, -, noWord, -⟩ := Token.classes_of_isMarkChar own
      exact ⟨noWord, isSpace_of_solid noBlank⟩
    | number | string | name | keyword => cases fits

/-- Behind a token and the gap after it, words are kept apart again. -/
theorem gives_gap {token : Token} {rest : List Token} {afterWord' : Bool}
    (fit : Fit (token :: rest)) (last : (∀ x, token ≠ .number x) →
      afterWord' = (sp.text token).getLast?.any Text.isWordChar) :
    ∃ seen', Gives (inCode opened seen afterWord') (gap (sp.text token) (sp.render rest)) []
        (inCode opened seen' afterWord') ∧
      Kept afterWord' seen' (sp.render rest) := by
  by_cases runs : runsInto (sp.text token) (sp.render rest) = true
  · rw [gap, if_pos runs]
    exact ⟨true, gives_singleton rfl, fun _ _ => rfl⟩
  · rw [gap, if_neg runs]
    refine ⟨seen, gives_nil _, fun word head => absurd ?_ runs⟩
    by_cases number : ∃ x, token = .number x
    · obtain ⟨x, rfl⟩ := number
      have apart : ∀ c ∈ (sp.render rest).head?, _ := head_behind_number fit
      cases eq : (sp.render rest).head? with
      | none => simp [eq] at head
      | some c => simp [eq, apart c eq] at head
    · rw [runsInto, ← last fun x h => number ⟨x, h⟩, word, head]
      rfl

theorem lead_behind {token : Token} {rest : List Token} {afterWord' : Bool}
    (reads : ∀ t ∈ rest, sp.Reads t)
    (fit : Fit (token :: rest)) (last : (∀ x, token ≠ .number x) →
      afterWord' = (sp.text token).getLast?.any Text.isWordChar) :
    lead afterWord' (sp.tidy.render rest)
      = oneLine (gap (sp.tidy.text token) (sp.tidy.render rest)) := by
  by_cases number : ∃ x, token = .number x
  · obtain ⟨x, rfl⟩ := number
    have apart : ∀ c ∈ (sp.tidy.render rest).head?, _ := head_behind_number fit
    rw [lead_eq_nil fun c mem => (apart c mem).1, gap, runsInto_of_head apart]
    rfl
  · have same : sp.tidy.text token = sp.text token := by
      cases token with
      | number x => exact absurd ⟨x, rfl⟩ number
      | string | name | keyword | mark => rfl
    rw [same, last fun x h => number ⟨x, h⟩, lead_eq_gap]
    cases rest with
    | nil =>
      intro c mem
      cases mem
    | cons next rest =>
      have own := reads next List.mem_cons_self
      rw [head?_render (reads_tidy own)]
      exact isSpace_head_tidy own

/-- Reading a written text gives off the same tokens in their tidy
spelling. -/
theorem read_render {stack : List Char} {tokens : List Token} (closes : Closes stack tokens)
    (reads : ∀ t ∈ tokens, sp.Reads t) (fit : Fit tokens) {seen afterWord : Bool}
    (kept : Kept afterWord seen (sp.render tokens)) :
    (inCode stack seen afterWord).read (sp.render tokens)
      = .ok (lead afterWord (sp.tidy.render tokens) ++ sp.tidy.span tokens) := by
  have delimiter : ∀ {stack stack' : List Char} {m : Mark} {rest : List Token}
      {seen afterWord : Bool}, Gives (inCode stack seen afterWord) m.spelling.toList
        (oneLine m.spelling.toList) (inCode stack' false false) →
      (inCode stack' false false).read (sp.render rest)
        = .ok (lead false (sp.tidy.render rest) ++ sp.tidy.span rest) →
      (inCode stack seen afterWord).read (sp.render (.mark m :: rest))
        = .ok (lead afterWord (sp.tidy.render (.mark m :: rest))
          ++ sp.tidy.span (.mark m :: rest)) := by
    intro stack stack' m rest seen afterWord gives behind
    have noSpace : lead afterWord (sp.tidy.render (.mark m :: rest)) = [] := by
      have own : sp.tidy.Reads (.mark m) := trivial
      refine lead_eq_nil ?_
      rw [head?_render own]
      exact isWordChar_head_mark m
    rw [noSpace, render_mark_cons, gives, behind, span_mark_cons]
    rfl
  induction closes generalizing seen afterWord with
  | nil => cases afterWord <;> rfl
  | opener spelled pair behind ih =>
    obtain ⟨-, others⟩ := List.forall_mem_cons.1 reads
    refine delimiter ?_ (ih others (List.IsChain.tail fit) fun h => nomatch h)
    rw [spelled]
    exact gives_opener pair
  | closer spelled pair behind ih =>
    obtain ⟨-, others⟩ := List.forall_mem_cons.1 reads
    refine delimiter ?_ (ih others (List.IsChain.tail fit) fun h => nomatch h)
    rw [spelled]
    exact gives_closer pair
  | @other stack token rest own behind ih =>
    obtain ⟨first, others⟩ := List.forall_mem_cons.1 reads
    have keptFirst : Kept afterWord seen (sp.text token) := by
      intro word head
      exact kept word (by rwa [head?_render first])
    obtain ⟨seen₁, afterWord₁, gives, last⟩ := gives_token first own keptFirst
    obtain ⟨seen₂, givesGap, kept₂⟩ := gives_gap fit last
    have sameLead : lead afterWord (sp.tidy.render (token :: rest))
        = lead afterWord (sp.tidy.text token) := by
      rw [lead, lead, head?_render (reads_tidy first)]
    rw [Spelling.render, gives.append givesGap, ih others (List.IsChain.tail fit) kept₂,
      lead_behind others fit last, sameLead, Spelling.span, Spelling.span, Spelling.render,
      oneLine_append, oneLine_append]
    simp [Except.map]

-- ================================================================== sources

/-- Tokens that close whatever they open. -/
def ClosedOff (tokens : List Token) : Prop :=
  ∀ (stack : List Char) (rest : List Token), Closes stack rest → Closes stack (tokens ++ rest)

theorem closedOff_nil : ClosedOff [] :=
  fun _ _ closes => closes

theorem ClosedOff.append {a b : List Token} (first : ClosedOff a) (second : ClosedOff b) :
    ClosedOff (a ++ b) := by
  intro stack rest closes
  rw [List.append_assoc]
  exact first stack _ (second stack rest closes)

theorem closedOff_enclosed {opener closer : Mark} {c d : Char} {inside : List Token}
    (opens : opener.spelling.toList = [c]) (shuts : closer.spelling.toList = [d])
    (pair : Span.closerOf? c = some d) (within : ClosedOff inside) :
    ClosedOff (.mark opener :: (inside ++ [.mark closer])) := by
  intro stack rest closes
  rw [List.cons_append, List.append_assoc]
  exact .opener opens pair (within _ _ (.closer shuts pair closes))

/-- Nested tokens close what they open. -/
theorem closedOff_nested {flat : Token → Prop} {tokens : List Token}
    (nested : Nested flat tokens) : ClosedOff tokens := by
  induction nested with
  | nil => exact closedOff_nil
  | plain own noDelimiter _ ih =>
    intro stack rest closes
    exact .other (.inl noDelimiter) (ih stack rest closes)
  | @enclosed _ opener closer inside after closes _ _ ihWithin ihBehind =>
    have shape : Token.mark opener :: (inside ++ .mark closer :: after)
        = (.mark opener :: (inside ++ [.mark closer])) ++ after := by
      simp
    rw [shape]
    refine ClosedOff.append ?_ ihBehind
    rcases closer?_cases closes with ⟨rfl, rfl⟩ | ⟨rfl, rfl⟩
    · exact closedOff_enclosed rfl rfl rfl ihWithin
    · exact closedOff_enclosed rfl rfl rfl ihWithin

/-- Normalizing a written source leaves its tokens in their tidy spelling. -/
theorem normalize_render {tokens : List Token} (closes : ClosedOff tokens)
    (reads : ∀ t ∈ tokens, sp.Reads t) (fit : Fit tokens) :
    Span.normalize (String.ofList (sp.render tokens)) = .ok (sp.tidy.span tokens) := by
  have whole : Closes [] tokens := by
    have := closes [] [] .nil
    rwa [List.append_nil] at this
  have kept : Kept false false (sp.render tokens) := fun h => nomatch h
  rw [Span.normalize, String.toList_ofList]
  exact read_render whole reads fit kept

end RoutineScript
