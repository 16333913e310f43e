/-
Dropped blanks, and which tokens they keep apart.

Reading a source drops the blanks outside of literals, and leaves a single
space where two words would meet. What the scanner makes of the text depends
on more than words: without the blanks two minuses become one mark, and a
point joins the digit behind it. So reading a source keeps its tokens where
each of them stands apart from what follows it (`Token.Apart`): there are no
blanks to be dropped, or a space stays, or the token does not run on into
what comes after the blanks (`Token.runsOn`).

# The argument

A layout gives a lexeme off as it is, perhaps behind a space, and comes out
of it knowing whether it ended in a word (`read_lexeme`). What it gives off
next begins like the text behind the dropped blanks (`read_front`), and a
point at that place is followed by a digit only if it was before
(`beginsFraction_of_read`). So the lexeme ends in the new text where it ended
in the source, and the rest is an induction along the tokens.
-/
import RoutineScript.Proofs.Source.Lexemes
import RoutineScript.Proofs.Printing.Normalizing

namespace RoutineScript

-- ============================================================ tokens apart

namespace Token

/-- Whether a space stays between two texts when the blanks between them are
dropped: both are words there, and the blanks are not line returns alone. -/
def keepsSpace (lexeme blanks rest : List Char) : Bool :=
  blanks.any (· != '\r') && rest.head?.any Text.isWordChar && lexeme.getLast?.any Text.isWordChar

/-- Whether a lexeme stays apart from what follows it when the blanks between
them are dropped. -/
def staysApart (token : Token) (lexeme after : List Char) : Bool :=
  let blanks := after.takeWhile isSpace
  let rest := after.dropWhile isSpace
  blanks.isEmpty || keepsSpace lexeme blanks rest || !token.runsOn lexeme rest

/-- A text whose tokens stay apart from what follows them. -/
inductive Apart : List Char → Prop where
  | nil : Apart []
  | blank {c : Char} {rest : List Char} : Text.isBlank c = true → Apart rest → Apart (c :: rest)
  | token {c : Char} {text after : List Char} {token : Token} :
      Text.isBlank c = false → scanOne c (text ++ after) = .ok (token, after) →
      token.staysApart (c :: text) after = true → Apart after → Apart (c :: (text ++ after))

end Token

-- ======================================================= reading characters

/-- A character that is given off where it stands in the code. -/
def isVerbatim (c : Char) : Bool :=
  c != '\n' && !isSpace c && c != '#' && !Quote.isMark c

theorem isVerbatim_iff {c : Char} : isVerbatim c = true ↔
    c ≠ '\n' ∧ isSpace c = false ∧ c ≠ '#' ∧ Quote.isMark c = false := by
  simp [isVerbatim, and_assoc]

/-- What a layout knows between two characters of the code. -/
structure Layout.InCode (layout : Layout) (gap afterWord : Bool) : Prop where
  reading : layout.reading = .code
  gap : layout.gap = gap
  afterWord : layout.afterWord = afterWord

/-- The space that is put in front of a character. -/
def spaceBefore (gap afterWord : Bool) (c : Char) : List Char :=
  if gap && Text.isWordChar c && afterWord then [' '] else []

theorem isBlank_of_spaceBefore {gap afterWord : Bool} {c d : Char}
    (mem : d ∈ spaceBefore gap afterWord c) : Text.isBlank d = true := by
  unfold spaceBefore at mem
  split at mem
  · rw [List.mem_singleton.1 mem]
    decide
  · cases mem

variable {layout : Layout} {gap afterWord : Bool} {span : Span} {c : Char} {rest : List Char}

/-- A dropped blank leaves a gap, unless it is a line return. -/
theorem read_space (inCode : layout.InCode gap afterWord) (space : isSpace c = true)
    (read : layout.read (c :: rest) = .ok span) :
    ∃ layout' : Layout, layout'.InCode (gap || c != '\r') afterWord ∧ layout'.read rest = .ok span := by
  obtain ⟨given, layout', span', step, tail, rfl⟩ := exists_of_read_cons read
  rw [Layout.step, inCode.reading] at step
  rcases eq_of_isSpace space with rfl | rfl | rfl <;> cases step <;> refine ⟨_, ?_, tail⟩
  · exact ⟨rfl, by simp, inCode.afterWord⟩
  · exact ⟨rfl, by simp, inCode.afterWord⟩
  · exact ⟨rfl, by simp [inCode.gap], inCode.afterWord⟩

/-- A verbatim character is given off, behind a space where it has to be. -/
theorem read_verbatim (inCode : layout.InCode gap afterWord) (verbatim : isVerbatim c = true)
    (read : layout.read (c :: rest) = .ok span) :
    ∃ (layout' : Layout) (span' : Span), layout'.InCode false (Text.isWordChar c) ∧ layout'.read rest = .ok span' ∧
      span.chars = spaceBefore gap afterWord c ++ c :: span'.chars := by
  obtain ⟨given, layout', span', step, tail, rfl⟩ := exists_of_read_cons read
  have given_eq : layout.step c = { layout with reading := .code }.give c := by
    obtain ⟨sameLine, noSpace, noComment, noQuote⟩ := isVerbatim_iff.1 verbatim
    rw [isSpace, Bool.or_eq_false_iff, Bool.or_eq_false_iff] at noSpace
    rw [Layout.step, inCode.reading]
    simp [Layout.stepCode, sameLine, noSpace, noComment, noQuote]
  rw [given_eq, Layout.give] at step
  cases delimited : { layout with reading := .code }.delimit c with
  | error fault =>
    rw [delimited] at step
    cases step
  | ok opened =>
    rw [delimited] at step
    cases step
    refine ⟨_, span', ⟨rfl, rfl, rfl⟩, tail, ?_⟩
    simp only [inCode.gap, inCode.afterWord, spaceBefore]
    split <;> simp [Span.chars]

/-- A quote begins a literal. -/
theorem read_quote (inCode : layout.InCode gap afterWord) (isMark : Quote.isMark c = true)
    (read : layout.read (c :: rest) = .ok span) :
    ∃ (layout' : Layout) (span' : Span), layout'.reading = .literal c false ∧ layout'.gap = false ∧
      layout'.afterWord = false ∧ layout'.read rest = .ok span' ∧
      span.chars = c :: span'.chars := by
  obtain ⟨given, layout', span', step, tail, rfl⟩ := exists_of_read_cons read
  rw [Layout.step, inCode.reading] at step
  rcases Token.eq_of_isMark isMark with rfl | rfl
  · cases step
    exact ⟨_, span', rfl, rfl, rfl, tail, rfl⟩
  · cases step
    exact ⟨_, span', rfl, rfl, rfl, tail, rfl⟩

-- ========================================================== reading lexemes

/-- A run of verbatim characters is given off as it is. -/
theorem read_run {text after : List Char} (inCode : layout.InCode gap afterWord)
    (verbatim : ∀ d ∈ c :: text, isVerbatim d = true) (read : layout.read (c :: (text ++ after)) = .ok span) :
    ∃ (layout' : Layout) (span' : Span),
      layout'.InCode false ((c :: text).getLast?.any Text.isWordChar) ∧
      layout'.read after = .ok span' ∧
      span.chars = spaceBefore gap afterWord c ++ c :: (text ++ span'.chars) := by
  obtain ⟨first, others⟩ := List.forall_mem_cons.1 verbatim
  obtain ⟨layout₁, span₁, inCode₁, read₁, given₁⟩ := read_verbatim inCode first read
  induction text generalizing layout gap afterWord span c layout₁ span₁ with
  | nil => exact ⟨layout₁, span₁, inCode₁, read₁, given₁⟩
  | cons d text ih =>
    obtain ⟨second, others'⟩ := List.forall_mem_cons.1 others
    obtain ⟨layout₂, span₂, inCode₂, read₂, given₂⟩ := read_verbatim inCode₁ second read₁
    obtain ⟨layout', span', inCode', read', given'⟩ :=
      ih inCode₁ others read₁ second others' layout₂ span₂ inCode₂ read₂ given₂
    refine ⟨layout', span', ?_, read', ?_⟩
    · rwa [List.getLast?_cons_cons]
    · rw [given₁, given']
      simp [spaceBefore]

/-- A literal is given off as it is, up to where the scanner sees it close. -/
theorem read_literal {quote : Char} {escaped : Bool} {body contents after : List Char}
    (isMark : Quote.isMark quote = true) (inside : layout.reading = .literal quote escaped)
    (closes : Token.scanString quote escaped body = .ok (contents, []))
    (sameLine : '\n' ∉ body) (read : layout.read (body ++ after) = .ok span) :
    ∃ (layout' : Layout) (span' : Span), layout'.InCode layout.gap layout.afterWord ∧
      layout'.read after = .ok span' ∧ span.chars = body ++ span'.chars := by
  induction body generalizing layout escaped contents span with
  | nil => cases closes
  | cons c body ih =>
    rw [List.mem_cons, not_or] at sameLine
    obtain ⟨given, layout₁, span₁, step, read₁, rfl⟩ := exists_of_read_cons read
    rw [Layout.step, inside] at step
    simp only [Layout.stepLiteral, beq_iff_eq, Ne.symm sameLine.1, if_false] at step
    rcases Token.scanString_cons isMark closes with ⟨ends, rfl, -⟩ | ⟨next, _, stays, closes, -⟩
    · rw [ends] at step
      cases step
      refine ⟨_, span₁, ?_, read₁, rfl⟩
      exact ⟨rfl, rfl, rfl⟩
    · rw [stays] at step
      cases step
      obtain ⟨layout', span', inCode', read', given'⟩ := ih rfl closes sameLine.2 read₁
      exact ⟨layout', span', inCode', read', congrArg (c :: ·) given'⟩

/-- A literal ends with its quote. -/
theorem getLast?_of_scanString {quote : Char} {escaped : Bool} {body contents : List Char}
    (isMark : Quote.isMark quote = true)
    (closes : Token.scanString quote escaped body = .ok (contents, [])) :
    body.getLast? = some quote := by
  induction body generalizing escaped contents with
  | nil => cases closes
  | cons c body ih =>
    rcases Token.scanString_cons isMark closes with ⟨ends, rfl, -⟩ | ⟨next, _, -, closes, -⟩
    · cases escaped with
      | true => cases ends
      | false =>
        have isQuote : c = quote := by
          simp only [Quote.step] at ends
          split at ends
          · cases ends
          · split at ends
            · next same => exact eq_of_beq same
            · cases ends
        rw [isQuote]
        rfl
    · rw [List.getLast?_cons, ih closes]
      rfl

theorem isVerbatim_of_isGiven (given : IsGiven c) : isVerbatim c = true :=
  isVerbatim_iff.2 ⟨given.sameLine, given.noSpace, given.noComment, given.noQuote⟩

theorem isVerbatim_of_shortMark? {m : Mark} (spelled : Token.shortMark? c = some m) :
    isVerbatim c = true := by
  unfold Token.shortMark? at spelled
  split at spelled <;> first | decide | cases spelled

theorem isVerbatim_of_longMark? {d : Char} {m : Mark} (spelled : Token.longMark? c d = some m) :
    isVerbatim c = true ∧ isVerbatim d = true := by
  unfold Token.longMark? at spelled
  split at spelled <;> first | decide | cases spelled

/-- A lexeme is a literal, or verbatim throughout. -/
theorem cases_of_lexeme {token : Token} {text : List Char} (lexeme : token.Lexeme (c :: text)) :
    (Quote.isMark c = true ∧ ∃ contents, Token.scanString c false text = .ok (contents, [])) ∨
      ∀ d ∈ c :: text, isVerbatim d = true := by
  generalize eq : c :: text = whole at lexeme
  cases lexeme with
  | literal isMark closes =>
    cases eq
    exact .inl ⟨isMark, _, by simpa using closes []⟩
  | word word =>
    exact .inr fun d mem => isVerbatim_of_isGiven (isGiven_of_isWordChar (word.isWordChar d mem))
  | numeral numeral =>
    refine .inr fun d mem => ?_
    have solid := Token.isBlank_of_digit_or_point (numeral.digit_or_point d mem)
    refine isVerbatim_of_isGiven (isGiven_of_class ?_ ?_ (isSpace_of_solid solid))
    · exact (numeral.digit_or_point d mem).elim
        (fun digit => .inr (.inl (Text.isWordChar_of_isDigit digit))) fun point => .inr (.inr point)
    · rintro rfl
      cases solid
  | short spelled => exact .inr (List.forall_mem_singleton.2 (isVerbatim_of_shortMark? spelled))
  | long spelled =>
    obtain ⟨first, second⟩ := isVerbatim_of_longMark? spelled
    exact .inr (List.forall_mem_cons.2 ⟨first, List.forall_mem_singleton.2 second⟩)

/-- A lexeme is given off as it is, perhaps behind a space. -/
theorem read_lexeme {token : Token} {text after : List Char}
    (inCode : layout.InCode gap afterWord) (lexeme : token.Lexeme (c :: text))
    (sameLine : '\n' ∉ text) (read : layout.read (c :: (text ++ after)) = .ok span) :
    ∃ (layout' : Layout) (span' : Span),
      layout'.InCode false ((c :: text).getLast?.any Text.isWordChar) ∧
      layout'.read after = .ok span' ∧
      span.chars = spaceBefore gap afterWord c ++ c :: (text ++ span'.chars) := by
  rcases cases_of_lexeme lexeme with ⟨isMark, contents, closes⟩ | verbatim
  · obtain ⟨layout₁, span₁, inside, gap₁, afterWord₁, read₁, given₁⟩ := read_quote inCode isMark read
    obtain ⟨layout', span', inCode', read', given'⟩ :=
      read_literal isMark inside closes sameLine read₁
    have noWord := isWordChar_of_isMark isMark
    refine ⟨layout', span', ?_, read', ?_⟩
    · rw [List.getLast?_cons, getLast?_of_scanString isMark closes, Option.getD_some,
        Option.any_some, noWord]
      rwa [gap₁, afterWord₁] at inCode'
    · rw [given₁, given', spaceBefore, noWord, Bool.and_false, Bool.false_and]
      rfl
  · exact read_run inCode verbatim read

-- =========================================================== reading blanks

/-- What is given off behind dropped blanks is given off for what follows
them. -/
theorem read_spaces {blanks : List Char} (inCode : layout.InCode gap afterWord)
    (spaces : ∀ b ∈ blanks, isSpace b = true) (read : layout.read (blanks ++ rest) = .ok span) :
    ∃ layout' : Layout, layout'.InCode (gap || blanks.any (· != '\r')) afterWord ∧
      layout'.read rest = .ok span := by
  induction blanks generalizing layout gap with
  | nil => exact ⟨layout, by rwa [List.any_nil, Bool.or_false], read⟩
  | cons b blanks ih =>
    obtain ⟨first, others⟩ := List.forall_mem_cons.1 spaces
    obtain ⟨layout₁, inCode₁, read₁⟩ := read_space inCode first read
    obtain ⟨layout', inCode', read'⟩ := ih inCode₁ others read₁
    exact ⟨layout', by rwa [List.any_cons, ← Bool.or_assoc], read'⟩

theorem span_of_read_nil (read : layout.read [] = .ok span) : span = [] := by
  rw [Layout.read] at read
  cases finished : layout.finish with
  | error fault =>
    rw [finished] at read
    cases read
  | ok _ =>
    rw [finished] at read
    cases read
    rfl

/-- Behind dropped blanks stands the character that follows them. -/
theorem read_front (inCode : layout.InCode gap afterWord) (own : isVerbatim c = true ∨ Quote.isMark c = true)
    (read : layout.read (c :: rest) = .ok span) :
    ∃ (layout' : Layout) (span' : Span), layout'.read rest = .ok span' ∧
      span.chars = spaceBefore gap afterWord c ++ c :: span'.chars ∧
      (isVerbatim c = true → layout'.InCode false (Text.isWordChar c)) := by
  rcases own with verbatim | isMark
  · obtain ⟨layout', span', inCode', read', given⟩ := read_verbatim inCode verbatim read
    exact ⟨layout', span', read', given, fun _ => inCode'⟩
  · obtain ⟨layout', span', -, -, -, read', given⟩ := read_quote inCode isMark read
    refine ⟨layout', span', read', ?_, fun verbatim => ?_⟩
    · rw [given, spaceBefore, isWordChar_of_isMark isMark, Bool.and_false, Bool.false_and]
      rfl
    · rw [(isVerbatim_iff.1 verbatim).2.2.2] at isMark
      cases isMark

-- ============================================================= tokens apart

namespace Token

variable {token : Token} {text after lexeme : List Char}

/-- What a text of tokens goes on with is given off where it stands. -/
theorem Apart.front (apart : Apart (c :: rest)) (sameLine : c ≠ '\n')
    (noSpace : isSpace c = false) : isVerbatim c = true ∨ Quote.isMark c = true := by
  by_cases isMark : Quote.isMark c = true
  · exact .inr isMark
  · have noComment : c ≠ '#' := by
      rintro rfl
      cases apart with
      | blank blank => cases blank
      | token _ one =>
        obtain ⟨text', -, lexeme, -⟩ := exists_lexeme one
        rcases cases_of_lexeme lexeme with ⟨isMark, -⟩ | verbatim
        · cases isMark
        · cases verbatim '#' List.mem_cons_self
    exact .inl (isVerbatim_iff.2 ⟨sameLine, noSpace, noComment, eq_false_of_ne_true isMark⟩)

/-- Blanks in front of a text do not matter. -/
theorem Apart.of_blanks {blanks : List Char} (blank : ∀ b ∈ blanks, Text.isBlank b = true)
    (apart : Apart (blanks ++ rest)) : Apart rest := by
  induction blanks with
  | nil => exact apart
  | cons b blanks ih =>
    obtain ⟨first, others⟩ := List.forall_mem_cons.1 blank
    generalize eq : b :: blanks ++ rest = whole at apart
    cases apart with
    | nil => cases eq
    | blank _ apart =>
      cases eq
      exact ih others apart
    | token solid =>
      rw [← (List.cons.inj eq).1, first] at solid
      cases solid

/-- The token at the front of a text stays apart, and so do those behind it. -/
theorem Apart.first (apart : Apart (c :: (text ++ after)))
    (solid : Text.isBlank c = false) (one : scanOne c (text ++ after) = .ok (token, after)) :
    token.staysApart (c :: text) after = true ∧ Apart after := by
  generalize eq : c :: (text ++ after) = whole at apart
  cases apart with
  | nil => cases eq
  | blank blank =>
    cases eq
    rw [blank] at solid
    cases solid
  | @token c' text' after' token' _ one' stays behind =>
    obtain ⟨rfl, same⟩ := List.cons.inj eq
    rw [← same, one] at one'
    cases one'
    rw [List.append_cancel_right same]
    exact ⟨stays, behind⟩

-- =================================================================== fronts

/-- Dropped blanks and what follows them. -/
theorem exists_blanks (text : List Char) :
    ∃ blanks rest, text = blanks ++ rest ∧ text.takeWhile isSpace = blanks ∧
      text.dropWhile isSpace = rest ∧ (∀ b ∈ blanks, isSpace b = true) ∧
      ∀ d ∈ rest.head?, isSpace d = false := by
  refine ⟨_, _, List.takeWhile_append_dropWhile.symm, rfl, rfl,
    List.all_eq_true.1 List.all_takeWhile, fun d mem => ?_⟩
  have ends := any_head?_dropWhile isSpace text
  rwa [mem] at ends

/-- What is given off behind a lexeme: nothing, if nothing is left, and else,
perhaps behind a space, the character behind the dropped blanks. -/
theorem Apart.read_behind (apart : Apart text) (sameLine : '\n' ∉ text)
    (inCode : layout.InCode false afterWord) (read : layout.read text = .ok span) :
    (text.dropWhile isSpace = [] ∧ span.chars = []) ∨
      ∃ c rest, text.dropWhile isSpace = c :: rest ∧ Apart (c :: rest) ∧ '\n' ∉ rest ∧
        ∃ (layout' : Layout) (span' : Span), layout'.read rest = .ok span' ∧
          (isVerbatim c = true → layout'.InCode false (Text.isWordChar c)) ∧
          span.chars = spaceBefore ((text.takeWhile isSpace).any (· != '\r')) afterWord c
            ++ c :: span'.chars := by
  obtain ⟨blanks, rest, rfl, taken, left, spaces, solid⟩ := exists_blanks text
  rw [taken, left]
  rw [List.mem_append, not_or] at sameLine
  obtain ⟨layout₁, inCode₁, read₁⟩ := read_spaces inCode spaces read
  have apart := apart.of_blanks fun b mem => isBlank_of_isSpace (spaces b mem)
  cases rest with
  | nil =>
    rw [span_of_read_nil read₁]
    exact .inl ⟨rfl, rfl⟩
  | cons c rest =>
    rw [List.mem_cons, not_or] at sameLine
    obtain ⟨layout', span', read', given, inCode'⟩ :=
      read_front inCode₁ (apart.front (Ne.symm sameLine.2.1) (solid c rfl)) read₁
    exact .inr ⟨c, rest, rfl, apart, sameLine.2.2, layout', span', read', inCode', given⟩

/-- A point is given off in front of a digit only if it was before. -/
theorem Apart.digit_of_read (apart : Apart ('.' :: rest)) (sameLine : '\n' ∉ rest)
    (inCode : layout.InCode false false) (read : layout.read rest = .ok span)
    (digit : span.chars.head?.any Char.isDigit = true) : rest.head?.any Char.isDigit = true := by
  by_contra noDigit
  rw [Bool.not_eq_true] at noDigit
  -- otherwise the point is a token, and stays apart from the digit
  have ends : (mark .dot).runsOn ['.'] rest = false := by
    cases rest with
    | nil => rfl
    | cons d rest => simpa [runsOn, longMark?] using noDigit
  have one : scanOne '.' ([] ++ rest) = .ok (mark .dot, rest) := scanOne_short rfl ends
  have apart : Apart ('.' :: ([] ++ rest)) := apart
  obtain ⟨stays, behind⟩ := apart.first (by decide) one
  rcases behind.read_behind sameLine inCode read with ⟨-, given⟩ |
    ⟨c, next, left, -, -, layout', span', -, -, given⟩
  · rw [given] at digit
    cases digit
  · rw [given, spaceBefore, Bool.and_false, if_neg Bool.false_ne_true] at digit
    replace digit : c.isDigit = true := digit
    have noWord : ['.'].getLast?.any Text.isWordChar = false := by decide
    rw [staysApart, left, keepsSpace, noWord, Bool.and_false, Bool.or_false] at stays
    have runs : (mark .dot).runsOn ['.'] (c :: next) = true := by simp [runsOn, digit]
    rw [runs, Bool.not_true, Bool.or_false, List.isEmpty_iff] at stays
    have whole := List.takeWhile_append_dropWhile (p := isSpace) (l := rest)
    rw [stays, left, List.nil_append] at whole
    rw [← whole, List.head?_cons, Option.any_some, digit] at noDigit
    cases noDigit

/-- A lexeme that stays apart ends in the new text where it ended before. -/
theorem runsOn_read (ends : token.runsOn (c :: text) after = false)
    (stays : token.staysApart (c :: text) after = true) (apart : Apart after)
    (sameLine : '\n' ∉ after)
    (inCode : layout.InCode false ((c :: text).getLast?.any Text.isWordChar))
    (read : layout.read after = .ok span) : token.runsOn (c :: text) span.chars = false := by
  rcases apart.read_behind sameLine inCode read with ⟨-, given⟩ |
    ⟨d, next, left, apart', sameLine', layout', span', read', inCode', given⟩
  · rw [given]
    exact runsOn_nil
  · rw [given]
    by_cases kept : keepsSpace (c :: text) (after.takeWhile isSpace) (d :: next) = true
    · have space : spaceBefore ((after.takeWhile isSpace).any (· != '\r'))
          ((c :: text).getLast?.any Text.isWordChar) d = [' '] := if_pos kept
      rw [space]
      exact runsOn_blank (by decide)
    · have noSpace : spaceBefore ((after.takeWhile isSpace).any (· != '\r'))
          ((c :: text).getLast?.any Text.isWordChar) d = [] := if_neg kept
      rw [noSpace, List.nil_append]
      have endsNow : token.runsOn (c :: text) (d :: next) = false := by
        rw [staysApart, left, Bool.eq_false_iff.2 kept, Bool.or_false, Bool.or_eq_true,
          List.isEmpty_iff, Bool.not_eq_true'] at stays
        rcases stays with none | apart
        · have whole := List.takeWhile_append_dropWhile (p := isSpace) (l := after)
          rw [none, left, List.nil_append] at whole
          rwa [whole]
        · exact apart
      refine runsOn_of_front endsNow ?_
      rintro rfl digit
      exact apart'.digit_of_read sameLine' (inCode' (by decide)) read' digit

end Token

-- ================================================================= scanning

/-- Reading a text whose tokens stay apart changes none of them. -/
theorem scan_read {text : List Char} (apart : Token.Apart text)
    (inCode : layout.InCode gap afterWord) (sameLine : '\n' ∉ text)
    (read : layout.read text = .ok span) : Token.scan span.chars = Token.scan text := by
  induction apart generalizing layout gap afterWord span with
  | nil =>
    rw [span_of_read_nil read]
    rfl
  | @blank c rest blank apart ih =>
    rw [List.mem_cons, not_or] at sameLine
    have skipped : ∀ rest, Token.scan (c :: rest) = Token.scan rest := by
      intro rest
      have skips : Token.scan ([c] ++ rest) = Token.scan rest :=
        Token.scan_blanks (List.forall_mem_singleton.2 blank)
      exact skips
    by_cases space : isSpace c = true
    · obtain ⟨layout', inCode', read'⟩ := read_space inCode space read
      rw [skipped, ih inCode' sameLine.2 read']
    · have verbatim : isVerbatim c = true := by
        rcases (Token.Apart.blank blank apart).front (Ne.symm sameLine.1)
          (eq_false_of_ne_true space) with verbatim | isMark
        · exact verbatim
        · rcases Token.eq_of_isMark isMark with rfl | rfl <;> cases blank
      obtain ⟨layout', span', inCode', read', given⟩ := read_verbatim inCode verbatim read
      rw [given, spaceBefore, Text.isWordChar_of_isBlank blank, Bool.and_false, Bool.false_and,
        skipped, ← ih inCode' sameLine.2 read']
      exact skipped span'.chars
  | @token c text after token solid one stays apart ih =>
    obtain ⟨text', eq, lexeme, ends⟩ := Token.exists_lexeme one
    cases List.append_cancel_right eq
    rw [List.mem_cons, List.mem_append, not_or, not_or] at sameLine
    obtain ⟨layout', span', inCode', read', given⟩ := read_lexeme inCode lexeme sameLine.2.1 read
    have endsNow := Token.runsOn_read ends stays apart sameLine.2.2 inCode' read'
    rw [given, Token.scan_blanks fun d mem => isBlank_of_spaceBefore mem,
      Token.scan_cons solid ((Token.scanOne_lexeme_iff lexeme).2 endsNow), Token.scan_cons solid one,
      ih inCode' sameLine.2.2 read']

/-- Reading a source of one line keeps its tokens, if each of them stays apart
from what follows it. -/
theorem scan_normalize (source : String) {span : Span} {tokens : List Token}
    (sameLine : '\n' ∉ source.toList) (normal : Span.normalize source = .ok span)
    (scanned : Token.scan source.toList = .ok tokens) (apart : Token.Apart source.toList) :
    Token.scan span.text.toList = .ok tokens := by
  have start : Layout.start.InCode false false := ⟨rfl, rfl, rfl⟩
  rw [Span.text, String.toList_ofList, scan_read apart start sameLine normal, scanned]

theorem scan_normalize_return : Token.scan (Span.ofString "return a-' b';" 1).text.toList
    = .ok [.keyword .return, .name "a", .mark .minus, .string " b", .mark .semicolon] := by
  refine scan_normalize "return  a - ' b' ;" (by decide) (by rfl)
    (by decide +kernel) ?_
  refine @Token.Apart.token _ "eturn".toList _ _ (by decide) rfl (by decide) (.blank rfl (.blank rfl ?_))
  refine @Token.Apart.token _ [] _ _ (by decide) rfl (by decide) (.blank rfl ?_)
  refine @Token.Apart.token _ [] _ _ (by decide) rfl (by decide) (.blank rfl ?_)
  refine @Token.Apart.token _ "' b'".toList.tail _ _ (by decide) rfl (by decide) (.blank rfl ?_)
  exact @Token.Apart.token _ [] _ _ (by decide) rfl (by decide) .nil

/-- Not every source keeps its tokens: two minuses between blanks become one
mark. -/
theorem minuses_run_together : ¬∀ (source : String) (span : Span) (tokens : List Token),
    '\n' ∉ source.toList → '#' ∉ source.toList → Span.normalize source = .ok span →
      Token.scan source.toList = .ok tokens → Token.scan span.text.toList = .ok tokens := by
  intro kept
  have scanned := kept "a - -b" (Span.ofString "a--b" 1)
    [.name "a", .mark .minus, .mark .minus, .name "b"] (by decide) (by decide) (by rfl)
    (by decide +kernel)
  revert scanned
  decide +kernel

end RoutineScript
