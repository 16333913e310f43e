/-
All scans agree on where literals are.

Between a source and the tokens of its statements many scans go over the same
characters. The one that normalizes reads characters of the source; those that
cut statements apart walk over bytes of pieces of the text, from offsets that
other walks have found; terminators are skipped and words compared with no
regard to quotes; and the scanner takes literals whole. Each has its own idea
of what a literal is, and none knows what another has seen.

Still a delimiter or a terminator counts as structure for one of them exactly
when it does for every other that comes to it, and no piece that is made into
tokens has an end of a literal cut off (`Span.scans_agree`).

# The argument

`Span.Stands` lists the places at which the parser can be in a text, each with
the piece of the text that it looks at from there, and `Span.Scanned` the scans
it makes there. A scan begins outside of literals. So it agrees with the scan
of the whole text when no literal is open in front of the piece, and none is
left open in the piece when the same holds behind it (`Span.CutOut`). Both are
kept along every rule of `Span.Stands`, because every cut is made outside of
literals. What a scan sees at a character is then a fact about the piece alone
(`Span.sees_iff`), and what the layout knew when it gave the character off is
the same fact about the whole text.
-/
import RoutineScript.Proofs.Offsets.Passing
import RoutineScript.Proofs.Source.Lexing
import RoutineScript.Proofs.Source.Preorder

namespace RoutineScript

namespace Span

-- =================================================================== places

/-- Where the parser can be: in front of the statements of a level, of one
statement, of the brace of a block, of what follows the brace that closes, or
of a block or a further part of one that is read. -/
inductive Stage where
  | statements
  | statement
  | brace
  | behind
  | block

/-- The parser comes to be at a stage, with a front of the text behind it and a
piece of the text before it. -/
inductive Stands (whole : Span) : Stage → Span → Span → Prop where
  | program : Stands whole .statements [] whole
  | statement {front text : Span} :
      Stands whole .statements front text →
        Stands whole .statement (front ++ text.takeWhile (·.val == ';')) text.skipTerminators
  | rest {front text : Span} :
      Stands whole .statement front text →
        Stands whole .statements (front ++ (firstStatement text).span) (firstStatement text).rest
  | brace {front text before rest : Span} {opener : Located Char} :
      Stands whole .statement front text →
      text.splitBoundary = some (before, opener :: rest) → opener.val = '{' →
        Stands whole .brace (front ++ before) (opener :: rest)
  | behind {front text body closed rest : Span} :
      Stands whole .brace front text →
      text.enclosed? = some (body, rest) → text = closed ++ rest →
        Stands whole .behind (front ++ closed) rest
  | part {front text before rest : Span} :
      Stands whole .behind front text →
      text.skipTerminators.brace? = some rest → text = before ++ rest →
        Stands whole .brace (front ++ before) rest
  | block {front text : Span} :
      Stands whole .statement front text → (firstStatement text).form = .block →
        Stands whole .block front (firstStatement text).span
  | body {front text header body rest : Span} {opener closer : Located Char} :
      Stands whole .block front text →
      text.splitUnquoted '{' = some (header, opener :: (body ++ closer :: rest)) →
      enclosed? (opener :: (body ++ closer :: rest)) = some (body, rest) →
        Stands whole .statements (front ++ header ++ [opener]) body
  | next {front text header body rest : Span} {opener closer : Located Char} :
      Stands whole .block front text →
      text.splitUnquoted '{' = some (header, opener :: (body ++ closer :: rest)) →
      enclosed? (opener :: (body ++ closer :: rest)) = some (body, rest) →
        Stands whole .block (front ++ header ++ opener :: (body ++ [closer]) ++
          rest.takeWhile (·.val == ';')) rest.skipTerminators

/-- The words that a further part of a block begins with. -/
def partWords : List String :=
  ["elseif(", "else\x7b", "catch\x7b"]

/-- The scans of pieces of a text: skipping terminators, trimming them at both
ends, comparing the beginning with the words of further parts, walking over
the bytes with a rule, and taking tokens. -/
inductive Scan where
  | skip
  | trim
  | words
  | walk (rule : ByOffset.Rule)
  | tokens

/-- The scans that the parser can make of pieces of a text, when the text is
read as a program or as an expression. -/
inductive Scanned (whole : Span) : Scan → Span → Span → Prop where
  | statements {front text : Span} : Stands whole .statements front text →
      Scanned whole .skip front text
  | boundary {front text : Span} : Stands whole .statement front text →
      Scanned whole (.walk ByOffset.boundary) front text
  | instruction {front text : Span} : Stands whole .statement front text →
      (firstStatement text).form = .instruction →
        Scanned whole .tokens front (firstStatement text).span
  | closing {front text : Span} : Stands whole .brace front text →
      Scanned whole (.walk (ByOffset.closing '{'.toUInt8 '}'.toUInt8)) front text
  | behind {front text : Span} : Stands whole .behind front text → Scanned whole .skip front text
  | words {front text : Span} : Stands whole .behind front text →
      Scanned whole .words (front ++ text.takeWhile (·.val == ';')) text.skipTerminators
  | waiting {front text : Span} : Stands whole .behind front text →
      text.skipTerminators.startsWith "elseif(" = true →
        Scanned whole (.walk (ByOffset.target '{'.toUInt8))
          (front ++ text.takeWhile (·.val == ';')) text.skipTerminators
  | opening {front text : Span} : Stands whole .block front text →
      Scanned whole (.walk (ByOffset.target '{'.toUInt8)) front text
  | header {front text header braced : Span} : Stands whole .block front text →
      text.splitUnquoted '{' = some (header, braced) → Scanned whole .tokens front header
  | body {front text header braced : Span} : Stands whole .block front text →
      text.splitUnquoted '{' = some (header, braced) →
        Scanned whole (.walk (ByOffset.closing '{'.toUInt8 '}'.toUInt8)) (front ++ header) braced
  | after {front text header body rest : Span} {opener closer : Located Char} :
      Stands whole .block front text →
      text.splitUnquoted '{' = some (header, opener :: (body ++ closer :: rest)) →
      enclosed? (opener :: (body ++ closer :: rest)) = some (body, rest) →
        Scanned whole .skip (front ++ header ++ opener :: (body ++ [closer])) rest
  | next {front text : Span} : Stands whole .block front text → Scanned whole .words front text
  | trim : Scanned whole .trim [] whole
  | expression : Scanned whole .tokens (whole.takeWhile (·.val == ';')) whole.trimTerminators

/-- A scan of a text comes to the character behind a front of the text, and
treats it as structure or not. Skipping and trimming take any terminator for
one, and so do words with their last character. A walk hands a byte to its rule
when it knows of no quote. The scanner begins a token at the character, or
has it within the token of a literal. -/
inductive Sees : Scan → Span → Span → Bool → Prop where
  | skip {before rest : Span} {c : Located Char} : (∀ d ∈ before, d.val = ';') → c.val = ';' →
      Sees .skip (before ++ c :: rest) before true
  | first {before rest : Span} {c : Located Char} : (∀ d ∈ before, d.val = ';') → c.val = ';' →
      Sees .trim (before ++ c :: rest) before true
  | last {before rest : Span} : (∀ d ∈ rest, d.val = ';') → Sees .trim (before ++ rest) before true
  | words {text before : Span} {word : String} : word ∈ partWords → text.startsWith word = true →
      before <+: text → before.length < word.length → Sees .words text before true
  | walk {rule : ByOffset.Rule} {walker : ByOffset.Walker} {before rest : Span} :
      ByOffset.Walker.start.after rule before.utf8 = some walker →
        Sees (.walk rule) (before ++ rest) before walker.quote.isNone
  | token {text before : Span} {rest : List Char} : Token.Comes text.chars before.chars rest →
      Sees .tokens text before true
  | within {text before : Span} {front more behind rest : List Char} {c d : Char} {token : Token} :
      Token.Comes text.chars front (c :: (more ++ d :: behind ++ rest)) →
      Token.scanOne c (more ++ d :: behind ++ rest) = .ok (token, rest) →
      before.chars = front ++ c :: more → Sees .tokens text before false

-- ================================================================ invariant

/-- A piece of a text that begins and ends where no literal is open. -/
structure CutOut (whole front text : Span) : Prop where
  within : ∃ behind, whole = front ++ (text ++ behind)
  front : front.Settled
  text : text.Settled

variable {whole front text before behind body : Span} {stage : Stage} {scan : Scan}

theorem settled_takeWhile (text : Span) : Settled (text.takeWhile (·.val == ';')) :=
  settled_of_plain fun c mem => by
    have terminator := List.mem_takeWhile_imp mem
    rw [beq_iff_eq.1 terminator]
    rfl

/-- A piece of a piece. -/
theorem CutOut.inner {rest : Span} (cutOut : CutOut whole front text)
    (same : text = before ++ (rest ++ behind)) (settled : before.Settled)
    (settled' : rest.Settled) : CutOut whole (front ++ before) rest where
  within := by
    obtain ⟨last, isWhole⟩ := cutOut.within
    exact ⟨behind ++ last, by simp [isWhole, same]⟩
  front := cutOut.front.append settled
  text := settled'

/-- What is cut off a piece, and what is left of it. -/
theorem CutOut.left {rest : Span} (cutOut : CutOut whole front text) (same : text = before ++ rest)
    (settled : before.Settled) : CutOut whole front before := by
  have whole : text = [] ++ (before ++ rest) := same
  have cut := cutOut.inner whole rfl settled
  rwa [List.append_nil] at cut

theorem CutOut.right {rest : Span} (cutOut : CutOut whole front text) (same : text = before ++ rest)
    (settled : before.Settled) : CutOut whole (front ++ before) rest := by
  have whole : text = before ++ (rest ++ []) := by rw [same, List.append_nil]
  exact cutOut.inner whole settled ((same ▸ cutOut.text).right settled)

theorem CutOut.skip (cutOut : CutOut whole front text) :
    CutOut whole (front ++ text.takeWhile (·.val == ';')) text.skipTerminators :=
  cutOut.right (List.takeWhile_append_dropWhile).symm (settled_takeWhile text)

-- -------------------------------------------------------------------- cuts

theorem settled_enclosed {opener closer : Located Char} (opens : isDelimiter opener.val = true)
    (closes : isDelimiter closer.val = true) (settled : body.Settled) :
    Settled (opener :: (body ++ [closer])) :=
  (settled_of_delimiter opens).append (settled.append (settled_of_delimiter closes))

/-- A part of a block begins with a word up to a brace. -/
theorem splitUnquoted_of_brace? {rest : Span} (braced : text.brace? = some rest) :
    ∃ before, text.splitUnquoted '{' = some (before, rest) := by
  rw [brace?] at braced
  split at braced
  · obtain ⟨⟨before, rest'⟩, cut, rfl⟩ := Option.map_eq_some_iff.1 braced
    exact ⟨before, cut⟩
  · split at braced
    · next begins =>
      cases braced
      obtain ⟨word, cut, -⟩ := ByOffset.exists_of_else begins
      exact ⟨word, cut⟩
    · split at braced
      · next begins =>
        cases braced
        obtain ⟨word, cut, -⟩ := ByOffset.exists_of_catch begins
        exact ⟨word, cut⟩
      · cases braced

/-- What leads up to the brace of a part is settled. -/
theorem settled_of_brace? {rest : Span} (braced : text.skipTerminators.brace? = some rest)
    (same : text = before ++ rest) : before.Settled := by
  obtain ⟨word, cut⟩ := splitUnquoted_of_brace? braced
  have part := append_of_splitWhere _ _ cut
  have skipped : text.takeWhile (·.val == ';') ++ text.skipTerminators = text :=
    List.takeWhile_append_dropWhile
  have isWhole : before ++ rest = text.takeWhile (·.val == ';') ++ word ++ rest := by
    rw [← same, List.append_assoc, part, skipped]
  rw [List.append_cancel_right isWhole]
  exact (settled_takeWhile text).append (settled_of_splitUnquoted cut)

theorem settled_of_braced {opener closer : Located Char} {rest : Span}
    (enclosed : enclosed? (opener :: (body ++ closer :: rest)) = some (body, rest)) :
    isDelimiter opener.val = true ∧ isDelimiter closer.val = true ∧ body.Settled := by
  obtain ⟨opener', closer', same, opens, closes, settled⟩ := exists_settled_of_enclosed? enclosed
  obtain ⟨rfl, same'⟩ := List.cons.inj same
  obtain ⟨rfl, -⟩ := List.cons.inj (List.append_cancel_left same')
  exact ⟨opens, closes, settled⟩

/-- What leads up to the end of a closed brace is settled. -/
theorem settled_of_enclosed? {closed rest : Span} (enclosed : text.enclosed? = some (body, rest))
    (same : text = closed ++ rest) : closed.Settled := by
  obtain ⟨opener, closer, whole, opens, closes, settled⟩ := exists_settled_of_enclosed? enclosed
  have isWhole : closed ++ rest = opener :: (body ++ [closer]) ++ rest := by
    rw [← same, whole]
    simp
  rw [List.append_cancel_right isWhole]
  exact settled_enclosed opens closes settled

theorem exists_settled_of_continuation? {rest : Span} (goesOn : text.continuation? = some rest) :
    ∃ front : Span, text = front ++ rest ∧ front.Settled := by
  rw [continuation?_eq] at goesOn
  obtain ⟨braced, isBraced, enclosed⟩ := Option.bind_eq_some_iff.1 goesOn
  obtain ⟨⟨body, rest'⟩, enclosed', rfl⟩ := Option.map_eq_some_iff.1 enclosed
  obtain ⟨word, cut⟩ := splitUnquoted_of_brace? isBraced
  obtain ⟨closed, isClosed⟩ := suffix_of_enclosed? enclosed'
  have skipped : text.takeWhile (·.val == ';') ++ text.skipTerminators = text :=
    List.takeWhile_append_dropWhile
  refine ⟨text.takeWhile (·.val == ';') ++ word ++ closed, ?_,
    ((settled_takeWhile text).append (settled_of_splitUnquoted cut)).append
      (settled_of_enclosed? enclosed' isClosed.symm)⟩
  dsimp only
  rw [List.append_assoc, List.append_assoc, isClosed, append_of_splitWhere _ _ cut, skipped]

theorem exists_settled_of_afterContinuations (text : Span) :
    ∃ front : Span, text = front ++ text.afterContinuations ∧ front.Settled :=
  exists_front_of_afterContinuations (P := Settled) rfl Settled.append
    exists_settled_of_continuation? text

/-- A statement ends where no literal is open. -/
theorem settled_firstStatement (settled : text.Settled) : (firstStatement text).span.Settled := by
  rw [firstStatement]
  split
  · exact settled
  · next before boundary cut =>
    have own := settled_of_splitBoundary cut
    split
    · split
      · exact settled
      · next body after enclosed =>
        obtain ⟨closed, isClosed⟩ := suffix_of_enclosed? enclosed
        obtain ⟨parts, isAfter, settled'⟩ := exists_settled_of_afterContinuations after
        have same : text = before ++ closed ++ parts ++ after.afterContinuations := by
          rw [List.append_assoc, ← isAfter, List.append_assoc, isClosed,
            append_of_splitWhere _ _ cut]
        have block : upTo text after.afterContinuations = before ++ closed ++ parts := by
          rw [same, upTo_append]
        dsimp only
        rw [block]
        exact (own.append (settled_of_enclosed? enclosed isClosed.symm)).append settled'
    · exact own

-- ------------------------------------------------------------------ places

/-- **Wherever the parser comes to be, no literal is open**, neither in front of
the piece of the text that it looks at nor at the end of it. -/
theorem Stands.cutOut (settled : whole.Settled) (stands : Stands whole stage front text) :
    CutOut whole front text := by
  induction stands with
  | program => exact ⟨⟨[], by simp⟩, rfl, settled⟩
  | statement _ ih => exact ih.skip
  | rest _ ih => exact ih.right (append_firstStatement _).symm (settled_firstStatement ih.text)
  | brace _ cut _ ih =>
    exact ih.right (append_of_splitWhere _ _ cut).symm (settled_of_splitBoundary cut)
  | behind _ enclosed same ih => exact ih.right same (settled_of_enclosed? enclosed same)
  | part _ braced same ih => exact ih.right same (settled_of_brace? braced same)
  | block _ _ ih => exact ih.left (append_firstStatement _).symm (settled_firstStatement ih.text)
  | body _ cut enclosed ih =>
    have braced := ih.right (append_of_splitWhere _ _ cut).symm (settled_of_splitUnquoted cut)
    obtain ⟨opens, -, settled⟩ := settled_of_braced enclosed
    exact braced.inner List.singleton_append.symm (settled_of_delimiter opens) settled
  | next _ cut enclosed ih =>
    have braced := ih.right (append_of_splitWhere _ _ cut).symm (settled_of_splitUnquoted cut)
    obtain ⟨opens, closes, settled⟩ := settled_of_braced enclosed
    exact (braced.right (by simp) (settled_enclosed opens closes settled)).skip

/-- Trimming leaves terminators behind. -/
theorem exists_terminators_of_trim (text : Span) :
    ∃ behind, text.skipTerminators = text.trimTerminators ++ behind ∧ ∀ c ∈ behind, c.val = ';' := by
  refine ⟨(text.skipTerminators.reverse.takeWhile (·.val == ';')).reverse, ?_, fun c mem => ?_⟩
  · rw [trimTerminators, ← List.reverse_append]
    conv_lhs => rw [← List.reverse_reverse text.skipTerminators]
    exact congrArg List.reverse List.takeWhile_append_dropWhile.symm
  · have terminator := List.mem_takeWhile_imp (List.mem_reverse.1 mem)
    exact beq_iff_eq.1 terminator

theorem Scanned.cutOut (settled : whole.Settled) (scanned : Scanned whole scan front text) :
    CutOut whole front text := by
  cases scanned with
  | statements stands | boundary stands | closing stands | behind stands | opening stands
  | next stands => exact stands.cutOut settled
  | instruction stands _ =>
    have cutOut := stands.cutOut settled
    exact cutOut.left (append_firstStatement _).symm (settled_firstStatement cutOut.text)
  | words stands | waiting stands _ => exact (stands.cutOut settled).skip
  | header stands cut =>
    exact (stands.cutOut settled).left (append_of_splitWhere _ _ cut).symm
      (settled_of_splitUnquoted cut)
  | body stands cut =>
    exact (stands.cutOut settled).right (append_of_splitWhere _ _ cut).symm
      (settled_of_splitUnquoted cut)
  | after stands cut enclosed =>
    have braced := (stands.cutOut settled).right (append_of_splitWhere _ _ cut).symm
      (settled_of_splitUnquoted cut)
    obtain ⟨opens, closes, settled'⟩ := settled_of_braced enclosed
    exact braced.right (by simp) (settled_enclosed opens closes settled')
  | trim => exact Stands.program.cutOut settled
  | expression =>
    obtain ⟨behind, same, terminators⟩ := exists_terminators_of_trim whole
    have skipped := (Stands.program.cutOut settled).skip
    have settled' := settled_of_terminators (same ▸ skipped.text) terminators
    exact skipped.left same settled'

-- ================================================================ agreement

theorem settled_of_words {word : String} (isWord : word ∈ partWords)
    (begins : text.startsWith word = true) (isFront : before <+: text)
    (shorter : before.length < word.length) : before.Settled := by
  have noMarks : partWords.all (fun word => word.toList.all fun c => !Quote.isMark c) = true := by
    decide
  have isPrefix : before.chars <+: word.toList := by
    refine List.prefix_of_prefix_length_le (isFront.map Located.val)
      (List.isPrefixOf_iff_prefix.1 begins) ?_
    rw [chars, List.length_map, String.length_toList]
    exact Nat.le_of_lt shorter
  refine Quote.past_outside fun c mem => ?_
  have noMark := List.all_eq_true.1 (List.all_eq_true.1 noMarks word isWord) c (isPrefix.subset mem)
  simpa using noMark

/-- **What a scan sees at a character is a fact about the piece alone**: no literal
is open in front of the character, read from the beginning of the piece. -/
theorem sees_eq {c : Located Char} {rest : Span} {sees : Bool} (settled : text.Settled)
    (same : text = before ++ c :: rest) (structural : isStructure c.val = true)
    (saw : Sees scan text before sees) :
    sees = (Quote.outside.past before.chars == .outside) := by
  have terminators : ∀ {text : Span}, (∀ d ∈ text, d.val = ';') → text.Settled := by
    intro text all
    refine settled_of_plain fun d mem => ?_
    rw [all d mem]
    rfl
  cases saw with
  | skip all | first all => rw [terminators all, beq_self_eq_true]
  | last all => rw [settled_of_terminators settled all, beq_self_eq_true]
  | words isWord begins isFront shorter =>
    rw [settled_of_words isWord begins isFront shorter, beq_self_eq_true]
  | walk reaches =>
    have stands := ByOffset.Walker.At.after (q := .outside) ⟨0, rfl⟩ .outside reaches
    rw [Bool.eq_iff_iff, Option.isNone_iff_eq_none, beq_iff_eq, stands.quote_eq_none_iff]
  | token comes => rw [comes.settled, beq_self_eq_true]
  | @within _ _ front more behind rest' e d token comes one isBefore =>
    have isOwn : c.val = d ∧ rest.chars = behind ++ rest' := by
      have whole := comes.eq_append
      rw [same, chars_append, isBefore, chars_cons] at whole
      simpa using whole
    obtain ⟨-, begins⟩ := Token.quotes_of_scanOne one
    have hidden := mt (begins (e :: more) d behind rfl (isOwn.1 ▸ structural)).1 (List.cons_ne_nil e more)
    rw [isBefore, Quote.past_append, comes.settled]
    exact (beq_eq_false_iff_ne.2 hidden).symm

/-- What the parser makes into tokens: instructions, the headers of blocks and
of their further parts, at every level, and an expression. -/
inductive Tokenized (whole : Span) : Span → Prop where
  | instruction {level : Span} {segment : Segment} : Stmt.Level whole level →
      segment ∈ level.segments 0 → segment.form = .instruction → Tokenized whole segment.span
  | header {level header braced : Span} {segment : Segment} : Stmt.Level whole level →
      segment ∈ level.segments 0 → segment.form = .block →
      segment.span.splitUnquoted '{' = some (header, braced) → Tokenized whole header
  | part {level header braced : Span} {segment : Segment} {cut : Stmt.Cut} :
      Stmt.Level whole level → segment ∈ level.segments 0 → segment.form = .block →
      Stmt.Part segment.span cut → cut.rest.splitUnquoted '{' = some (header, braced) →
        Tokenized whole header
  | expression : Tokenized whole whole.trimTerminators

theorem Stands.of_mem_segments {segment : Segment} {offset : Nat}
    (stands : Stands whole .statements front text) (mem : segment ∈ text.segments offset) :
    ∃ front' text', Stands whole .statement front' text' ∧
      segment.form = (firstStatement text').form ∧ segment.span = (firstStatement text').span := by
  fun_induction segments offset text generalizing front with
  | case1 => cases mem
  | case2 offset text c tail skipped first begins =>
    rename_i ih
    have here := stands.statement
    rw [skipped] at here
    rcases List.mem_cons.1 mem with rfl | mem
    · exact ⟨_, _, here, rfl, rfl⟩
    · exact ih here.rest mem

theorem Stands.of_cut {cut : Stmt.Cut} (stands : Stands whole .block front text)
    (isCut : Stmt.cut? text = some cut) :
    ∃ front' front'', Stands whole .statements front' cut.body ∧
      Stands whole .block front'' cut.rest := by
  obtain ⟨header, braced, body, after, split, enclosed, rfl⟩ := Stmt.cut?_eq_some_iff.1 isCut
  obtain ⟨opener, closer, rfl, -⟩ := exists_settled_of_enclosed? enclosed
  exact ⟨_, _, stands.body split enclosed, stands.next split enclosed⟩

theorem Stands.of_part {block : Span} {cut : Stmt.Cut} (stands : Stands whole .block front block)
    (part : Stmt.Part block cut) :
    ∃ front' front'', Stands whole .statements front' cut.body ∧
      Stands whole .block front'' cut.rest := by
  induction part with
  | first isCut => exact stands.of_cut isCut
  | next _ isCut ih =>
    obtain ⟨-, front', -, stands'⟩ := ih
    exact stands'.of_cut isCut

theorem Stands.of_block {segment : Segment} (stands : Stands whole .statements front text)
    (mem : segment ∈ text.segments 0) (isBlock : segment.form = .block) :
    ∃ front', Stands whole .block front' segment.span := by
  obtain ⟨front', text', here, form, span⟩ := stands.of_mem_segments mem
  exact ⟨front', span ▸ here.block (form ▸ isBlock)⟩

theorem Stands.of_level {level : Span} (isLevel : Stmt.Level whole level) :
    ∃ front, Stands whole .statements front level := by
  induction isLevel with
  | top => exact ⟨[], .program⟩
  | body _ mem isBlock part ih =>
    obtain ⟨front, stands⟩ := ih
    obtain ⟨front', stands'⟩ := stands.of_block mem isBlock
    obtain ⟨front'', -, body, -⟩ := stands'.of_part part
    exact ⟨front'', body⟩

/-- What is made into tokens is a piece that the scanner comes to. -/
theorem exists_scanned_of_tokenized (tokenized : Tokenized whole text) :
    ∃ front, Scanned whole .tokens front text := by
  cases tokenized with
  | instruction isLevel mem isInstruction =>
    obtain ⟨front, stands⟩ := Stands.of_level isLevel
    obtain ⟨front', text', here, form, span⟩ := stands.of_mem_segments mem
    exact ⟨front', span ▸ .instruction here (form ▸ isInstruction)⟩
  | header isLevel mem isBlock cut =>
    obtain ⟨front, stands⟩ := Stands.of_level isLevel
    obtain ⟨front', block⟩ := stands.of_block mem isBlock
    exact ⟨front', .header block cut⟩
  | part isLevel mem isBlock part cut =>
    obtain ⟨front, stands⟩ := Stands.of_level isLevel
    obtain ⟨front', block⟩ := stands.of_block mem isBlock
    obtain ⟨-, front'', -, rest⟩ := block.of_part part
    exact ⟨front'', .header rest cut⟩
  | expression => exact ⟨_, .expression⟩

/-- The scanner can fail at a character that begins no token, and in no other way:
every literal closes, and every numeral reads as a number. -/
structure Lexes (text : Span) : Prop where
  unexpected : ∀ fault, Token.scan text.chars = .error fault → ∃ c, fault = .unexpected c
  numerals : ∀ {front taken rest : List Char} {c : Char} {x : Float},
    Token.Comes text.chars front (c :: (taken ++ rest)) →
    Token.scanOne c (taken ++ rest) = .ok (.number x, rest) →
      Number.read? (String.ofList (c :: taken)) = some x

theorem lexes_of_settled (settled : text.Settled) : Lexes text where
  unexpected _ fails := Token.unexpected_of_scan settled fails
  numerals {front taken rest c x} _ one := by
    obtain ⟨taken', same, lexeme, -⟩ := Token.exists_lexeme one
    obtain rfl := List.append_cancel_right same
    generalize isNumber : Token.number x = token at lexeme
    cases lexeme with
    | numeral numeral =>
      cases isNumber
      exact Token.read?_numeral numeral
    | word =>
      unfold Token.ofWord at isNumber
      split at isNumber <;> cases isNumber
    | literal | short | long => cases isNumber

/-- The scans of a text that a source has been normalized to agree with the scan
that normalized it: on the characters that structure the text, each at its
place in the source, and so on what the scanner is given. -/
structure ScansAgree (source : String) (whole : Span) : Prop where
  lexes : ∀ text, Tokenized whole text → Lexes text
  /-- A walk goes on from a character with what it knows there. -/
  goesOn : ∀ {rule walker front before rest},
    Scanned whole (.walk rule) front (before ++ rest) →
      ByOffset.Walker.start.after rule before.utf8 = some walker →
        ByOffset.walk rule .start 0 (before ++ rest).utf8 =
          ByOffset.walk rule walker before.utf8.length rest.utf8
  agree : ∃ traced, trace source = .ok traced ∧ whole = traced.map Traced.char ∧
    ∀ {scan front text before c rest sees}, Scanned whole scan front text →
      text = before ++ c :: rest → isStructure c.val = true → Sees scan text before sees →
        ∃ t, traced[(front ++ before).length]? = some t ∧ t.char = c ∧
          sees = readsCode source.toList t.place

/-- **All scans of an accepted source agree on where its literals are.** -/
theorem scans_agree {source : String} (normal : normalize source = .ok whole) :
    ScansAgree source whole := by
  obtain ⟨traced, traces, isWhole⟩ := exists_trace normal
  obtain ⟨settled, places⟩ := readsCode_of_trace traces
  rw [← isWhole] at settled
  refine ⟨fun text tokenized => ?_, fun {rule walker front before rest} _ reaches => ?_,
    traced, traces, isWhole, ?_⟩
  · obtain ⟨front, scanned⟩ := exists_scanned_of_tokenized tokenized
    exact lexes_of_settled (scanned.cutOut settled).text
  · rw [utf8_append, ByOffset.walk_of_after reaches, Nat.zero_add]
  · intro scan front text before c rest sees scanned same structural saw
    have cutOut := scanned.cutOut settled
    obtain ⟨behind, within⟩ := cutOut.within
    have split : traced.map Traced.char = (front ++ before) ++ c :: (rest ++ behind) := by
      rw [← isWhole, within, same]
      simp
    obtain ⟨ahead, others, rfl, isAhead, isOthers⟩ := List.map_eq_append_iff.1 split
    obtain ⟨t, last, rfl, isChar, -⟩ := List.map_eq_cons_iff.1 isOthers
    refine ⟨t, ?_, isChar, ?_⟩
    · rw [← isAhead, List.length_map, List.getElem?_append_right (Nat.le_refl _), Nat.sub_self]
      rfl
    · rw [sees_eq cutOut.text same structural saw, places ahead t last rfl, isAhead, chars_append,
        past_append_of_settled cutOut.front]

/-- A terminator and an opening brace in a literal with an escaped quote, and a
literal with a character of two bytes in front of a brace that closes. -/
theorem scans_agree_of_literals :
    ∃ whole : Span, whole.text = "if(s=='\\';\x7b')\x7bt=\"é\x7d\"\x7d" ∧
      normalize "if(s=='\\';\x7b')\x7bt=\"é\x7d\"\x7d" = .ok whole ∧
      ScansAgree "if(s=='\\';\x7b')\x7bt=\"é\x7d\"\x7d" whole :=
  ⟨_, by decide +kernel, rfl, scans_agree rfl⟩

end Span

end RoutineScript
