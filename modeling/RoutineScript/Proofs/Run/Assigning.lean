/-
The same expression asked for by a host and assigned in a script.

A host asks for the value of a text without any statements: the text is
normalized, the terminators around it are dropped, and its tokens are read. In
a script the text stands behind a name and an assignment, and it is cut into
statements and then at the assignment before it is read. Both find the same
expression (`Span.segments_assignment`, `Block.ofSource_assignment`), so an
assignment leaves the variable with the value that the host would be told.

# The argument

Behind the assignment the text is normalized as from its start, since no word
and no gap stands in front of it. Its tokens are those of an expression, among
which is neither a brace nor a terminator, and what structures a text outside
of literals is a token of its own (`Token.exists_mark_of_scan`); so no statement
ends within it. Where it ends, everything is closed again, so that the
terminators behind it, which the host drops, end the statement. And an
expression does not begin with an equals sign (`Phrase.Derives.head_ne`), so
that the assignment is scanned as such.

A host that asks for a value works with the scope, and so does a program that
runs there; that the program keeps it alive once more makes no difference
(`Below.evaluate_alike`).
-/
import RoutineScript.Proofs.Printing.Query
import RoutineScript.Proofs.Reading.Phrases
import RoutineScript.Proofs.Run.Keeping
import RoutineScript.Proofs.Run.Stopping
import RoutineScript.Proofs.Source.Identifiers
import RoutineScript.Proofs.Source.Joining
import RoutineScript.Proofs.Source.Lexing

namespace RoutineScript

-- =================================================================== tokens

namespace Phrase

/-- The phrases that have an operand in front. -/
def BeginsOperand : Phrase → Prop
  | expression | operand | value | primary => True
  | attachments | arguments | items => False

/-- No expression begins with an equals sign. -/
theorem Derives.head_ne {phrase : Phrase} {tokens : List Token} (derived : Derives phrase tokens)
    (begins : phrase.BeginsOperand) :
    ∃ token rest, tokens = token :: rest ∧ token ≠ .mark .eq ∧ token ≠ .mark .eqEq := by
  induction derived with
  | single own ih => exact ih trivial
  | binary op own others ih =>
    obtain ⟨token, rest, rfl, differs⟩ := ih trivial
    exact ⟨token, _, rfl, differs⟩
  | unsigned own ih => exact ih trivial
  | signed op own ih => exact ⟨_, _, rfl, by cases op <;> exact ⟨nofun, nofun⟩⟩
  | attached own others ih =>
    obtain ⟨token, rest, rfl, differs⟩ := ih trivial
    exact ⟨token, _, rfl, differs⟩
  | number | string | bool | null | name | call | new | parens | list =>
    exact ⟨_, _, rfl, nofun, nofun⟩
  | bare | member | method | index | noArguments | someArguments | last | more => cases begins

end Phrase

namespace Token

variable {c d : Char} {text rest after front behind : List Char} {token : Token}
  {tokens : List Token}

theorem exists_of_map_cons {ε α : Type} {result : Except ε (List α)} {first : α} {all : List α}
    (mapped : result.map (first :: ·) = .ok all) :
    ∃ others, result = .ok others ∧ all = first :: others := by
  cases result with
  | error => cases mapped
  | ok others => exact ⟨others, rfl, (Except.ok.inj mapped).symm⟩

/-- What structures a text is taken as a mark of its own. -/
theorem exists_mark_of_scanOne (structural : isStructure c = true)
    (one : scanOne c rest = .ok (token, after)) : ∃ m, shortMark? c = some m ∧ token = mark m := by
  obtain ⟨lexeme, rfl, isLexeme, -⟩ := exists_lexeme one
  generalize isText : c :: lexeme = text at isLexeme
  cases isLexeme with
  | literal isMark =>
    cases isText
    rcases eq_of_isMark isMark with rfl | rfl <;> cases structural
  | word word =>
    have isWord := word.isWordChar c (isText ▸ List.mem_cons_self)
    rw [(noWord_of_isStructure structural).1] at isWord
    cases isWord
  | numeral numeral =>
    obtain ⟨-, noDigit, noPoint⟩ := noWord_of_isStructure structural
    rcases isDigit_or_point numeral (isText ▸ List.mem_cons_self : c ∈ text) with digit | point
    · rw [noDigit] at digit
      cases digit
    · exact absurd point noPoint
  | short spelled =>
    cases isText
    exact ⟨_, spelled, rfl⟩
  | long spelled =>
    cases isText
    unfold longMark? at spelled
    split at spelled <;> first | cases structural | cases spelled

theorem isBlank_of_isStructure (structural : isStructure c = true) : Text.isBlank c = false := by
  have mem := isStructure_cases structural
  simp only [List.mem_cons, List.not_mem_nil, or_false] at mem
  rcases mem with rfl | rfl | rfl | rfl | rfl | rfl | rfl <;> decide

theorem noMark_of_isBlank (blank : Text.isBlank c = true) : Quote.isMark c = false := by
  rw [← Bool.not_eq_true]
  intro isMark
  rcases eq_of_isMark isMark with rfl | rfl <;> revert blank <;> decide

/-- What structures a text outside of literals is one of its tokens. -/
theorem exists_mark_of_scan (scanned : scan text = .ok tokens)
    (isText : text = front ++ c :: behind) (structural : isStructure c = true)
    (outside : Quote.outside.past front = .outside) :
    ∃ m, shortMark? c = some m ∧ mark m ∈ tokens := by
  fun_induction scan text generalizing front tokens with
  | case1 => simp at isText
  | case2 d rest blank ih =>
    cases front with
    | nil =>
      cases isText
      rw [isBlank_of_isStructure structural] at blank
      cases blank
    | cons e front =>
      cases isText
      rw [Quote.past_cons, Quote.step_outside (noMark_of_isBlank blank)] at outside
      exact ih scanned rfl outside
  | case3 => cases scanned
  | case4 d rest solid token after one ih =>
    obtain ⟨others, scanned', rfl⟩ := exists_of_map_cons scanned
    obtain ⟨lexeme, rfl, -⟩ := exists_lexeme one
    obtain ⟨settled, hidden⟩ := quotes_of_scanOne one
    have goesOn : ∀ {front : List Char}, after = front ++ c :: behind →
        Quote.outside.past front = .outside →
          ∃ m, shortMark? c = some m ∧ mark m ∈ token :: others := by
      intro front isAfter outside
      obtain ⟨m, spelled, mem⟩ := ih scanned' isAfter outside
      exact ⟨m, spelled, List.mem_cons_of_mem _ mem⟩
    rw [← List.cons_append] at isText
    rcases List.append_eq_append_iff.1 isText with ⟨more, rfl, left⟩ | ⟨more, taken, left⟩
    · rw [Quote.past_append, settled] at outside
      exact goesOn left outside
    · cases more with
      | nil =>
        have isAfter : after = [] ++ c :: behind := left.symm
        exact goesOn isAfter rfl
      | cons e more =>
        -- within what the scanner takes, only its first character stands outside of literals
        obtain ⟨rfl, rfl⟩ := List.cons.inj left
        obtain rfl := (hidden front c more taken structural).1 outside
        obtain ⟨rfl, rfl⟩ := List.cons.inj taken
        obtain ⟨m, spelled, rfl⟩ := exists_mark_of_scanOne structural one
        exact ⟨m, spelled, List.mem_cons_self⟩

theorem longMark?_equals (d : Char) : longMark? '=' d = if d = '=' then some .eqEq else none := by
  unfold longMark?
  split <;> simp_all

/-- A text that begins with another token is scanned behind an equals sign as it
is scanned alone. -/
theorem scan_equals (scanned : scan text = .ok (token :: tokens)) (noEq : token ≠ mark .eq)
    (noEqEq : token ≠ mark .eqEq) : scan ('=' :: text) = .ok (mark .eq :: token :: tokens) := by
  have alone : ∀ d ∈ text.head?, d ≠ '=' := by
    rintro d mem rfl
    cases text with
    | nil => cases mem
    | cons d rest =>
      cases mem
      rw [scan, if_neg (by decide)] at scanned
      split at scanned
      · cases scanned
      · next first after one =>
        obtain ⟨others, -, same⟩ := exists_of_map_cons scanned
        obtain ⟨rfl, -⟩ := List.cons.inj same
        have noPoint : '=' = '.' → ∀ d ∈ rest.head?, d.isDigit = false := fun point =>
          absurd point (by decide)
        rw [scanOne_mark (by decide) noPoint] at one
        rcases scanMark_cases one with ⟨d, rest, m, rfl, spelled, found⟩ | ⟨m, -, spelled, found⟩
        · cases found
          rw [longMark?_equals] at spelled
          split at spelled <;> cases spelled
          exact noEqEq rfl
        · cases found
          cases spelled
          exact noEq rfl
  have ends : (mark .eq).runsOn ['='] text = false := by
    cases text with
    | nil => rfl
    | cons d rest =>
      have other : d ≠ '=' := alone d rfl
      simp [runsOn, longMark?_equals, other]
  rw [scan_cons (by decide) (scanOne_short rfl ends), scanned]
  rfl

/-- The tokens of an expression are scanned behind a name and an equals sign as
they are scanned alone. -/
theorem scan_assignment {x : String} {e : Expr} (word : IsWord x.toList)
    (plain : Keyword.ofSpelling? x = none) (scanned : scan text = .ok tokens)
    (read : Expr.ofTokens tokens = .ok e) :
    scan (x.toList ++ '=' :: text) = .ok (name x :: mark .eq :: tokens) := by
  obtain ⟨first, others, rfl, noEq, noEqEq⟩ := (Phrase.derives_of_read read).head_ne trivial
  have ends : ∀ d ∈ ('=' :: text).head?, Text.isWordChar d = false := by
    rintro d ⟨⟩
    decide
  have isName : ofWord (String.ofList x.toList) = name x := by
    rw [String.ofList_toList, ofWord, plain]
  rw [scan_word word ends, scan_equals scanned noEq noEqEq, isName]
  rfl

end Token

-- ==================================================================== texts

namespace Span

variable {text gap front : Span}

/-- What is dropped at the end of a text are terminators. -/
theorem exists_trimTerminators (begins : ∀ c ∈ text.head?, c.val ≠ ';') :
    ∃ gap, text = text.trimTerminators ++ gap ∧ ∀ c ∈ gap, c.val = ';' := by
  rw [trimTerminators, skipTerminators_of_head begins, skipTerminators]
  refine ⟨(text.reverse.takeWhile (·.val == ';')).reverse, ?_, fun c mem => ?_⟩
  · rw [← List.reverse_append, List.takeWhile_append_dropWhile, List.reverse_reverse]
  · exact beq_iff_eq.1 (List.all_eq_true.1 List.all_takeWhile c (List.mem_reverse.1 mem))

/-- A terminator at the end of a text is not in a literal. -/
theorem outline?_of_snoc {q : Quote} {chars marks : List Char} (legal : ByOffset.Legal q)
    (outline : outline? false (.ofQuote q) (chars ++ [';']) = some marks) :
    outline? false (.ofQuote q) chars = some marks := by
  induction chars generalizing q marks with
  | nil =>
    cases q with
    | outside => exact outline
    | inside quote escaped =>
      have isMark : Quote.isMark quote = true := legal quote escaped rfl
      have other : ';' ≠ quote := by
        rintro rfl
        cases isMark
      rw [List.nil_append, outline?_cons (.inr (by decide))] at outline
      cases escaped <;> simp [Quote.step, other, Reading.ofQuote, outline?] at outline
  | cons c chars ih =>
    have allowed := allows_of_outline outline
    rw [List.cons_append, outline?_cons allowed] at outline
    rw [outline?_cons allowed]
    obtain ⟨tail, outline', rfl⟩ := Option.map_eq_some_iff.1 outline
    rw [ih (legal.step c) outline']
    rfl

/-- Without the terminators at its end a text closes still. -/
theorem Closes.of_terminators (closes : (text ++ gap).Closes)
    (terminators : ∀ c ∈ gap, c.val = ';') : text.Closes := by
  induction gap using List.reverseRecOn with
  | nil => rwa [List.append_nil] at closes
  | append_singleton gap last ih =>
    obtain ⟨own, others⟩ := List.forall_mem_append.1 terminators
    have isEnd : last.val = ';' := others last List.mem_cons_self
    obtain ⟨marks, opened, outline, unwinds⟩ := closes
    rw [← List.append_assoc, chars_append, chars_cons, isEnd] at outline
    have outline' := outline?_of_snoc (q := .outside) .outside outline.read
    exact ih ⟨marks, opened, outline_iff.2 outline', unwinds⟩ own

/-- A text that is scanned without braces and terminators is one statement. -/
theorem splitBoundary_of_scan {tokens : List Token} (scanned : Token.scan text.chars = .ok tokens)
    (inner : ∀ t ∈ tokens, t ≠ .mark .lbrace ∧ t ≠ .mark .semicolon) :
    text.splitBoundary = none := by
  cases cut : text.splitBoundary with
  | none => rfl
  | some found =>
    exfalso
    obtain ⟨before, boundary⟩ := found
    obtain ⟨⟨q, depth⟩, c, rest, rfl, stops⟩ := ByOffset.exists_stop_of_splitWhere cut
    have isText : text.chars = before.chars ++ c.val :: chars rest := by
      rw [← append_of_splitWhere _ _ cut, chars_append, chars_cons]
    have settled : Quote.outside.past before.chars = .outside := settled_of_splitBoundary cut
    simp only [Bool.and_eq_true, Bool.or_eq_true, beq_iff_eq] at stops
    obtain ⟨-, opens | ⟨terminator, -⟩⟩ := stops
    · rw [opens] at isText
      obtain ⟨m, spelled, mem⟩ := Token.exists_mark_of_scan scanned isText (by decide) settled
      cases spelled
      exact (inner _ mem).1 rfl
    · rw [terminator] at isText
      obtain ⟨m, spelled, mem⟩ := Token.exists_mark_of_scan scanned isText (by decide) settled
      cases spelled
      exact (inner _ mem).2 rfl

/-- Terminators behind a text that closes, and in which no statement ends, end
the statement. -/
theorem firstStatement_of_terminators (closes : text.Closes) (none : text.splitBoundary = .none)
    (terminators : ∀ c ∈ gap, c.val = ';') :
    firstStatement (text ++ gap) = ⟨.instruction, text, gap⟩ := by
  cases gap with
  | nil =>
    rw [List.append_nil]
    exact firstStatement_of_none none
  | cons t gap =>
    have terminator : t.val = ';' := terminators t List.mem_cons_self
    exact firstStatement_of_terminator (splitBoundary_append_of_none terminator closes none gap)
      (by rw [terminator]; decide)

/-- Behind a word and an equals sign, a source is normalized as it is alone. -/
theorem normalize_assignment {x t : String} (word : Token.IsWord x.toList)
    (normal : normalize t = .ok text) :
    normalize (x ++ "=" ++ t) = .ok (ofString (x ++ "=") 1 ++ text) := by
  have name : Gives (inCode [] false false) x.toList (lead false x.toList ++ oneLine x.toList)
      (inCode [] false true) := gives_word word nofun
  have own : IsGiven '=' := by constructor <;> decide
  have gives := name.append (gives_given [] false true own)
  have source : (x ++ "=" ++ t).toList = x.toList ++ ['='] ++ t.toList := by simp
  have given : ofString (x ++ "=") 1 = oneLine x.toList ++ oneLine ['='] := by
    simp [ofString, oneLine]
  have reads : Layout.start.read t.toList = .ok text := normal
  rw [normalize, source, given]
  refine (gives t.toList).trans ?_
  have same : inCode [] false (Text.isWordChar '=') = Layout.start := rfl
  rw [same, reads]
  simp [Except.map, lead]

/-- A word, an equals sign and a text that is scanned without braces and
terminators are one statement, up to the terminators at the end. -/
theorem segments_assignment {x : String} {tokens : List Token} (word : Token.IsWord x.toList)
    (closes : (ofString (x ++ "=") 1 ++ text).Closes) (begins : ∀ c ∈ text.head?, c.val ≠ ';')
    (scanned : Token.scan (ofString (x ++ "=") 1 ++ text.trimTerminators).chars = .ok tokens)
    (inner : ∀ t ∈ tokens, t ≠ .mark .lbrace ∧ t ≠ .mark .semicolon) :
    ∃ offset, (ofString (x ++ "=") 1 ++ text).segments 0 =
      [⟨.instruction, offset, ofString (x ++ "=") 1 ++ text.trimTerminators⟩] := by
  obtain ⟨gap, isText, terminators⟩ := exists_trimTerminators begins
  have first : firstStatement (ofString (x ++ "=") 1 ++ text) =
      ⟨.instruction, ofString (x ++ "=") 1 ++ text.trimTerminators, gap⟩ := by
    generalize text.trimTerminators = body at isText scanned
    rw [isText, ← List.append_assoc] at closes ⊢
    exact firstStatement_of_terminators (closes.of_terminators terminators)
      (splitBoundary_of_scan scanned inner) terminators
  have noTerminator : (ofString (x ++ "=") 1 ++ text).skipTerminators =
      ofString (x ++ "=") 1 ++ text := by
    refine skipTerminators_of_head fun c head => ?_
    obtain ⟨d, rest, isWord, beginsName, -⟩ := word
    rw [ofString, String.toList_append, isWord] at head
    cases head
    rintro rfl
    cases beginsName
  have some : (ofString (x ++ "=") 1 ++ text).skipTerminators ≠ [] := by
    rw [noTerminator]
    simp [ofString]
  have none : gap.skipTerminators = [] :=
    List.dropWhile_eq_nil_iff.2 fun c mem => beq_iff_eq.2 (terminators c mem)
  obtain ⟨offset, segments⟩ := Stmt.exists_segments 0 some
  rw [noTerminator, first, Stmt.segments_eq_nil none] at segments
  exact ⟨offset, segments⟩

end Span

-- =============================================================== statements

/-- A name, an equals sign and the tokens of an expression are an assignment. -/
theorem Stmt.ofTokens_name_equals {refused : Fault} {tokens : List Token} {e : Expr} (x : String)
    (read : Expr.ofTokens tokens = .ok e) :
    Stmt.ofTokens refused (.name x :: .mark .eq :: tokens) = .ok (.assign (.name x) e) := by
  have cut : Token.splitAssignment 0 (.name x :: .mark .eq :: tokens) =
      some ([.name x], none, tokens) := rfl
  have beginsPlain : BeginsPlain (.name x :: .mark .eq :: tokens) := ⟨.name x, _, rfl, by simp⟩
  rw [ofTokens_plain beginsPlain, ofPlainTokens, cut]
  simp only [Place.ofTokens, read]
  rfl

theorem Expr.exists_tokens_of_ofText {t : String} {text : Span} {e : Expr}
    (normal : Span.normalize t = .ok text) (read : Expr.ofText t = .ok e) :
    ∃ tokens, Token.scan text.trimTerminators.chars = .ok tokens ∧
      Expr.ofTokens tokens = .ok e := by
  rw [Expr.ofText, normal] at read
  simp only [bind, Except.bind] at read
  split at read
  · cases read
  · next tokens scanned => exact ⟨tokens, scanned, read⟩

/-- A text that is read as an expression for a host is read as the same one in
a script, behind a name and an equals sign. -/
theorem Block.ofSource_assignment {x t : String} {text : Span} {e : Expr}
    (word : Token.IsWord x.toList) (plain : Keyword.ofSpelling? x = none)
    (normal : Span.normalize t = .ok text) (begins : ∀ c ∈ text.head?, c.val ≠ ';')
    (read : Expr.ofText t = .ok e) :
    Block.ofSource (x ++ "=" ++ t) = .ok [⟨1, .assign (.name x) e⟩] := by
  obtain ⟨tokens, scanned, isExpr⟩ := Expr.exists_tokens_of_ofText normal read
  have whole := Span.normalize_assignment word normal
  have inner := (Phrase.derives_of_read isExpr).nested.isInner
  have scanned' : Token.scan (Span.ofString (x ++ "=") 1 ++ text.trimTerminators).chars =
      .ok (.name x :: .mark .eq :: tokens) := by
    have same : (Span.ofString (x ++ "=") 1 ++ text.trimTerminators).chars =
        x.toList ++ '=' :: text.trimTerminators.chars := by
      simp [Span.ofString, Span.chars, Function.comp_def]
    rw [same, Token.scan_assignment word plain scanned isExpr]
  have noBoundary : ∀ t ∈ Token.name x :: .mark .eq :: tokens,
      t ≠ .mark .lbrace ∧ t ≠ .mark .semicolon := by
    intro t mem
    simp only [List.mem_cons] at mem
    rcases mem with rfl | rfl | mem
    · exact ⟨nofun, nofun⟩
    · exact ⟨nofun, nofun⟩
    · exact ⟨(inner t mem).1, (inner t mem).2.2⟩
  obtain ⟨offset, segments⟩ := Span.segments_assignment word (Span.closes_of_normalize whole)
    begins scanned' noBoundary
  have readPart : Stmt.readForm .instruction
      (Span.ofString (x ++ "=") 1 ++ text.trimTerminators) = .ok (.assign (.name x) e) := by
    rw [Stmt.readForm, Stmt.readInstruction, scanned']
    exact Stmt.ofTokens_name_equals x isExpr
  have line : Span.firstLine (Span.ofString (x ++ "=") 1 ++ text.trimTerminators) = 1 := by
    obtain ⟨d, rest, isWord, -⟩ := word
    rw [Span.ofString, String.toList_append, isWord]
    rfl
  rw [ofSource, whole, Except.map, Stmt.readBlock_eq, segments]
  simp only [List.map_cons, List.map_nil, Stmt.readPart_of_ok readPart, line]

-- ===================================================================== runs

namespace Store

/-- A name that may be declared may be assigned, in any scope. -/
theorem assign_of_check {name : String} (legal : Name.check name = .ok ()) (s : Store)
    (id : ScopeId) (v : Value) : (s.assign id name v).1 = .ok () := by
  unfold assign
  split
  · rfl
  · rfl
  · rw [declare, legal]

end Store

namespace Below

/-- An expression does not depend on how often its scope is kept alive. -/
theorem evaluate_alike {levels : Nat} {scope : ScopeId} {context context' : Context} {s : Store}
    (e : Expr) (alike : context.Alike context') :
    (Below.upTo levels).evaluate scope e context' s =
      (Below.upTo levels).evaluate scope e context s :=
  Run.eq_of_safe (safe_evaluate (lawful_alike levels) scope e) alike

/-- An assignment of a name evaluates the value and assigns it. -/
theorem execute_assign_name {below : Below} {patience : Nat} {scope : ScopeId} {context : Context}
    {s t u : Store} {x : String} {e : Expr} {v : Value}
    (evaluated : below.evaluate scope e context s = (.ok v, t))
    (assigned : t.assign scope x v = (.ok (), u)) :
    below.execute patience scope (.assign (.name x) e) context s = (.ok .finished, u) := by
  rw [execute, Run.bind_eq_ok_iff]
  refine ⟨v, t, evaluated, Run.bind_eq_ok_iff.2 ⟨(), u, ?_, rfl⟩⟩
  rw [assignPlace]
  exact Run.attempt_eq_ok_iff.2 assigned

end Below

/-- A program of one statement keeps its scope alive and executes it. -/
theorem Run.executeAt_singleton {levels line : Nat} {scope : ScopeId} {statement : Stmt}
    {context : Context} {s u : Store}
    (executed : (Below.upTo levels).execute levels scope statement
      { context with held := [scope] ++ context.held } s = (.ok .finished, u)) :
    executeAt (levels + 1) scope [⟨line, statement⟩] context s = (.ok .finished, u) := by
  have located : onLine line ((Below.upTo levels).execute levels scope statement)
      { context with held := [scope] ++ context.held } s = (.ok .finished, u) :=
    onLine_eq_ok_iff.2 executed
  rw [executeAt]
  refine (Below.executeBlock_cons_apply line statement []).trans ?_
  rw [← Below.upTo, located]
  rfl

namespace Store.Regular

variable {s t : Store} {levels : Nat} {scope : ScopeId} {context : Context} {e : Expr} {v : Value}

/-- A program that assigns a name leaves it bound to the value that the
expression has in the same place. -/
theorem executeAt_assign {x : String} (regular : s.Regular) (legal : Name.check x = .ok ())
    (inStore : scope.index < s.scopes.size) (held : scope ∈ context.held)
    (evaluated : (Below.upTo levels).evaluate scope e context s = (.ok v, t)) (line : Nat) :
    ∃ u, Run.executeAt (levels + 1) scope [⟨line, .assign (.name x) e⟩] context s =
      (.ok .finished, u) ∧ u.lookup scope x = .ok v := by
  have alike : context.Alike { context with held := [scope] ++ context.held } := by
    refine ⟨rfl, rfl, fun id => ?_⟩
    rw [List.mem_append, List.mem_singleton, or_iff_right_of_imp]
    rintro rfl
    exact held
  have lawful := Below.lawful_upTo Law.arises (Pace.same _) levels levels
  obtain ⟨later, grows, -⟩ := regular.run (Below.safe_evaluate lawful scope e)
    (Below.acts_evaluate (Below.acts_upTo levels) scope e _) context
  rw [evaluated] at later grows
  have assigned := t.assign_of_check legal scope v
  refine ⟨(t.assign scope x v).2, Run.executeAt_singleton ?_, ?_⟩
  · exact Below.execute_assign_name ((Below.evaluate_alike e alike).trans evaluated)
      (Prod.ext assigned rfl)
  · exact lookup_assign later.arises.tidy (Nat.lt_of_lt_of_le inStore grows) assigned

end Store.Regular

-- ================================================================ the result

namespace Interpreter

/-- **A host and a script read an expression alike.** A text that is read as an
expression, and does not begin with a terminator once it is normalized, is the
right side of an assignment when it stands behind a name and an equals sign;
nothing else is in that source. And if the text has a value in some scope, the
source leaves the name bound to it there, in any state of the store that comes
about while the scope is worked with. -/
theorem runSource_assignment {x t : String} {text : Span} {e : Expr}
    (word : Token.IsWord x.toList) (plain : Keyword.ofSpelling? x = none)
    (normal : Span.normalize t = .ok text) (begins : ∀ c ∈ text.head?, c.val ≠ ';')
    (read : Expr.ofText t = .ok e) :
    Block.ofSource (x ++ "=" ++ t) = .ok [⟨1, .assign (.name x) e⟩] ∧
    ∀ {levels : Nat} {scope : ScopeId} {context : Context} {s s' : Store} {v : Value},
      s.Regular → scope.index < s.scopes.size → scope ∈ context.held →
      evaluateText levels scope t context s = (.ok v, s') →
      ∀ levels' > levels, ∃ u,
        runSource levels' scope (x ++ "=" ++ t) context s = (.ok (), u) ∧
          u.lookup scope x = .ok v := by
  have accepted := Block.ofSource_assignment word plain normal begins read
  refine ⟨accepted, ?_⟩
  intro levels scope context s s' v regular inStore held evaluated levels' enough
  have evaluated' : (Below.upTo levels).evaluate scope e context s = (.ok v, s') := by
    rw [evaluateText, read] at evaluated
    exact evaluated
  obtain ⟨u, executed, bound⟩ := regular.executeAt_assign (Name.check_of_word word plain) inStore
    held evaluated' 1
  have patient : (Run.executeAt (levels + 1) scope [⟨1, .assign (.name x) e⟩] context s).1 ≠
      .error .exhausted := by
    rw [executed]
    intro same
    cases same
  refine ⟨u, ?_, bound⟩
  rw [runSource_of_accepted accepted, runProgram, Run.bind_apply,
    Run.executeAt_of_le enough patient, executed]
  rfl

/-- A text over several lines, with a comment, a literal that is full of signs,
and terminators at its end. -/
theorem runSource_assignment_of_signs :
    let t := "\t!((\n\"a;\x7b\") ==\n (\"b\")\n); # no;\n"
    let e : Expr := .unary .not (.binary .eq (.string "a;\x7b") (.string "b"))
    let s := Store.empty.addRoot.2
    Expr.ofText t = .ok e ∧ Block.ofSource ("x" ++ "=" ++ t) = .ok [⟨1, .assign (.name "x") e⟩] ∧
      s.Regular ∧ (evaluateText 0 ⟨0⟩ t ⟨10, 0, [⟨0⟩]⟩ s).1 = .ok (.boolean true) ∧
      ∃ u, runSource 1 ⟨0⟩ ("x" ++ "=" ++ t) ⟨10, 0, [⟨0⟩]⟩ s = (.ok (), u) ∧
        u.lookup ⟨0⟩ "x" = .ok (.boolean true) := by
  intro t e s
  let sp : Spelling := ⟨'"', rfl, fun _ => []⟩
  let text : Span := Span.ofString "!((" 1 ++ Span.ofString "\"a;\x7b\")==" 2 ++
    Span.ofString "(\"b\")" 3 ++ Span.ofString ");;;" 4
  have word : Token.IsWord "x".toList := ⟨'x', [], rfl, by decide, nofun⟩
  have normal : Span.normalize t = .ok text := by decide +kernel
  have begins : ∀ c ∈ text.head?, c.val ≠ ';' := by decide
  have scanned : Token.scan text.trimTerminators.chars = .ok e.tokens := by decide +kernel
  have printable : e.Printable sp := by simp [e, Expr.Printable]
  have read : Expr.ofText t = .ok e := by
    rw [Expr.ofText, normal]
    simp only [bind, Except.bind, scanned]
    exact Expr.ofTokens_tokens e printable
  have regular : s.Regular := Hosted.regular (.operate (o := .root) .start trivial)
  have evaluated : evaluateText 0 ⟨0⟩ t ⟨10, 0, [⟨0⟩]⟩ s = (.ok (.boolean true), s) := by
    rw [evaluateText, read]
    rfl
  obtain ⟨accepted, bound⟩ := runSource_assignment word (by decide) normal begins read
  exact ⟨read, accepted, regular, congrArg Prod.fst evaluated,
    bound regular (by decide) List.mem_cons_self evaluated 1 Nat.zero_lt_one⟩

end Interpreter

end RoutineScript
