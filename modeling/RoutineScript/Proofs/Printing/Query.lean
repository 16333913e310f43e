/-
Asking for the value of a printed expression.

A host asks for a value with the text of an expression. Such a text is read
without being cut into statements: it is normalized, the terminators around it
are dropped, and its tokens are read. A printed expression neither begins nor
ends with a terminator (`trimTerminators_span`), so nothing is dropped from it
and it is read back as it was (`Expr.ofText_print`).

A text in quotes is the shortest of them. Its value is the text itself,
whatever characters it is made of and whichever quote encloses it.
-/
import RoutineScript.Interpreter
import RoutineScript.Proofs.Printing.Segmenting

namespace RoutineScript

variable {sp : Spelling} {tokens : List Token} {token : Token}

-- ===================================================================== ends

/-- A text ends like its last token. -/
theorem getLast?_render (tokens : List Token) (reads : sp.Reads token) :
    (sp.render (tokens ++ [token])).getLast? = (sp.text token).getLast? := by
  obtain ⟨c, last⟩ := Option.isSome_iff_exists.1 (List.getLast?_isSome.2 (text_ne_nil reads))
  induction tokens with
  | nil => simp [Spelling.render, gap, runsInto]
  | cons first tokens ih =>
    rw [List.cons_append, Spelling.render, List.getLast?_append, ih, last]
    rfl

/-- Only a terminator ends with one. -/
theorem ne_terminator_of_getLast? (reads : sp.Reads token) (other : token ≠ .mark .semicolon) :
    ∀ c ∈ (sp.text token).getLast?, c ≠ ';' := by
  intro c last terminator
  subst terminator
  have mem : ';' ∈ sp.text token := List.mem_of_getLast? last
  have noWord : Text.isWordChar ';' = false := by decide
  cases token with
  | number x =>
    obtain ⟨before, digits, after, eq, blank, numeral, blankAfter⟩ := numeral_of_reads reads
    have noBlank : ¬Text.isBlank ';' = true := by decide
    have noDigit : ¬(Char.isDigit ';' = true ∨ ';' = '.') := by decide
    rw [Spelling.text, eq, List.mem_append, List.mem_append] at mem
    rcases mem with (front | own) | back
    · exact noBlank (blank ';' front)
    · exact noDigit (numeral.digit_or_point ';' own)
    · exact noBlank (blankAfter ';' back)
  | string s =>
    rw [Spelling.text, List.getLast?_concat] at last
    have isMark := sp.isMark
    rw [Option.mem_some_iff.1 last] at isMark
    cases isMark
  | name s =>
    rw [(isWord_of_reads reads).isWordChar ';' mem] at noWord
    cases noWord
  | keyword word =>
    rw [(isWord_keyword word).isWordChar ';' mem] at noWord
    cases noWord
  | mark m =>
    have none : m ≠ .semicolon → ';' ∉ m.spelling.toList := by
      cases m <;> decide
    exact none (fun same => other (congrArg Token.mark same)) mem

-- ================================================================= trimming

theorem skipTerminators_of_head {span : Span} (first : ∀ c ∈ span.head?, c.val ≠ ';') :
    span.skipTerminators = span := by
  cases span with
  | nil => rfl
  | cons c rest =>
    have other : c.val ≠ ';' := first c rfl
    rw [Span.skipTerminators, List.dropWhile_cons_of_neg (by simpa using other)]

/-- From tokens without terminators nothing is trimmed. -/
theorem Whole.trimTerminators_span (whole : Whole sp tokens)
    (noTerminator : ∀ t ∈ tokens, t ≠ .mark .semicolon) :
    (sp.tidy.span tokens).trimTerminators = sp.tidy.span tokens := by
  have begins : NoTerminator tokens := by
    rintro rest rfl
    exact noTerminator _ List.mem_cons_self rfl
  have ends : ∀ c ∈ (sp.tidy.span tokens).reverse.head?, c.val ≠ ';' := by
    intro c head
    rw [List.head?_reverse, Spelling.span, oneLine, List.getLast?_map] at head
    obtain ⟨d, last, rfl⟩ := Option.map_eq_some_iff.1 head
    rcases List.eq_nil_or_concat tokens with rfl | ⟨front, token, rfl⟩
    · cases last
    · have mem : token ∈ front.concat token := by simp
      have reads := whole.tidy token mem
      rw [List.concat_eq_append, getLast?_render front reads] at last
      exact ne_terminator_of_getLast? reads (noTerminator token mem) d last
  rw [Span.trimTerminators, whole.skipTerminators_span begins, skipTerminators_of_head ends,
    List.reverse_reverse]

-- ============================================================== expressions

/-- An expression as it is written. -/
def Expr.print (sp : Spelling) (e : Expr) : String :=
  String.ofList (sp.render e.tokens)

/-- Every expression that can be printed is read back from its text. -/
theorem Expr.ofText_print {e : Expr} (printable : e.Printable sp) :
    Expr.ofText (e.print sp) = .ok e := by
  have nested := e.nested_tokens
  have whole : Whole sp e.tokens := whole_nested nested (e.reads_tokens printable) e.fitting_tokens
  have noTerminator : ∀ t ∈ e.tokens, t ≠ .mark .semicolon :=
    fun t mem => (nested.isInner t mem).2.2
  rw [Expr.ofText, Expr.print, normalize_render whole.closedOff whole.reads whole.fit]
  simp only [bind, Except.bind, whole.trimTerminators_span noTerminator, whole.scan_span]
  exact Expr.ofTokens_tokens e printable

/-- To ask for the value of a printed expression is to evaluate it. -/
theorem Interpreter.evaluateText_print {e : Expr} (printable : e.Printable sp) (levels : Nat)
    (scope : ScopeId) :
    evaluateText levels scope (e.print sp) = (Below.upTo levels).evaluate scope e := by
  rw [evaluateText, Expr.ofText_print printable]
  rfl

-- ================================================================= literals

/-- **The value of a text in quotes is the text.** Any text, between quotes of
either sort and with the quote, the backslash and the line end written behind a
backslash, has itself as its value. This holds in every scope and for every
store, which is left as it is. -/
theorem Interpreter.evaluateText_quoted (levels : Nat) (scope : ScopeId) {quote : Char}
    (isMark : Quote.isMark quote = true) (s : String) (context : Context) (store : Store) :
    evaluateText levels scope
        (String.ofList (quote :: s.toList.flatMap (Token.escape quote) ++ [quote])) context store =
      (.ok (.string s), store) := by
  let sp : Spelling := ⟨quote, isMark, fun _ => []⟩
  have printable : (Expr.string s).Printable sp := trivial
  have text : (Expr.string s).print sp =
      String.ofList (quote :: s.toList.flatMap (Token.escape quote) ++ [quote]) := by
    simp [Expr.print, Expr.tokens, Spelling.render, Spelling.text, gap, runsInto, sp]
  rw [← text, evaluateText_print printable, Below.evaluate]
  rfl

/-- A text with a comment sign, both quotes, a backslash at its end and blanks
that are dropped elsewhere. -/
theorem Interpreter.evaluateText_quoted_of_signs :
    Quote.isMark '"' = true ∧
      evaluateText 0 ⟨0⟩ "\"# '\\\"; \x7b\t\r\x00\\n\\\\\"" ⟨256, 0, []⟩ .empty =
        (.ok (.string "# '\"; \x7b\t\r\x00\n\\"), .empty) :=
  ⟨rfl, evaluateText_quoted 0 ⟨0⟩ rfl "# '\"; \x7b\t\r\x00\n\\" ⟨256, 0, []⟩ .empty⟩

end RoutineScript
