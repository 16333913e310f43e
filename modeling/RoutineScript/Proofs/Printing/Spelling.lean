/-
Writing tokens as a text.

Tokens are written one behind the other, and only where a word would run
into what follows it does a space stand between the two. The choices that
this leaves open, which quote encloses a literal and which digits spell a
number, are a `Spelling`. Every other token is written in one way.

Two tokens fit when the first one, written directly in front of the second,
still ends where it should. A text of tokens that fit scans as these tokens.
-/
import Mathlib.Data.List.Chain
import RoutineScript.Proofs.Printing.Scanning

namespace RoutineScript

-- ================================================================ spellings

/-- What is free in writing tokens. -/
structure Spelling where
  /-- The character around literals. -/
  quote : Char
  isMark : Quote.isMark quote = true
  /-- The digits of a number. -/
  numeral : Float → List Char

/-- The blanks that are dropped when a source is read. -/
def isSpace (c : Char) : Bool :=
  c == ' ' || c == '\t' || c == '\r'

theorem eq_of_isSpace {c : Char} (space : isSpace c = true) :
    c = ' ' ∨ c = '\t' ∨ c = '\r' := by
  rwa [isSpace, Bool.or_eq_true, Bool.or_eq_true, beq_iff_eq, beq_iff_eq, beq_iff_eq,
    or_assoc] at space

theorem isBlank_of_isSpace {c : Char} (space : isSpace c = true) : Text.isBlank c = true := by
  rcases eq_of_isSpace space with rfl | rfl | rfl <;> decide

theorem isSpace_of_solid {c : Char} (solid : Text.isBlank c = false) : isSpace c = false := by
  by_cases space : isSpace c = true
  · rw [isBlank_of_isSpace space] at solid
    cases solid
  · exact eq_false_of_ne_true space

/-- Whether a text ends in a word that the next text would run into. -/
def runsInto (left right : List Char) : Bool :=
  left.getLast?.any Text.isWordChar && right.head?.any fun c => Text.isWordChar c || isSpace c

/-- What stands between two texts. -/
def gap (left right : List Char) : List Char :=
  if runsInto left right then [' '] else []

namespace Spelling

variable (sp : Spelling)

/-- A token as it is written. -/
def text : Token → List Char
  | .number x => sp.numeral x
  | .string s => sp.quote :: s.toList.flatMap (Token.escape sp.quote) ++ [sp.quote]
  | .name s => s.toList
  | .keyword word => word.spelling.toList
  | .mark m => m.spelling.toList

/-- Whether a token scans as it is written, and stands on one line. -/
def Reads : Token → Prop
  | .number x => Token.scan (sp.numeral x) = .ok [.number x] ∧ '\n' ∉ sp.numeral x
  | .name s => Token.scan s.toList = .ok [.name s]
  | .string _ | .keyword _ | .mark _ => True

/-- Tokens as they are written. -/
def render : List Token → List Char
  | [] => []
  | token :: rest => sp.text token ++ gap (sp.text token) (render rest) ++ render rest

end Spelling

-- ================================================================== fitting

/-- Whether a token may stand directly in front of another one. Words are
kept apart by a space; only numbers and marks have to fit. -/
def Token.fits : Token → Token → Bool
  | number _, mark m => m != .dot
  | number _, _ => false
  | mark m, mark n => standsBefore m (n.spelling.toList.head?.getD ' ')
  | mark m, number _ => m != .dot
  | _, _ => true

/-- Each token fits the next one. -/
def Fit (tokens : List Token) : Prop :=
  tokens.IsChain fun left right => left.fits right = true

/-- Whether a token may stand in front of every other one. -/
def Token.isFree : Token → Bool
  | string _ | name _ | keyword _ => true
  | mark m => m ∈ [.comma, .lparen, .rparen, .lbracket, .rbracket, .lbrace, .rbrace, .semicolon]
  | number _ => false

theorem fits_of_isFree {left : Token} (free : left.isFree = true) (right : Token) :
    left.fits right = true := by
  cases left with
  | number x => cases free
  | string s | name s | keyword word => rfl
  | mark m =>
    cases right with
    | string s | name s | keyword word => cases m <;> rfl
    | number x => cases m <;> first | rfl | cases free
    | mark n => cases m <;> first | cases n <;> rfl | cases free

theorem fit_cons {left right : Token} {rest : List Token} :
    Fit (left :: right :: rest) ↔ left.fits right = true ∧ Fit (right :: rest) :=
  List.isChain_cons_cons

theorem fit_cons_of_isFree {left : Token} {rest : List Token} (free : left.isFree = true)
    (fit : Fit rest) : Fit (left :: rest) := by
  cases rest with
  | nil => exact List.isChain_singleton left
  | cons right rest => exact fit_cons.2 ⟨fits_of_isFree free right, fit⟩

-- ==================================================================== texts

theorem isWord_keyword (word : Keyword) : Token.IsWord word.spelling.toList := by
  cases word <;> exact ⟨_, _, rfl, by decide, List.all_eq_true.1 (by decide)⟩

theorem ofWord_keyword (word : Keyword) : Token.ofWord word.spelling = .keyword word := by
  cases word <;> decide

/-- No mark begins with a space or a word. -/
theorem exists_head_mark (m : Mark) :
    ∃ c rest, m.spelling.toList = c :: rest ∧ Token.isMarkChar c = true := by
  rcases Token.spelling_mark m with ⟨c, spelled, own, -⟩ | ⟨c, d, spelled, own, -⟩
  · exact ⟨c, [], spelled, own⟩
  · exact ⟨c, [d], spelled, own⟩

variable {sp : Spelling}

theorem numeral_of_reads {x : Float} (reads : sp.Reads (.number x)) :
    ∃ before digits after, sp.numeral x = before ++ digits ++ after ∧
      (∀ d ∈ before, Text.isBlank d = true) ∧ Token.IsNumeral x digits ∧
      ∀ d ∈ after, Text.isBlank d = true :=
  Token.exists_of_scan_number reads.1

theorem isWord_of_reads {s : String} (reads : sp.Reads (.name s)) : Token.IsWord s.toList :=
  (Token.isWord_of_scan_name reads).1

/-- What a number begins with. -/
theorem head_numeral {x : Float} (reads : sp.Reads (.number x)) :
    ∃ c rest, sp.numeral x = c :: rest ∧
      (Text.isBlank c = true ∨ c.isDigit = true ∨ c = '.') := by
  obtain ⟨before, digits, after, eq, blank, numeral, -⟩ := numeral_of_reads reads
  rw [eq]
  cases before with
  | cons c before => exact ⟨c, _, rfl, .inl (blank c List.mem_cons_self)⟩
  | nil =>
    obtain ⟨c, rest, rfl⟩ := List.exists_cons_of_ne_nil numeral.ne_nil
    exact ⟨c, _, rfl, .inr (numeral.digit_or_point c List.mem_cons_self)⟩

theorem text_ne_nil {token : Token} (reads : sp.Reads token) : sp.text token ≠ [] := by
  cases token with
  | number x =>
    obtain ⟨c, rest, eq, -⟩ := head_numeral reads
    rw [Spelling.text, eq]
    exact List.cons_ne_nil c rest
  | string s => exact List.cons_ne_nil _ _
  | name s => exact (isWord_of_reads reads).ne_nil
  | keyword word => exact (isWord_keyword word).ne_nil
  | mark m =>
    obtain ⟨c, rest, eq, -⟩ := exists_head_mark m
    rw [Spelling.text, eq]
    exact List.cons_ne_nil c rest

/-- A text begins like its first token. -/
theorem head?_render {token : Token} {rest : List Token} (reads : sp.Reads token) :
    (sp.render (token :: rest)).head? = (sp.text token).head? := by
  obtain ⟨c, tail, eq⟩ := List.exists_cons_of_ne_nil (text_ne_nil reads)
  rw [Spelling.render, eq]
  rfl

/-- A text that ends in no word runs into nothing. -/
theorem runsInto_of_last {left right : List Char}
    (h : ∀ c ∈ left.getLast?, Text.isWordChar c = false) : runsInto left right = false := by
  rw [runsInto]
  cases eq : left.getLast? with
  | none => rfl
  | some c => simp [h c eq]

/-- Nothing runs into a text that begins with no word and no space. -/
theorem runsInto_of_head {left right : List Char}
    (h : ∀ c ∈ right.head?, Text.isWordChar c = false ∧ isSpace c = false) :
    runsInto left right = false := by
  rw [runsInto]
  cases eq : right.head? with
  | none => simp
  | some c => simp [h c eq]

-- ================================================================= scanning

/-- What may stand directly behind a token. -/
def Token.EndsBefore (rest : List Char) : Token → Prop
  | number _ => ∀ d ∈ rest.head?, d.isDigit = false ∧ d ≠ '.'
  | string _ => True
  | name _ | keyword _ => ∀ d ∈ rest.head?, Text.isWordChar d = false
  | mark m => ∀ d ∈ rest.head?, standsBefore m d = true

/-- A written token is scanned as this token. -/
theorem scan_text {token : Token} {rest : List Char} (reads : sp.Reads token)
    (ends : token.EndsBefore rest) :
    Token.scan (sp.text token ++ rest) = (Token.scan rest).map (token :: ·) := by
  cases token with
  | number x =>
    obtain ⟨before, digits, after, eq, blank, numeral, blank'⟩ := numeral_of_reads reads
    have stop : ∀ d ∈ (after ++ rest).head?, d.isDigit = false ∧ d ≠ '.' := by
      cases after with
      | nil => exact ends
      | cons d after =>
        intro _ mem
        cases mem
        exact Token.endsNumber_of_isBlank (blank' d List.mem_cons_self)
    rw [Spelling.text, eq, List.append_assoc, List.append_assoc, Token.scan_blanks blank,
      Token.scan_numeral numeral stop, Token.scan_blanks blank']
  | string s =>
    rw [Spelling.text, List.append_assoc, List.singleton_append, Token.scan_string sp.isMark,
      String.ofList_toList]
  | name s =>
    obtain ⟨word, own⟩ := Token.isWord_of_scan_name reads
    rw [Spelling.text, Token.scan_word word ends, String.ofList_toList, own]
  | keyword word =>
    rw [Spelling.text, Token.scan_word (isWord_keyword word) ends, String.ofList_toList,
      ofWord_keyword]
  | mark m => exact Token.scan_mark ends

/-- The space between two texts is not scanned. -/
theorem scan_gap (left right rest : List Char) :
    Token.scan (gap left right ++ rest) = Token.scan rest := by
  refine Token.scan_blanks ?_
  rw [gap]
  split
  · exact List.forall_mem_singleton.2 (by decide)
  · exact List.forall_mem_nil _

/-- No mark runs into a character that ends no mark, save a point. -/
theorem standsBefore_of_notMem {m : Mark} {d : Char} (h : d ∉ ['+', '-', '=', '&', '|'])
    (point : m = .dot → d.isDigit = false) : Token.standsBefore m d = true := by
  rw [Token.standsBefore, Token.longMark?_eq_none h]
  by_cases dot : m = .dot
  · simp [point dot]
  · simp [dot]

theorem mark_of_point {m : Mark} {rest : List Char} (spelled : m.spelling.toList = '.' :: rest) :
    m = .dot := by
  cases m <;> first | rfl | (revert spelled; simp [Mark.spelling])

theorem isDigit_of_beginsName {c : Char} (begins : Text.beginsName c = true) :
    c.isDigit = false := by
  by_cases digit : c.isDigit = true
  · rw [Text.beginsName_of_isDigit digit] at begins
    cases begins
  · exact eq_false_of_ne_true digit

theorem isDigit_of_isMark {c : Char} (isMark : Quote.isMark c = true) : c.isDigit = false := by
  rcases Token.eq_of_isMark isMark with rfl | rfl <;> rfl

/-- What begins a word or a number ends no mark. -/
theorem notMem_of_class {d : Char} (h : Text.beginsName d = true ∨ Text.isBlank d = true ∨
      d.isDigit = true ∨ d = '.' ∨ Quote.isMark d = true) :
    d ∉ ['+', '-', '=', '&', '|'] := by
  intro mem
  simp only [List.mem_cons, List.not_mem_nil, or_false] at mem
  rcases mem with rfl | rfl | rfl | rfl | rfl <;> revert h <;> decide

/-- A space ends every token. -/
theorem endsBefore_space (token : Token) (rest : List Char) :
    token.EndsBefore (' ' :: rest) := by
  cases token with
  | string s => trivial
  | number x | name s | keyword word =>
    intro d mem
    cases mem
    decide
  | mark m =>
    intro d mem
    cases mem
    exact standsBefore_of_notMem (by decide) fun _ => by decide

/-- A word ends where it does not run into what follows. -/
theorem isWordChar_of_apart {word rest : List Char} (own : Token.IsWord word)
    (apart : ¬runsInto word rest = true) : ∀ d ∈ rest.head?, Text.isWordChar d = false := by
  intro d mem
  obtain ⟨c, last⟩ := Option.isSome_iff_exists.1 (List.getLast?_isSome.2 own.ne_nil)
  have := own.isWordChar c (List.mem_of_getLast? last)
  rw [runsInto, last, mem] at apart
  simp [this] at apart
  exact apart.1

/-- A number ends before a token that fits it. -/
theorem endsNumber_of_fits {x : Float} {next : Token}
    (fits : (Token.number x).fits next = true) :
    ∀ d ∈ (sp.text next).head?, d.isDigit = false ∧ d ≠ '.' := by
  cases next with
  | number | string | name | keyword => cases fits
  | mark m =>
    obtain ⟨c, tail, spelled, own⟩ := exists_head_mark m
    intro d mem
    rw [Spelling.text, spelled] at mem
    cases mem
    refine ⟨(Token.classes_of_isMarkChar own).2.2.2, ?_⟩
    intro point
    subst point
    rw [Token.fits, mark_of_point spelled] at fits
    cases fits

/-- A mark ends before a token that fits it. -/
theorem standsBefore_of_fits {m : Mark} {next : Token} (reads : sp.Reads next)
    (fits : (Token.mark m).fits next = true) :
    ∀ d ∈ (sp.text next).head?, Token.standsBefore m d = true := by
  intro d mem
  cases next with
  | mark n => rwa [Token.fits, show n.spelling.toList.head? = some d from mem] at fits
  | number x =>
    obtain ⟨c, tail, spelled, cls⟩ := head_numeral reads
    rw [Spelling.text, spelled] at mem
    cases mem
    refine standsBefore_of_notMem (notMem_of_class ?_) fun dot => ?_
    · rcases cls with blank | digit | point
      · exact .inr (.inl blank)
      · exact .inr (.inr (.inl digit))
      · exact .inr (.inr (.inr (.inl point)))
    · subst dot
      cases fits
  | string s =>
    cases mem
    exact standsBefore_of_notMem (notMem_of_class (.inr (.inr (.inr (.inr sp.isMark)))))
      fun _ => isDigit_of_isMark sp.isMark
  | name s =>
    obtain ⟨c, tail, spelled, begins, -⟩ := isWord_of_reads reads
    rw [Spelling.text, spelled] at mem
    cases mem
    exact standsBefore_of_notMem (notMem_of_class (.inl begins))
      fun _ => isDigit_of_beginsName begins
  | keyword w =>
    obtain ⟨c, tail, spelled, begins, -⟩ := isWord_keyword w
    rw [Spelling.text, spelled] at mem
    cases mem
    exact standsBefore_of_notMem (notMem_of_class (.inl begins))
      fun _ => isDigit_of_beginsName begins

/-- The gap between two tokens that fit separates them. -/
theorem endsBefore_of_fits {token : Token} {rest : List Token} (reads : sp.Reads token)
    (behind : ∀ next ∈ rest.head?, sp.Reads next ∧ token.fits next = true) :
    token.EndsBefore (gap (sp.text token) (sp.render rest) ++ sp.render rest) := by
  rw [gap]
  by_cases runs : runsInto (sp.text token) (sp.render rest) = true
  · rw [if_pos runs]
    exact endsBefore_space token (sp.render rest)
  · rw [if_neg runs, List.nil_append]
    -- only numbers and marks ask what the next token is
    have head : ∀ d ∈ (sp.render rest).head?, ∃ next, d ∈ (sp.text next).head? ∧
        sp.Reads next ∧ token.fits next = true := by
      intro d mem
      cases rest with
      | nil => cases mem
      | cons next rest =>
        obtain ⟨readsNext, fits⟩ := behind next rfl
        rw [head?_render readsNext] at mem
        exact ⟨next, mem, readsNext, fits⟩
    cases token with
    | string s => trivial
    | name s => exact isWordChar_of_apart (isWord_of_reads reads) runs
    | keyword word => exact isWordChar_of_apart (isWord_keyword word) runs
    | number x =>
      intro d mem
      obtain ⟨next, own, -, fits⟩ := head d mem
      exact endsNumber_of_fits fits d own
    | mark m =>
      intro d mem
      obtain ⟨next, own, readsNext, fits⟩ := head d mem
      exact standsBefore_of_fits readsNext fits d own

/-- Tokens that fit scan as they are written. -/
theorem scan_render {tokens : List Token} (reads : ∀ token ∈ tokens, sp.Reads token)
    (fit : Fit tokens) : Token.scan (sp.render tokens) = .ok tokens := by
  induction tokens with
  | nil => rw [Spelling.render, Token.scan]
  | cons token rest ih =>
    obtain ⟨first, others⟩ := List.forall_mem_cons.1 reads
    have behind : ∀ next ∈ rest.head?, sp.Reads next ∧ token.fits next = true := by
      cases rest with
      | nil =>
        intro _ mem
        cases mem
      | cons next rest =>
        intro _ mem
        cases mem
        exact ⟨others next List.mem_cons_self, (List.isChain_cons_cons.1 fit).1⟩
    rw [Spelling.render, List.append_assoc,
      scan_text first (endsBefore_of_fits first behind), scan_gap,
      ih others (List.IsChain.tail fit)]
    rfl

-- ================================================================= one line

theorem ne_lineEnd_of_isMark {quote : Char} (isMark : Quote.isMark quote = true) :
    quote ≠ '\n' := by
  intro same
  subst same
  cases isMark

theorem notMem_escape {quote : Char} (isMark : Quote.isMark quote = true) (c : Char) :
    '\n' ∉ Token.escape quote c := by
  rw [Token.escape]
  by_cases special : c = quote ∨ c = '\\'
  · rw [if_pos special]
    rcases special with rfl | rfl
    · simp [(ne_lineEnd_of_isMark isMark).symm]
    · decide
  · rw [if_neg special]
    by_cases lineEnd : c = '\n'
    · rw [if_pos lineEnd]
      decide
    · rw [if_neg lineEnd, List.mem_singleton]
      exact fun same => lineEnd same.symm

theorem notMem_of_isWordChar {text : List Char} (word : ∀ c ∈ text, Text.isWordChar c = true) :
    '\n' ∉ text := by
  intro mem
  have := word '\n' mem
  revert this
  decide

/-- Tokens are written on one line. -/
theorem notMem_text {token : Token} (reads : sp.Reads token) : '\n' ∉ sp.text token := by
  cases token with
  | number x => exact reads.2
  | string s =>
    intro mem
    rw [Spelling.text, List.mem_append, List.mem_cons, List.mem_flatMap] at mem
    have apart : '\n' ≠ sp.quote := (ne_lineEnd_of_isMark sp.isMark).symm
    rcases mem with (own | ⟨c, -, inside⟩) | own
    · exact apart own
    · exact notMem_escape sp.isMark c inside
    · exact apart (List.mem_singleton.1 own)
  | name s => exact notMem_of_isWordChar (isWord_of_reads reads).isWordChar
  | keyword word => exact notMem_of_isWordChar (isWord_keyword word).isWordChar
  | mark m =>
    show '\n' ∉ m.spelling.toList
    cases m <;> decide

theorem notMem_render {tokens : List Token} (reads : ∀ token ∈ tokens, sp.Reads token) :
    '\n' ∉ sp.render tokens := by
  induction tokens with
  | nil => exact List.not_mem_nil
  | cons token rest ih =>
    obtain ⟨first, others⟩ := List.forall_mem_cons.1 reads
    rw [Spelling.render, List.mem_append, List.mem_append]
    intro mem
    rcases mem with (own | between) | behind
    · exact notMem_text first own
    · revert between
      rw [gap]
      split <;> decide
    · exact ih others behind

end RoutineScript
