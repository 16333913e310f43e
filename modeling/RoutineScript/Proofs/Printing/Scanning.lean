/-
How the scanner takes one token off the front of a text, and the converse:
what a text must look like that scans as one name or as one number.

A name ends before the first character of no word, a number before the first
character that is neither a digit nor a point, and a mark before any
character that does not make it a longer one. These three conditions on the
character behind a token are all that printing has to respect.
-/
import RoutineScript.Source.Quote
import RoutineScript.Token.Scan

namespace RoutineScript

-- ==================================================== classes of characters

namespace Text

/-- A property of all characters of a range of code points. -/
theorem forall_of_range {p : Char → Prop} {first last : Nat}
    (h : ∀ n ∈ List.range' first (last + 1 - first), p (Char.ofNat n)) {c : Char}
    (lower : first ≤ c.toNat) (upper : c.toNat ≤ last) : p c := by
  have mem : c.toNat ∈ List.range' first (last + 1 - first) := by
    rw [List.mem_range'_1]
    omega
  have := h c.toNat mem
  rwa [Char.ofNat_toNat] at this

/-- Blanks belong to no word. -/
theorem isWordChar_of_isBlank {c : Char} (blank : isBlank c = true) : isWordChar c = false := by
  have all : ∀ r ∈ blankRanges, ∀ n ∈ List.range' r.1 (r.2 + 1 - r.1),
      isWordChar (Char.ofNat n) = false := by
    decide +kernel
  obtain ⟨r, mem, lower, upper⟩ := exists_of_inRanges blank
  exact forall_of_range (p := fun c => isWordChar c = false) (all r mem) lower upper

theorem isBlank_of_isWordChar {c : Char} (word : isWordChar c = true) : isBlank c = false := by
  by_cases blank : isBlank c = true
  · rw [isWordChar_of_isBlank blank] at word
    cases word
  · exact eq_false_of_ne_true blank

/-- The code points of the digits. -/
theorem toNat_of_isDigit {c : Char} (digit : c.isDigit = true) :
    48 ≤ c.toNat ∧ c.toNat ≤ 57 := by
  simp only [Char.isDigit, Bool.and_eq_true, decide_eq_true_eq, ge_iff_le,
    UInt32.le_iff_toNat_le] at digit
  exact digit

/-- No name begins with a digit. -/
theorem beginsName_of_isDigit {c : Char} (digit : c.isDigit = true) :
    beginsName c = false := by
  obtain ⟨lower, upper⟩ := toNat_of_isDigit digit
  exact forall_of_range (p := fun c => beginsName c = false) (by decide) lower upper

end Text

/-- A run of characters of one class ends where the next character is of
another. -/
theorem takeWhile_run {p : Char → Bool} {run rest : List Char} (inside : ∀ c ∈ run, p c = true)
    (ends : ∀ d ∈ rest.head?, p d = false) :
    (run ++ rest).takeWhile p = run ∧ (run ++ rest).dropWhile p = rest := by
  rw [List.takeWhile_append_of_pos inside, List.dropWhile_append_of_pos inside]
  cases rest with
  | nil => simp
  | cons d rest => simp [ends d rfl]

namespace Token

-- ============================================================ one step on

theorem scan_cons {c : Char} {rest after : List Char} {token : Token}
    (solid : Text.isBlank c = false) (one : scanOne c rest = .ok (token, after)) :
    scan (c :: rest) = (scan after).map (token :: ·) := by
  rw [scan, solid]
  simp only [Bool.false_eq_true, ↓reduceIte]
  split
  · rename_i eq
    cases one.symm.trans eq
  · rename_i eq
    cases one.symm.trans eq
    rfl

/-- Blanks in front of a text do not matter. -/
theorem scan_blanks {blanks rest : List Char} (blank : ∀ c ∈ blanks, Text.isBlank c = true) :
    scan (blanks ++ rest) = scan rest := by
  induction blanks with
  | nil => rfl
  | cons c blanks ih =>
    rw [List.cons_append, scan, blank c List.mem_cons_self, if_pos rfl]
    exact ih fun d mem => blank d (List.mem_cons_of_mem _ mem)

/-- A text of no tokens is blank. -/
theorem isBlank_of_scan_nil {text : List Char} (scanned : scan text = .ok []) :
    ∀ c ∈ text, Text.isBlank c = true := by
  induction text with
  | nil => simp
  | cons c rest ih =>
    rw [scan] at scanned
    by_cases blank : Text.isBlank c = true
    · rw [if_pos blank] at scanned
      exact List.forall_mem_cons.2 ⟨blank, ih scanned⟩
    · rw [if_neg blank] at scanned
      split at scanned
      · cases scanned
      · rename_i token after eq
        cases tail : scan after with
        | error fault =>
          rw [tail] at scanned
          cases scanned
        | ok tokens =>
          rw [tail] at scanned
          cases scanned

/-- A text of one token is that token between blanks. -/
theorem exists_of_scan_singleton {text : List Char} {token : Token}
    (scanned : scan text = .ok [token]) :
    ∃ before c rest after, text = before ++ c :: rest ∧
      (∀ d ∈ before, Text.isBlank d = true) ∧ Text.isBlank c = false ∧
      scanOne c rest = .ok (token, after) ∧ ∀ d ∈ after, Text.isBlank d = true := by
  induction text with
  | nil =>
    rw [scan] at scanned
    cases scanned
  | cons c rest ih =>
    rw [scan] at scanned
    by_cases blank : Text.isBlank c = true
    · rw [if_pos blank] at scanned
      obtain ⟨before, d, rest', after, rfl, blanks, solid, one, behind⟩ := ih scanned
      exact ⟨c :: before, d, rest', after, rfl,
        List.forall_mem_cons.2 ⟨blank, blanks⟩, solid, one, behind⟩
    · rw [if_neg blank] at scanned
      split at scanned
      · cases scanned
      · rename_i found after eq
        cases tail : scan after with
        | error fault =>
          rw [tail] at scanned
          cases scanned
        | ok tokens =>
          rw [tail] at scanned
          cases scanned
          exact ⟨[], c, rest, after, rfl, by simp, eq_false_of_ne_true blank, eq,
            isBlank_of_scan_nil tail⟩

-- ================================================================= literals

/-- How a character is written in a literal: the quote, the backslash and
the line end behind a backslash, every other one as it is. -/
def escape (quote c : Char) : List Char :=
  if c = quote ∨ c = '\\' then ['\\', c]
  else if c = '\n' then ['\\', 'n']
  else [c]

theorem eq_of_isMark {c : Char} (isMark : Quote.isMark c = true) : c = '\'' ∨ c = '"' := by
  rwa [Quote.isMark, Bool.or_eq_true, beq_iff_eq, beq_iff_eq] at isMark

theorem unescape_quote {quote : Char} (isMark : Quote.isMark quote = true) :
    unescape quote = quote := by
  rcases eq_of_isMark isMark with rfl | rfl <;> rfl

theorem ne_backslash_of_isMark {quote : Char} (isMark : Quote.isMark quote = true) :
    quote ≠ '\\' := by
  intro same
  subst same
  cases isMark

/-- What is escaped scans as what it was. -/
theorem scanString_escape {quote : Char} (isMark : Quote.isMark quote = true)
    (contents rest : List Char) :
    scanString quote false (contents.flatMap (escape quote) ++ quote :: rest)
      = .ok (contents, rest) := by
  have distinct := ne_backslash_of_isMark isMark
  induction contents with
  | nil => simp [scanString]
  | cons c contents ih =>
    rw [List.flatMap_cons, List.append_assoc, escape]
    by_cases special : c = quote ∨ c = '\\'
    · rw [if_pos special]
      have restored : unescape c = c := by
        rcases special with rfl | rfl
        · exact unescape_quote isMark
        · rfl
      simp [scanString, distinct.symm, ih, Except.map, restored]
    · rw [if_neg special]
      obtain ⟨notQuote, notBackslash⟩ := not_or.1 special
      by_cases lineEnd : c = '\n'
      · rw [if_pos lineEnd, lineEnd]
        simp [scanString, distinct.symm, ih, Except.map, unescape]
      · rw [if_neg lineEnd]
        simp [scanString, notQuote, notBackslash, ih, Except.map]

theorem scan_string {quote : Char} (isMark : Quote.isMark quote = true)
    (contents rest : List Char) :
    scan (quote :: contents.flatMap (escape quote) ++ quote :: rest)
      = (scan rest).map (string (String.ofList contents) :: ·) := by
  have either := eq_of_isMark isMark
  rw [List.cons_append]
  refine scan_cons ?_ ?_
  · rcases either with rfl | rfl <;> decide
  · rw [scanOne, if_pos either.symm, scanString_escape isMark]
    rfl

-- ==================================================================== words

/-- A text that is one word and does not begin with a numeral. -/
def IsWord (text : List Char) : Prop :=
  ∃ c rest, text = c :: rest ∧ Text.beginsName c = true ∧ ∀ d ∈ rest, Text.isWordChar d = true

theorem IsWord.isWordChar {text : List Char} (word : IsWord text) :
    ∀ c ∈ text, Text.isWordChar c = true := by
  obtain ⟨c, rest, rfl, begins, behind⟩ := word
  exact List.forall_mem_cons.2 ⟨Text.isWordChar_of_beginsName begins, behind⟩

theorem IsWord.ne_nil {text : List Char} (word : IsWord text) : text ≠ [] := by
  obtain ⟨c, rest, rfl, -⟩ := word
  exact List.cons_ne_nil c rest

/-- The word at the front of a text, when it begins with a letter. -/
theorem scanOne_word {c : Char} {rest : List Char} (begins : Text.beginsName c = true) :
    scanOne c rest = .ok (ofWord (String.ofList (c :: rest.takeWhile Text.isWordChar)),
      rest.dropWhile Text.isWordChar) := by
  have noQuote : ¬(c = '"' ∨ c = '\'') := by
    rintro (rfl | rfl) <;> revert begins <;> decide
  have noDigit : c.isDigit = false := by
    by_cases digit : c.isDigit = true
    · rw [Text.beginsName_of_isDigit digit] at begins
      cases begins
    · exact eq_false_of_ne_true digit
  have noPoint : (c == '.') = false := by
    rw [beq_eq_false_iff_ne]
    intro same
    subst same
    revert begins
    decide
  rw [scanOne, if_neg noQuote, noDigit, noPoint, if_neg (by simp), if_pos begins]

theorem scan_word {text rest : List Char} (word : IsWord text)
    (ends : ∀ d ∈ rest.head?, Text.isWordChar d = false) :
    scan (text ++ rest) = (scan rest).map (ofWord (String.ofList text) :: ·) := by
  obtain ⟨c, tail, rfl, begins, behind⟩ := word
  obtain ⟨taken, left⟩ := takeWhile_run behind ends
  have solid := Text.isBlank_of_isWordChar (Text.isWordChar_of_beginsName begins)
  rw [List.cons_append]
  refine scan_cons solid ?_
  rw [scanOne_word begins, taken, left]

/-- What kind of token a step of the scanner takes shows in its first
character. -/
theorem beginsName_of_scanOne_name {c : Char} {rest after : List Char} {s : String}
    (one : scanOne c rest = .ok (name s, after)) : Text.beginsName c = true := by
  unfold scanOne at one
  split at one
  · cases eq : scanString c false rest <;> rw [eq] at one <;> cases one
  · split at one
    · cases one
    · split at one
      · assumption
      · unfold scanMark at one
        grind

theorem scanNumber_of_scanOne_number {c : Char} {rest after : List Char} {x : Float}
    (one : scanOne c rest = .ok (number x, after)) :
    (c.isDigit || (c == '.' && rest.head?.any Char.isDigit)) = true
      ∧ scanNumber (c :: rest) = (number x, after) := by
  unfold scanOne at one
  split at one
  · cases eq : scanString c false rest <;> rw [eq] at one <;> cases one
  · split at one
    · rename_i digits
      exact ⟨digits, Except.ok.inj one⟩
    · split at one
      · unfold ofWord at one
        grind
      · unfold scanMark at one
        grind

/-- A text that scans as a name is that name and nothing else. -/
theorem isWord_of_scan_name {s : String} (scanned : scan s.toList = .ok [name s]) :
    IsWord s.toList ∧ ofWord s = name s := by
  obtain ⟨before, c, rest, after, split, -, -, one, -⟩ := exists_of_scan_singleton scanned
  have begins := beginsName_of_scanOne_name one
  rw [scanOne_word begins] at one
  have word : ofWord (String.ofList (c :: rest.takeWhile Text.isWordChar)) = name s :=
    congrArg Prod.fst (Except.ok.inj one)
  have spelled : c :: rest.takeWhile Text.isWordChar = s.toList := by
    unfold ofWord at word
    split at word
    · cases word
    · rw [← name.inj word, String.toList_ofList]
  -- the word reaches to the end of the text, so nothing stands around it
  have none : before = [] ∧ rest.takeWhile Text.isWordChar = rest := by
    have short := (List.takeWhile_sublist Text.isWordChar (l := rest)).length_le
    have long := congrArg List.length (spelled.trans split)
    simp only [List.length_cons, List.length_append] at long
    refine ⟨List.eq_nil_of_length_eq_zero (by omega), ?_⟩
    exact (List.takeWhile_sublist _).eq_of_length (by omega)
  rw [spelled, String.ofList_toList] at word
  refine ⟨⟨c, rest, ?_, begins, ?_⟩, word⟩
  · rw [← spelled, none.2]
  · rw [← none.2]
    intro d mem
    exact List.all_eq_true.1 List.all_takeWhile d mem

-- ================================================================== numbers

/-- The texts that spell a number: digits, or a point between digits of
which only those behind it are needed. -/
inductive IsNumeral : Float → List Char → Prop where
  | whole {digits : List Char} (some : digits ≠ []) (all : ∀ c ∈ digits, c.isDigit = true) :
    IsNumeral (Number.ofLiteral digits []) digits
  | fraction {digits places : List Char} (all : ∀ c ∈ digits, c.isDigit = true)
      (some : places ≠ []) (behind : ∀ c ∈ places, c.isDigit = true) :
    IsNumeral (Number.ofLiteral digits places) (digits ++ '.' :: places)

theorem IsNumeral.ne_nil {x : Float} {text : List Char} (numeral : IsNumeral x text) :
    text ≠ [] := by
  cases numeral with
  | whole some => exact some
  | fraction => simp

theorem IsNumeral.digit_or_point {x : Float} {text : List Char} (numeral : IsNumeral x text) :
    ∀ c ∈ text, c.isDigit = true ∨ c = '.' := by
  intro c mem
  cases numeral with
  | whole _ all => exact .inl (all c mem)
  | fraction all _ behind =>
    rcases List.mem_append.1 mem with front | back
    · exact .inl (all c front)
    · exact (List.mem_cons.1 back).elim .inr fun place => .inl (behind c place)

/-- Neither digits nor points are blanks. -/
theorem isBlank_of_digit_or_point {c : Char} (h : c.isDigit = true ∨ c = '.') :
    Text.isBlank c = false := by
  rcases h with digit | rfl
  · exact Text.isBlank_of_isWordChar (Text.isWordChar_of_isDigit digit)
  · decide

theorem endsNumber_of_isBlank {d : Char} (blank : Text.isBlank d = true) :
    d.isDigit = false ∧ d ≠ '.' := by
  constructor
  · by_cases digit : d.isDigit = true
    · rw [isBlank_of_digit_or_point (.inl digit)] at blank
      cases blank
    · exact eq_false_of_ne_true digit
  · intro same
    subst same
    rw [isBlank_of_digit_or_point (.inr rfl)] at blank
    cases blank

theorem scan_of_scanNumber {x : Float} {c : Char} {rest after : List Char}
    (begins : (c.isDigit || (c == '.' && rest.head?.any Char.isDigit)) = true)
    (one : scanNumber (c :: rest) = (number x, after)) :
    scan (c :: rest) = (scan after).map (number x :: ·) := by
  have noQuote : ¬(c = '"' ∨ c = '\'') := by
    rintro (rfl | rfl)
    · exact Bool.false_ne_true begins
    · exact Bool.false_ne_true begins
  refine scan_cons (isBlank_of_digit_or_point ?_) ?_
  · rw [Bool.or_eq_true, Bool.and_eq_true, beq_iff_eq] at begins
    exact begins.imp_right And.left
  · rw [scanOne, if_neg noQuote, if_pos begins]
    exact congrArg Except.ok one

theorem scanNumber_eq (text : List Char) :
    scanNumber text =
      (number (Number.ofLiteral (text.takeWhile Char.isDigit)
        (scanFraction (text.dropWhile Char.isDigit)).1),
      (scanFraction (text.dropWhile Char.isDigit)).2) :=
  rfl

theorem scanFraction_of_head {text : List Char} (h : ∀ d ∈ text.head?, d ≠ '.') :
    scanFraction text = ([], text) := by
  unfold scanFraction
  split
  · exact absurd rfl (h '.' rfl)
  · rfl

/-- A numeral is read as its number. -/
theorem scan_numeral {x : Float} {text rest : List Char} (numeral : IsNumeral x text)
    (ends : ∀ d ∈ rest.head?, d.isDigit = false ∧ d ≠ '.') :
    scan (text ++ rest) = (scan rest).map (number x :: ·) := by
  have stop : ∀ d ∈ rest.head?, d.isDigit = false := fun d mem => (ends d mem).1
  cases numeral with
  | whole some all =>
    obtain ⟨taken, left⟩ := takeWhile_run all stop
    have one : scanNumber (text ++ rest) = (number (Number.ofLiteral text []), rest) := by
      rw [scanNumber, taken, left, scanFraction_of_head fun d mem => (ends d mem).2]
    cases text with
    | nil => exact absurd rfl some
    | cons c text =>
      exact scan_of_scanNumber (by rw [all c List.mem_cons_self, Bool.true_or]) one
  | @fraction digits places all some behind =>
    have point : ∀ d ∈ ('.' :: (places ++ rest)).head?, d.isDigit = false := by
      intro d mem
      cases mem
      rfl
    obtain ⟨taken, left⟩ := takeWhile_run all point
    obtain ⟨taken', left'⟩ := takeWhile_run behind stop
    obtain ⟨p, places', rfl⟩ := List.exists_cons_of_ne_nil some
    have digit : p.isDigit = true := behind p List.mem_cons_self
    have one : scanNumber (digits ++ '.' :: (p :: places' ++ rest))
        = (number (Number.ofLiteral digits (p :: places')), rest) := by
      rw [scanNumber, taken, left]
      rw [List.cons_append] at taken' left' ⊢
      rw [scanFraction, if_pos digit, taken', left']
    rw [List.append_assoc, List.cons_append]
    cases digits with
    | nil => exact scan_of_scanNumber (by simp [digit]) one
    | cons c digits =>
      exact scan_of_scanNumber (by rw [all c List.mem_cons_self, Bool.true_or]) one

/-- What is taken as a number is spelled like one, if only blanks are left
behind it. -/
theorem exists_of_scanNumber {x : Float} {c : Char} {rest after : List Char}
    (begins : (c.isDigit || (c == '.' && rest.head?.any Char.isDigit)) = true)
    (one : scanNumber (c :: rest) = (number x, after))
    (blank : ∀ d ∈ after, Text.isBlank d = true) :
    ∃ text, c :: rest = text ++ after ∧ IsNumeral x text := by
  have split := List.takeWhile_append_dropWhile (p := Char.isDigit) (l := c :: rest)
  have all : ∀ d ∈ (c :: rest).takeWhile Char.isDigit, d.isDigit = true :=
    List.all_eq_true.1 List.all_takeWhile
  have noPoint : '.' ∉ after := by
    intro mem
    have := blank '.' mem
    revert this
    decide
  rw [scanNumber_eq] at one
  generalize (c :: rest).takeWhile Char.isDigit = digits at *
  generalize eq : (c :: rest).dropWhile Char.isDigit = behind at *
  unfold scanFraction at one
  split at one
  · rename_i d places
    by_cases digit : d.isDigit = true
    · rw [if_pos digit] at one
      obtain ⟨rfl, rfl⟩ := one
      refine ⟨digits ++ '.' :: (d :: places).takeWhile Char.isDigit, ?_, .fraction all ?_ ?_⟩
      · rw [List.append_assoc, List.cons_append, List.takeWhile_append_dropWhile, split]
      · simp [digit]
      · exact List.all_eq_true.1 List.all_takeWhile
    · rw [if_neg digit] at one
      obtain ⟨rfl, rfl⟩ := one
      exact absurd List.mem_cons_self noPoint
  · obtain ⟨rfl, rfl⟩ := one
    refine ⟨digits, split.symm, .whole ?_ all⟩
    -- a numeral without digits begins with the point of its fraction
    intro same
    subst same
    rw [List.nil_append] at split
    subst split
    rw [Bool.or_eq_true, Bool.and_eq_true, beq_iff_eq] at begins
    rcases begins with digit | ⟨rfl, -⟩
    · rw [List.dropWhile_cons_of_pos digit] at eq
      have := (List.dropWhile_sublist Char.isDigit (l := rest)).length_le
      rw [eq, List.length_cons] at this
      omega
    · exact noPoint List.mem_cons_self

/-- A text that scans as a number is a numeral between blanks. -/
theorem exists_of_scan_number {x : Float} {text : List Char}
    (scanned : scan text = .ok [number x]) :
    ∃ before numeral after, text = before ++ numeral ++ after ∧
      (∀ d ∈ before, Text.isBlank d = true) ∧ IsNumeral x numeral ∧
      ∀ d ∈ after, Text.isBlank d = true := by
  obtain ⟨before, c, rest, after, rfl, blanks, -, one, behind⟩ :=
    exists_of_scan_singleton scanned
  obtain ⟨begins, taken⟩ := scanNumber_of_scanOne_number one
  obtain ⟨numeral, eq, isNumeral⟩ := exists_of_scanNumber begins taken behind
  exact ⟨before, numeral, after, by rw [eq, List.append_assoc], blanks, isNumeral, behind⟩

-- ==================================================================== marks

/-- A character that marks are made of. -/
def isMarkChar (c : Char) : Bool :=
  !Text.isBlank c && !Quote.isMark c && !Text.isWordChar c

theorem classes_of_isMarkChar {c : Char} (own : isMarkChar c = true) :
    Text.isBlank c = false ∧ Quote.isMark c = false ∧ Text.isWordChar c = false ∧
      c.isDigit = false := by
  rw [isMarkChar] at own
  simp only [Bool.and_eq_true, Bool.not_eq_true'] at own
  obtain ⟨⟨noBlank, noQuote⟩, noWord⟩ := own
  refine ⟨noBlank, noQuote, noWord, ?_⟩
  by_cases digit : c.isDigit = true
  · rw [Text.isWordChar_of_isDigit digit] at noWord
    cases noWord
  · exact eq_false_of_ne_true digit

/-- A mark is a character that scans as it alone, or two that do together. -/
theorem spelling_mark (m : Mark) :
    (∃ c, m.spelling.toList = [c] ∧ isMarkChar c = true ∧ shortMark? c = some m) ∨
      ∃ c d, m.spelling.toList = [c, d] ∧ isMarkChar c = true ∧ longMark? c d = some m := by
  cases m with
  | plusPlus | minusMinus | plusEq | minusEq | starEq | slashEq | percentEq | eqEq | notEq
  | le | ge | andAnd | orOr => exact .inr ⟨_, _, rfl, by decide, rfl⟩
  | plus | minus | star | slash | percent | eq | bang | lt | gt | dot | comma
  | lparen | rparen | lbracket | rbracket | lbrace | rbrace | semicolon =>
    exact .inl ⟨_, rfl, by decide, rfl⟩

/-- The only characters that end a long mark. -/
theorem longMark?_eq_none {c d : Char} (h : d ∉ ['+', '-', '=', '&', '|']) :
    longMark? c d = none := by
  unfold longMark?
  split <;> first | rfl | exact absurd (by decide) h

/-- Whether a mark in front of a character does not run into it. -/
def standsBefore (m : Mark) (d : Char) : Bool :=
  (longMark? (m.spelling.toList.getLast?.getD ' ') d).isNone && !(m == .dot && d.isDigit)

theorem scanOne_mark {c : Char} {rest : List Char} (own : isMarkChar c = true)
    (point : c = '.' → ∀ d ∈ rest.head?, d.isDigit = false) :
    scanOne c rest = scanMark c rest := by
  obtain ⟨-, noQuote, noWord, noDigit⟩ := classes_of_isMarkChar own
  rw [Quote.isMark, Bool.or_eq_false_iff, beq_eq_false_iff_ne, beq_eq_false_iff_ne] at noQuote
  have noName : Text.beginsName c = false := by
    by_cases begins : Text.beginsName c = true
    · rw [Text.isWordChar_of_beginsName begins] at noWord
      cases noWord
    · exact eq_false_of_ne_true begins
  have noFraction : (c == '.' && rest.head?.any Char.isDigit) = false := by
    by_cases dot : c = '.'
    · cases rest with
      | nil => simp
      | cons d rest => simp [point dot d rfl]
    · simp [dot]
  rw [scanOne, if_neg (not_or.2 ⟨noQuote.2, noQuote.1⟩), noDigit, noFraction, noName]
  simp

theorem scan_mark {m : Mark} {rest : List Char}
    (ends : ∀ d ∈ rest.head?, standsBefore m d = true) :
    scan (m.spelling.toList ++ rest) = (scan rest).map (mark m :: ·) := by
  rcases spelling_mark m with ⟨c, spelled, own, short⟩ | ⟨c, d, spelled, own, long⟩
  · have alone : ∀ d ∈ rest.head?, longMark? c d = none := by
      intro d mem
      have := ends d mem
      rw [standsBefore, spelled, Bool.and_eq_true, Option.isNone_iff_eq_none] at this
      exact this.1
    have point : c = '.' → ∀ d ∈ rest.head?, d.isDigit = false := by
      rintro rfl d mem
      cases short
      have := ends d mem
      rw [standsBefore, Bool.and_eq_true] at this
      simpa using this.2
    rw [spelled, List.singleton_append]
    refine scan_cons (classes_of_isMarkChar own).1 ?_
    rw [scanOne_mark own point]
    cases rest with
    | nil => rw [scanMark, short]
    | cons d rest => rw [scanMark, alone d rfl, short]
  · have noPoint : c ≠ '.' := by
      intro same
      subst same
      simp [longMark?] at long
    rw [spelled, List.cons_append, List.singleton_append]
    refine scan_cons (classes_of_isMarkChar own).1 ?_
    rw [scanOne_mark own fun dot => absurd dot noPoint, scanMark, long]

end Token

end RoutineScript
