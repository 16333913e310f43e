/-
Lexemes: the texts that the scanner takes as one token, and what may stand
directly behind one.

A lexeme ends where the scanner cannot go on with it. A word goes on with any
character of words, a number with digits or, once, with a point and a digit;
one character goes on to a mark of two, and a point to a number. A literal
and a mark of two characters never go on. `Token.runsOn` says just this, so a
lexeme in front of a text is taken as its token exactly when it does not run
on into the text.

Of what follows a lexeme only the first character matters to it, and the one
behind a point (`Token.runsOn_of_front`), and a blank ends every lexeme. A text
that is scanned to its end is therefore scanned the same way in front of a
blank, whatever stands behind that (`Token.scan_append_blank`).
-/
import RoutineScript.Proofs.Printing.Spelling

namespace RoutineScript.Token

-- ================================================================= lexemes

/-- The texts that are scanned as one token. -/
inductive Lexeme : Token → List Char → Prop where
  | literal {quote : Char} {body contents : List Char} (isMark : Quote.isMark quote = true)
      (closes : ∀ rest, scanString quote false (body ++ rest) = .ok (contents, rest)) :
      Lexeme (string (String.ofList contents)) (quote :: body)
  | word {text : List Char} (word : IsWord text) : Lexeme (ofWord (String.ofList text)) text
  | numeral {x : Float} {text : List Char} (numeral : IsNumeral x text) : Lexeme (number x) text
  | short {c : Char} {m : Mark} (spelled : shortMark? c = some m) : Lexeme (mark m) [c]
  | long {c d : Char} {m : Mark} (spelled : longMark? c d = some m) : Lexeme (mark m) [c, d]

/-- Whether a text begins with a point and a digit. -/
def beginsFraction : List Char → Bool
  | [] => false
  | c :: rest => c == '.' && rest.head?.any Char.isDigit

/-- Whether the scanner, in front of `rest`, goes on behind a lexeme of this
token. -/
def runsOn (lexeme rest : List Char) : Token → Bool
  | string _ => false
  | name _ | keyword _ => rest.head?.any Text.isWordChar
  | number _ => rest.head?.any Char.isDigit || (!lexeme.contains '.' && beginsFraction rest)
  | mark _ =>
    match lexeme with
    | [c] => rest.head?.any fun d => (longMark? c d).isSome || (c == '.' && d.isDigit)
    | _ => false

-- ==================================================== classes of characters

/-- What the marks of one character begin with. -/
theorem isMarkChar_of_shortMark? {c : Char} {m : Mark} (spelled : shortMark? c = some m) :
    isMarkChar c = true := by
  unfold shortMark? at spelled
  split at spelled <;> first | decide | cases spelled

/-- What the marks of two characters are made of. -/
theorem isMarkChar_of_longMark? {c d : Char} {m : Mark} (spelled : longMark? c d = some m) :
    isMarkChar c = true ∧ isMarkChar d = true := by
  unfold longMark? at spelled
  split at spelled <;> first | decide | cases spelled

theorem isWordChar_of_runsOn_eq_false {lexeme rest word : List Char}
    (ends : (ofWord (String.ofList word)).runsOn lexeme rest = false) :
    ∀ d ∈ rest.head?, Text.isWordChar d = false := by
  intro d mem
  unfold ofWord at ends
  split at ends
  · rw [runsOn, mem] at ends
    exact ends
  · rw [runsOn, mem] at ends
    exact ends

-- ================================================================ literals

/-- A literal closes at a character, or goes on behind it and closes where the
rest of it does. -/
theorem scanString_cons {quote c : Char} {escaped : Bool} {text contents after : List Char}
    (isMark : Quote.isMark quote = true)
    (scanned : scanString quote escaped (c :: text) = .ok (contents, after)) :
    ((Quote.inside quote escaped).step c = .outside ∧ text = after ∧
        ∀ rest, scanString quote escaped (c :: rest) = .ok (contents, rest)) ∨
      ∃ next contents', (Quote.inside quote escaped).step c = .inside quote next ∧
        scanString quote next text = .ok (contents', after) ∧
        ∀ rest left, scanString quote next rest = .ok (contents', left) →
          scanString quote escaped (c :: rest) = .ok (contents, left) := by
  -- the character stands for another one, and the literal goes on
  have goesOn : ∀ {next : Bool} {d : Char},
      (Quote.inside quote escaped).step c = .inside quote next →
      (∀ rest, scanString quote escaped (c :: rest)
        = (scanString quote next rest).map fun found => (d :: found.1, found.2)) →
      ∃ next contents', (Quote.inside quote escaped).step c = .inside quote next ∧
        scanString quote next text = .ok (contents', after) ∧
        ∀ rest left, scanString quote next rest = .ok (contents', left) →
          scanString quote escaped (c :: rest) = .ok (contents, left) := by
    intro next d steps unfolds
    rw [unfolds] at scanned
    cases inner : scanString quote next text with
    | error fault =>
      rw [inner] at scanned
      cases scanned
    | ok found =>
      rw [inner] at scanned
      cases scanned
      refine ⟨next, found.1, steps, inner, fun rest left closes => ?_⟩
      rw [unfolds, closes]
      rfl
  by_cases isEscaped : escaped = true
  · subst isEscaped
    exact .inr (goesOn rfl fun rest => by rw [scanString, if_pos rfl])
  · by_cases isQuote : c = quote
    · have notBackslash := ne_backslash_of_isMark isMark
      rw [scanString, if_neg isEscaped, if_pos isQuote] at scanned
      cases scanned
      refine .inl ⟨?_, rfl, fun rest => by rw [scanString, if_neg isEscaped, if_pos isQuote]⟩
      simp [Quote.step, isEscaped, isQuote, notBackslash]
    · by_cases isBackslash : c = '\\'
      · rw [scanString, if_neg isEscaped, if_neg isQuote, if_pos isBackslash] at scanned
        refine .inr ⟨true, contents, ?_, scanned, fun rest left closes => ?_⟩
        · simp [Quote.step, isEscaped, isBackslash]
        · rw [scanString, if_neg isEscaped, if_neg isQuote, if_pos isBackslash, closes]
      · refine .inr (@goesOn false c ?_ fun rest => ?_)
        · simp [Quote.step, isEscaped, isQuote, isBackslash]
        · rw [scanString, if_neg isEscaped, if_neg isQuote, if_neg isBackslash]

/-- A literal that closes does so whatever follows it. -/
theorem exists_of_scanString {quote : Char} {escaped : Bool} {text contents after : List Char}
    (isMark : Quote.isMark quote = true)
    (scanned : scanString quote escaped text = .ok (contents, after)) :
    ∃ body, text = body ++ after ∧
      ∀ rest, scanString quote escaped (body ++ rest) = .ok (contents, rest) := by
  induction text generalizing escaped contents with
  | nil => cases scanned
  | cons c text ih =>
    rcases scanString_cons isMark scanned with ⟨-, rfl, closes⟩ | ⟨next, contents', -, inner, back⟩
    · exact ⟨[c], rfl, closes⟩
    · obtain ⟨body, rfl, closes⟩ := ih inner
      exact ⟨c :: body, rfl, fun rest => back _ _ (closes rest)⟩

-- ================================================================= numbers

theorem exists_of_beginsFraction {text : List Char} (fraction : beginsFraction text = true) :
    ∃ d rest, text = '.' :: d :: rest ∧ d.isDigit = true := by
  cases text with
  | nil => cases fraction
  | cons c rest =>
    rw [beginsFraction, Bool.and_eq_true, beq_iff_eq] at fraction
    obtain ⟨rfl, digit⟩ := fraction
    cases rest with
    | nil => cases digit
    | cons d rest => exact ⟨d, rest, rfl, digit⟩

theorem scanFraction_of_beginsFraction {text : List Char} (whole : beginsFraction text = false) :
    scanFraction text = ([], text) := by
  unfold scanFraction
  split
  · rename_i d rest
    have noDigit : d.isDigit = false := by simpa [beginsFraction] using whole
    rw [if_neg (by simp [noDigit])]
  · rfl

/-- The rest of a run does not begin with a character of the run. -/
theorem any_head?_dropWhile (p : Char → Bool) (text : List Char) :
    (text.dropWhile p).head?.any p = false := by
  have := List.head?_dropWhile_not p text
  cases found : (text.dropWhile p).head? with
  | none => rfl
  | some c =>
    rw [found] at this
    simpa using this

theorem contains_point_of_digits {digits : List Char} (all : ∀ c ∈ digits, c.isDigit = true) :
    digits.contains '.' = false := by
  rw [List.contains_eq_mem, decide_eq_false_iff_not]
  intro mem
  cases all '.' mem

/-- A numeral begins with a digit, or with a point and a digit. -/
theorem IsNumeral.begins {x : Float} {c : Char} {text : List Char}
    (numeral : IsNumeral x (c :: text)) (rest : List Char) :
    (c.isDigit || (c == '.' && (text ++ rest).head?.any Char.isDigit)) = true := by
  generalize eq : c :: text = whole at numeral
  cases numeral with
  | whole _ all =>
    subst eq
    rw [all c List.mem_cons_self, Bool.true_or]
  | @fraction digits places all some behind =>
    cases digits with
    | nil =>
      cases eq
      obtain ⟨p, places, rfl⟩ := List.exists_cons_of_ne_nil some
      rw [List.cons_append, List.head?_cons, Option.any_some, behind p List.mem_cons_self,
        beq_self_eq_true, Bool.and_true, Bool.or_true]
    | cons d digits =>
      cases eq
      rw [all c List.mem_cons_self, Bool.true_or]

/-- A numeral is taken as its number where it does not run on. -/
theorem scanNumber_numeral {x : Float} {text rest : List Char} (numeral : IsNumeral x text)
    (ends : (number x).runsOn text rest = false) : scanNumber (text ++ rest) = (number x, rest) := by
  rw [runsOn, Bool.or_eq_false_iff] at ends
  obtain ⟨noDigit, noPoint⟩ := ends
  have stop : ∀ d ∈ rest.head?, d.isDigit = false := by
    intro d mem
    rw [mem] at noDigit
    exact noDigit
  cases numeral with
  | whole some all =>
    have pointless := contains_point_of_digits all
    rw [pointless, Bool.not_false, Bool.true_and] at noPoint
    obtain ⟨taken, left⟩ := takeWhile_run all stop
    rw [scanNumber, taken, left, scanFraction_of_beginsFraction noPoint]
  | @fraction digits places all some behind =>
    have point : ∀ d ∈ ('.' :: (places ++ rest)).head?, d.isDigit = false := by
      intro d mem
      cases mem
      rfl
    obtain ⟨taken, left⟩ := takeWhile_run all point
    obtain ⟨taken', left'⟩ := takeWhile_run behind stop
    obtain ⟨p, places', rfl⟩ := List.exists_cons_of_ne_nil some
    have digit : p.isDigit = true := behind p List.mem_cons_self
    rw [List.append_assoc, List.cons_append, scanNumber, taken, left]
    rw [List.cons_append] at taken' left' ⊢
    rw [scanFraction, if_pos digit, taken', left']

/-- What is taken as a number is a numeral that does not run on. -/
theorem exists_numeral {x : Float} {c : Char} {rest after : List Char}
    (begins : (c.isDigit || (c == '.' && rest.head?.any Char.isDigit)) = true)
    (one : scanNumber (c :: rest) = (number x, after)) :
    ∃ text, rest = text ++ after ∧ IsNumeral x (c :: text) ∧
      (number x).runsOn (c :: text) after = false := by
  have split := List.takeWhile_append_dropWhile (p := Char.isDigit) (l := c :: rest)
  have all : ∀ d ∈ (c :: rest).takeWhile Char.isDigit, d.isDigit = true :=
    List.all_eq_true.1 List.all_takeWhile
  have noDigit := any_head?_dropWhile Char.isDigit (c :: rest)
  -- it is enough to find the whole numeral, for it begins with the first character
  have enough : ∀ text, c :: rest = text ++ after → IsNumeral x text →
      (number x).runsOn text after = false → ∃ text, rest = text ++ after ∧
        IsNumeral x (c :: text) ∧ (number x).runsOn (c :: text) after = false := by
    intro text eq numeral ends
    obtain ⟨d, text', rfl⟩ := List.exists_cons_of_ne_nil numeral.ne_nil
    rw [List.cons_append, List.cons.injEq] at eq
    obtain ⟨rfl, rfl⟩ := eq
    exact ⟨text', rfl, numeral, ends⟩
  rw [scanNumber_eq] at one
  generalize (c :: rest).takeWhile Char.isDigit = digits at *
  generalize eq : (c :: rest).dropWhile Char.isDigit = behind at *
  unfold scanFraction at one
  split at one
  · rename_i d places
    by_cases digit : d.isDigit = true
    · rw [if_pos digit] at one
      obtain ⟨rfl, rfl⟩ := one
      refine enough (digits ++ '.' :: (d :: places).takeWhile Char.isDigit) ?_
        (.fraction all (by simp [digit]) (List.all_eq_true.1 List.all_takeWhile)) ?_
      · rw [List.append_assoc, List.cons_append, List.takeWhile_append_dropWhile, split]
      · simp [runsOn, any_head?_dropWhile]
    · rw [if_neg digit] at one
      obtain ⟨rfl, rfl⟩ := one
      refine enough digits split.symm (.whole ?_ all) ?_
      · rintro rfl
        rw [List.nil_append, List.cons.injEq] at split
        obtain ⟨rfl, rfl⟩ := split
        simp [digit] at begins
      · simp [runsOn, beginsFraction, digit]
  · rename_i pointless
    obtain ⟨rfl, rfl⟩ := one
    refine enough digits split.symm (.whole ?_ all) ?_
    · -- a numeral without digits begins with the point of its fraction
      rintro rfl
      rw [List.nil_append] at split
      subst split
      rw [Bool.or_eq_true, Bool.and_eq_true, beq_iff_eq] at begins
      rcases begins with digit | ⟨rfl, fraction⟩
      · rw [List.head?_cons, Option.any_some, digit] at noDigit
        cases noDigit
      · cases rest with
        | nil => cases fraction
        | cons d rest => exact pointless d rest rfl
    · have whole : beginsFraction behind = false := by
        refine eq_false_of_ne_true fun fraction => ?_
        obtain ⟨d, rest, eq', -⟩ := exists_of_beginsFraction fraction
        exact pointless d rest eq'
      simp [runsOn, noDigit, whole]

-- ================================================================== marks

theorem scanOne_short {c : Char} {rest : List Char} {m : Mark} (spelled : shortMark? c = some m)
    (ends : (mark m).runsOn [c] rest = false) : scanOne c rest = .ok (mark m, rest) := by
  rw [runsOn] at ends
  have point : c = '.' → ∀ d ∈ rest.head?, d.isDigit = false := by
    rintro rfl d mem
    rw [mem, Option.any_some, Bool.or_eq_false_iff] at ends
    exact ends.2
  rw [scanOne_mark (isMarkChar_of_shortMark? spelled) point]
  cases rest with
  | nil => rw [scanMark, spelled]
  | cons d rest =>
    rw [List.head?_cons, Option.any_some, Bool.or_eq_false_iff, Option.isSome_eq_false_iff,
      Option.isNone_iff_eq_none] at ends
    rw [scanMark, spelled, ends.1]

theorem scanOne_long {c d : Char} {rest : List Char} {m : Mark}
    (spelled : longMark? c d = some m) : scanOne c (d :: rest) = .ok (mark m, rest) := by
  have noPoint : c ≠ '.' := by
    rintro rfl
    simp [longMark?] at spelled
  rw [scanOne_mark (isMarkChar_of_longMark? spelled).1 fun dot => absurd dot noPoint, scanMark,
    spelled]

/-- A mark of two characters is taken where there is one, and otherwise a mark
of one. -/
theorem scanMark_cases {c : Char} {rest : List Char} {found : Token × List Char}
    (one : scanMark c rest = .ok found) :
    (∃ d after m, rest = d :: after ∧ longMark? c d = some m ∧ (mark m, after) = found) ∨
      ∃ m, (∀ d ∈ rest.head?, longMark? c d = none) ∧ shortMark? c = some m ∧
        (mark m, rest) = found := by
  cases rest with
  | nil =>
    rw [scanMark] at one
    cases short : shortMark? c with
    | none =>
      rw [short] at one
      cases one
    | some m =>
      rw [short] at one
      exact .inr ⟨m, by simp, rfl, Except.ok.inj one⟩
  | cons d after =>
    rw [scanMark] at one
    cases long : longMark? c d with
    | some m =>
      rw [long] at one
      exact .inl ⟨d, after, m, rfl, long, Except.ok.inj one⟩
    | none =>
      rw [long] at one
      cases short : shortMark? c with
      | none =>
        rw [short] at one
        cases one
      | some m =>
        rw [short] at one
        exact .inr ⟨m, by simpa using long, rfl, Except.ok.inj one⟩

/-- What is taken as a mark is spelled like one and does not run on. -/
theorem exists_mark {c : Char} {rest after : List Char} {token : Token}
    (noFraction : (c == '.' && rest.head?.any Char.isDigit) = false)
    (one : scanMark c rest = .ok (token, after)) :
    ∃ text, rest = text ++ after ∧ Lexeme token (c :: text) ∧
      token.runsOn (c :: text) after = false := by
  rcases scanMark_cases one with ⟨d, rest, m, rfl, spelled, found⟩ | ⟨m, alone, spelled, found⟩
  · cases found
    exact ⟨[d], rfl, .long spelled, rfl⟩
  · cases found
    refine ⟨[], rfl, .short spelled, ?_⟩
    cases rest with
    | nil => rfl
    | cons d rest => simpa [runsOn, alone d rfl] using noFraction

-- =============================================================== one lexeme

/-- The scanner takes a lexeme, and it stops where the lexeme does not run
on. -/
theorem exists_lexeme {c : Char} {rest after : List Char} {token : Token}
    (one : scanOne c rest = .ok (token, after)) :
    ∃ text, rest = text ++ after ∧ Lexeme token (c :: text) ∧
      token.runsOn (c :: text) after = false := by
  unfold scanOne at one
  split at one
  · rename_i quotes
    cases scanned : scanString c false rest with
    | error fault =>
      rw [scanned] at one
      cases one
    | ok found =>
      rw [scanned] at one
      cases one
      have isMark : Quote.isMark c = true := by
        rcases quotes with rfl | rfl <;> rfl
      obtain ⟨body, eq, closes⟩ := exists_of_scanString isMark scanned
      exact ⟨body, eq, .literal isMark closes, rfl⟩
  · split at one
    · rename_i begins
      obtain rfl : number _ = token := congrArg Prod.fst (Except.ok.inj one)
      obtain ⟨text, eq, numeral, ends⟩ := exists_numeral begins (Except.ok.inj one)
      exact ⟨text, eq, .numeral numeral, ends⟩
    · split at one
      · rename_i begins
        cases one
        refine ⟨rest.takeWhile Text.isWordChar, (List.takeWhile_append_dropWhile).symm,
          .word ⟨c, _, rfl, begins, List.all_eq_true.1 List.all_takeWhile⟩, ?_⟩
        unfold ofWord
        split <;> exact any_head?_dropWhile Text.isWordChar rest
      · rename_i noNumber _
        rw [Bool.not_eq_true, Bool.or_eq_false_iff] at noNumber
        exact exists_mark noNumber.2 one

/-- A lexeme is taken as its token in front of what it does not run on
into. -/
theorem scanOne_lexeme {c : Char} {text rest : List Char} {token : Token}
    (lexeme : Lexeme token (c :: text)) (ends : token.runsOn (c :: text) rest = false) :
    scanOne c (text ++ rest) = .ok (token, rest) := by
  generalize eq : c :: text = whole at lexeme
  cases lexeme with
  | literal isMark closes =>
    cases eq
    rw [scanOne, if_pos (eq_of_isMark isMark).symm, closes]
    rfl
  | word word =>
    obtain ⟨d, behind, rfl, begins, all⟩ := word
    cases eq
    obtain ⟨taken, left⟩ := takeWhile_run all (isWordChar_of_runsOn_eq_false ends)
    rw [scanOne_word begins, taken, left]
  | numeral numeral =>
    cases eq
    have digits := numeral.begins rest
    have noQuote : ¬(c = '"' ∨ c = '\'') := by
      rintro (rfl | rfl) <;> exact Bool.false_ne_true digits
    rw [scanOne, if_neg noQuote, if_pos digits, ← List.cons_append,
      scanNumber_numeral numeral ends]
  | short spelled =>
    cases eq
    exact scanOne_short spelled ends
  | long spelled =>
    cases eq
    exact scanOne_long spelled

/-- A lexeme is taken as its token exactly where it does not run on. -/
theorem scanOne_lexeme_iff {c : Char} {text rest : List Char} {token : Token}
    (lexeme : Lexeme token (c :: text)) :
    scanOne c (text ++ rest) = .ok (token, rest) ↔ token.runsOn (c :: text) rest = false := by
  refine ⟨fun one => ?_, scanOne_lexeme lexeme⟩
  obtain ⟨text', eq, -, ends⟩ := exists_lexeme one
  rwa [List.append_cancel_right eq]

-- ============================================================= what follows

section Follows

variable {token : Token} {lexeme rest : List Char} {c : Char}

theorem runsOn_nil : token.runsOn lexeme [] = false := by
  cases token with
  | mark m =>
    unfold runsOn
    dsimp only
    split <;> rfl
  | _ => simp [runsOn, beginsFraction]

/-- A blank ends every lexeme. -/
theorem runsOn_blank (blank : Text.isBlank c = true) : token.runsOn lexeme (c :: rest) = false := by
  have noWord := Text.isWordChar_of_isBlank blank
  obtain ⟨noDigit, noPoint⟩ := endsNumber_of_isBlank blank
  cases token with
  | mark m =>
    unfold runsOn
    dsimp only
    split
    · next d =>
      have alone : longMark? d c = none :=
        longMark?_eq_none (notMem_of_class (.inr (.inl blank)))
      simp [alone, noDigit]
    · rfl
  | _ => simp [runsOn, beginsFraction, noWord, noDigit, noPoint]

/-- Of what stands behind a lexeme only the first character matters, and
whether a digit follows a point. -/
theorem runsOn_of_front {rest' : List Char} (ends : token.runsOn lexeme (c :: rest) = false)
    (point : c = '.' → rest'.head?.any Char.isDigit = true → rest.head?.any Char.isDigit = true) :
    token.runsOn lexeme (c :: rest') = false := by
  cases token with
  | number x =>
    rw [runsOn, Bool.or_eq_false_iff, Bool.and_eq_false_iff] at ends ⊢
    refine ⟨ends.1, ends.2.imp_right fun whole => ?_⟩
    rw [beginsFraction, Bool.and_eq_false_iff] at whole ⊢
    by_cases dot : c = '.'
    · refine .inr (eq_false_of_ne_true fun digit => ?_)
      rw [point dot digit, dot] at whole
      cases whole <;> contradiction
    · exact .inl (beq_eq_false_iff_ne.2 dot)
  | _ => exact ends

/-- A lexeme that ends within a text ends there too when a blank and more
follow the text. -/
theorem runsOn_append_blank {after : List Char} (ends : token.runsOn lexeme after = false)
    (blank : Text.isBlank c = true) : token.runsOn lexeme (after ++ c :: rest) = false := by
  cases after with
  | nil => exact runsOn_blank blank
  | cons d after =>
    refine runsOn_of_front ends fun _ digit => ?_
    cases after with
    | nil =>
      have noDigit : c.isDigit = false := (endsNumber_of_isBlank blank).1
      replace digit : c.isDigit = true := digit
      rw [noDigit] at digit
      cases digit
    | cons e after => exact digit

end Follows

/-- **A blank keeps the tokens of two texts apart.** A text that scans as some
tokens scans as them in front of a blank too: behind them come the tokens of
what follows the blank, or the fault that this fails with. -/
theorem scan_append_blank {text : List Char} {tokens : List Token} {blank : Char}
    (rest : List Char) (scanned : scan text = .ok tokens) (isBlank : Text.isBlank blank = true) :
    scan (text ++ blank :: rest) = (scan rest).map (tokens ++ ·) := by
  fun_induction scan text generalizing tokens with
  | case1 =>
    cases scanned
    have skipped : scan ([blank] ++ rest) = scan rest :=
      scan_blanks (List.forall_mem_singleton.2 isBlank)
    rw [List.nil_append, ← List.singleton_append, skipped]
    cases scan rest <;> rfl
  | case2 c text own ih =>
    have skipped : scan ([c] ++ (text ++ blank :: rest)) = scan (text ++ blank :: rest) :=
      scan_blanks (List.forall_mem_singleton.2 own)
    rw [List.cons_append, ← List.singleton_append, skipped, ih scanned]
  | case3 => cases scanned
  | case4 c text solid token after one ih =>
    obtain ⟨behind, others, rfl⟩ : ∃ behind, scan after = .ok behind ∧ token :: behind = tokens := by
      cases others : scan after with
      | error fault =>
        rw [others] at scanned
        cases scanned
      | ok behind =>
        rw [others] at scanned
        exact ⟨behind, rfl, Except.ok.inj scanned⟩
    -- the lexeme at the front ends where it did, so it is the same token
    obtain ⟨lexeme, rfl, isLexeme, ends⟩ := exists_lexeme one
    have ends' : token.runsOn (c :: lexeme) (after ++ blank :: rest) = false :=
      runsOn_append_blank ends isBlank
    have same := scanOne_lexeme isLexeme ends'
    rw [List.cons_append, List.append_assoc, scan_cons (eq_false_of_ne_true solid) same, ih others]
    cases scan rest <;> rfl

/-- Two minuses with a blank between them are no decrement. -/
theorem scan_append_blank_of_minuses : scan ['a', '-'] = .ok [name "a", mark .minus] ∧
    Text.isBlank '\t' = true ∧
    scan (['a', '-'] ++ '\t' :: ['-', 'b']) =
      (scan ['-', 'b']).map ([name "a", mark .minus] ++ ·) := by
  have scanned : scan ['a', '-'] = .ok [name "a", mark .minus] := by decide +kernel
  exact ⟨scanned, by decide, scan_append_blank ['-', 'b'] scanned (by decide)⟩

end RoutineScript.Token
