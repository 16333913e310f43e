/-
Scanning: a text cut into tokens. Blanks separate tokens and are dropped.
Names and numbers reach as far as they can, and of two marks that begin
alike the longer one is taken. A point belongs to a number only when a digit
follows it.

Each step takes one token from the front of the text and leaves a text that
is no longer, which is why scanning ends.
-/
import RoutineScript.Token

namespace RoutineScript

/-- The ways in which a text is no sequence of tokens. -/
inductive ScanFault where
  | unterminatedEscape
  | unterminatedString
  | unexpected (c : Char)
  deriving DecidableEq, Repr

/-- The explanation of a scanning failure. -/
def ScanFault.message : ScanFault → String
  | unterminatedEscape => "unterminated escape in string literal"
  | unterminatedString => "unterminated string literal"
  | unexpected c => "unexpected character '" ++ c.toString ++ "'"

namespace Token

-- ================================================================= literals

/-- The character that an escape stands for. -/
def unescape : Char → Char
  | 'n' => '\n'
  | 't' => '\t'
  | 'r' => '\r'
  | '0' => '\x00'
  | c => c

/-- The contents of a string literal up to its closing quote, and what
follows the quote. A backslash has just been read when `escaped` is set. -/
def scanString (quote : Char) (escaped : Bool) :
    List Char → Except ScanFault (List Char × List Char)
  | [] => .error (if escaped then .unterminatedEscape else .unterminatedString)
  | c :: rest =>
    if escaped then
      (scanString quote false rest).map fun (contents, after) => (unescape c :: contents, after)
    else if c = quote then .ok ([], rest)
    else if c = '\\' then scanString quote true rest
    else (scanString quote false rest).map fun (contents, after) => (c :: contents, after)

/-- The digits behind a point, if a point and a digit come next. -/
def scanFraction : List Char → List Char × List Char
  | '.' :: d :: rest =>
    if d.isDigit then ((d :: rest).takeWhile Char.isDigit, (d :: rest).dropWhile Char.isDigit)
    else ([], '.' :: d :: rest)
  | text => ([], text)

/-- The number at the front of a text. -/
def scanNumber (text : List Char) : Token × List Char :=
  let (fraction, rest) := scanFraction (text.dropWhile Char.isDigit)
  (number (Number.ofLiteral (text.takeWhile Char.isDigit) fraction), rest)

/-- The token of a word. -/
def ofWord (word : String) : Token :=
  match Keyword.ofSpelling? word with
  | some k => keyword k
  | none => name word

-- ==================================================================== marks

/-- The mark of two characters that begins with the first and ends with the
second. -/
def longMark? (first second : Char) : Option Mark :=
  match first, second with
  | '+', '+' => some .plusPlus
  | '+', '=' => some .plusEq
  | '-', '-' => some .minusMinus
  | '-', '=' => some .minusEq
  | '*', '=' => some .starEq
  | '/', '=' => some .slashEq
  | '%', '=' => some .percentEq
  | '=', '=' => some .eqEq
  | '!', '=' => some .notEq
  | '<', '=' => some .le
  | '>', '=' => some .ge
  | '&', '&' => some .andAnd
  | '|', '|' => some .orOr
  | _, _ => none

/-- The mark of one character. -/
def shortMark? : Char → Option Mark
  | '+' => some .plus
  | '-' => some .minus
  | '*' => some .star
  | '/' => some .slash
  | '%' => some .percent
  | '=' => some .eq
  | '!' => some .bang
  | '<' => some .lt
  | '>' => some .gt
  | '.' => some .dot
  | ',' => some .comma
  | '(' => some .lparen
  | ')' => some .rparen
  | '[' => some .lbracket
  | ']' => some .rbracket
  | '{' => some .lbrace
  | '}' => some .rbrace
  | ';' => some .semicolon
  | _ => none

/-- The mark at the front of a text that begins with `c`. -/
def scanMark (c : Char) (rest : List Char) : Except ScanFault (Token × List Char) :=
  let short : Except ScanFault (Token × List Char) :=
    match shortMark? c with
    | some m => .ok (mark m, rest)
    | none => .error (.unexpected c)
  match rest with
  | [] => short
  | d :: after =>
    match longMark? c d with
    | some m => .ok (mark m, after)
    | none => short

-- =================================================================== tokens

/-- The token at the front of a text that begins with `c`, and what follows
it. -/
def scanOne (c : Char) (rest : List Char) : Except ScanFault (Token × List Char) :=
  if c = '"' ∨ c = '\'' then
    (scanString c false rest).map fun (contents, after) => (string (String.ofList contents), after)
  else if c.isDigit || (c == '.' && rest.head?.any Char.isDigit) then
    .ok (scanNumber (c :: rest))
  else if Text.beginsName c then
    .ok (ofWord (String.ofList (c :: rest.takeWhile Text.isWordChar)),
      rest.dropWhile Text.isWordChar)
  else scanMark c rest

theorem length_scanString {quote : Char} {escaped : Bool} {text contents after : List Char}
    (h : scanString quote escaped text = .ok (contents, after)) :
    after.length < text.length := by
  induction text generalizing escaped contents with
  | nil => simp [scanString] at h
  | cons c rest ih =>
    have step : ∀ {e : Bool} {d : Char},
        (scanString quote e rest).map (fun p => (d :: p.1, p.2)) = .ok (contents, after) →
          after.length < (c :: rest).length := by
      intro e d hm
      cases hs : scanString quote e rest with
      | error fault => simp [hs, Except.map] at hm
      | ok p =>
        simp only [hs, Except.map, Except.ok.injEq, Prod.mk.injEq] at hm
        have := ih (hs.trans (congrArg Except.ok (Prod.ext rfl hm.2)))
        simp only [List.length_cons]
        omega
    simp only [scanString] at h
    split at h
    · exact step h
    · split at h
      · simp_all
      · split at h
        · exact Nat.lt_succ_of_lt (ih h)
        · exact step h

theorem length_scanFraction_le (text : List Char) :
    (scanFraction text).2.length ≤ text.length := by
  unfold scanFraction
  split
  · rename_i d rest
    have := (List.dropWhile_sublist Char.isDigit (l := d :: rest)).length_le
    split
    · exact Nat.le_succ_of_le this
    · exact Nat.le_refl _
  · exact Nat.le_refl _

theorem length_scanNumber {c : Char} {rest : List Char}
    (h : (c.isDigit || (c == '.' && rest.head?.any Char.isDigit)) = true) :
    (scanNumber (c :: rest)).2.length ≤ rest.length := by
  unfold scanNumber
  by_cases hc : c.isDigit = true
  · have h₁ := length_scanFraction_le ((c :: rest).dropWhile Char.isDigit)
    have h₂ := (List.dropWhile_sublist Char.isDigit (l := rest)).length_le
    simp only [List.dropWhile_cons, hc, ↓reduceIte] at *
    exact Nat.le_trans h₁ h₂
  · simp only [hc, Bool.false_or, Bool.and_eq_true, beq_iff_eq] at h
    obtain ⟨rfl, hd⟩ := h
    rcases rest with _ | ⟨d, rest⟩
    · simp at hd
    · have := (List.dropWhile_sublist Char.isDigit (l := d :: rest)).length_le
      simp only [List.head?_cons, Option.any_some] at hd
      simpa [scanFraction, hd] using this

theorem length_scanMark {c : Char} {rest after : List Char} {token : Token}
    (h : scanMark c rest = .ok (token, after)) : after.length ≤ rest.length := by
  unfold scanMark at h
  grind

/-- A step takes at least one character. -/
theorem length_scanOne {c : Char} {rest after : List Char} {token : Token}
    (h : scanOne c rest = .ok (token, after)) : after.length ≤ rest.length := by
  unfold scanOne at h
  split at h
  · cases hs : scanString c false rest with
    | error e => simp [hs, Except.map] at h
    | ok p =>
      obtain ⟨contents, after'⟩ := p
      simp only [hs, Except.map, Except.ok.injEq, Prod.mk.injEq] at h
      rw [← h.2]
      exact Nat.le_of_lt (length_scanString hs)
  · split at h
    · rename_i hn
      have := length_scanNumber hn
      simp only [Except.ok.injEq] at h
      simpa [h] using this
    · split at h
      · simp only [Except.ok.injEq, Prod.mk.injEq] at h
        rw [← h.2]
        exact (List.dropWhile_sublist _).length_le
      · exact length_scanMark h

/-- The tokens of a text. -/
def scan (text : List Char) : Except ScanFault (List Token) :=
  match text with
  | [] => .ok []
  | c :: rest =>
    if Text.isBlank c then scan rest
    else
      match _h : scanOne c rest with
      | .error e => .error e
      | .ok (token, after) => (scan after).map (token :: ·)
termination_by text.length
decreasing_by
  · simp
  · have := length_scanOne _h
    simp only [List.length_cons]
    omega

end Token

end RoutineScript
