/-
The scanner on texts in which every literal closes.

The scanner keeps no `Quote`: it takes a literal as one token and goes on from
there. Where it comes to stand (`Token.Comes`) no literal is open, because a
token is either a literal up to its closing quote or quotes nothing.

So the scanner sees the same literals as a scan that carries a `Quote` along:
a delimiter or a terminator is a token of its own outside of literals, and
inside it is hidden in the token of the literal (`Token.quotes_of_scanOne`). A
literal that closes is one the scanner can take, and what it takes for a
numeral reads as a number, so what is left to fail at is a character that
begins no token (`Token.unexpected_of_scan`).
-/
import RoutineScript.Proofs.Source.Lexemes
import RoutineScript.Proofs.Source.Literals

namespace RoutineScript

/-- The characters that structure a text outside of literals. -/
def isStructure (c : Char) : Bool :=
  isDelimiter c || c == ';'

theorem isStructure_cases {c : Char} (structural : isStructure c = true) :
    c ∈ ['(', '[', '{', ')', ']', '}', ';'] := by
  rw [isStructure, Bool.or_eq_true, beq_iff_eq] at structural
  rcases structural with delimiter | rfl
  · exact List.mem_append_left [';'] (isDelimiter_cases delimiter)
  · decide

namespace Token

-- ================================================================ characters

section Characters

variable {c d : Char} {text : List Char} {token : Token}

theorem noWord_of_isStructure (structural : isStructure c = true) :
    Text.isWordChar c = false ∧ c.isDigit = false ∧ c ≠ '.' := by
  have mem := isStructure_cases structural
  simp only [List.mem_cons, List.not_mem_nil, or_false] at mem
  rcases mem with rfl | rfl | rfl | rfl | rfl | rfl | rfl <;> decide

theorem noMark_of_isWordChar (word : Text.isWordChar c = true) : Quote.isMark c = false := by
  rw [← Bool.not_eq_true]
  intro isMark
  rcases eq_of_isMark isMark with rfl | rfl <;> revert word <;> decide

theorem isDigit_or_point {x : Float} (numeral : IsNumeral x text) (mem : c ∈ text) :
    c.isDigit = true ∨ c = '.' := by
  cases numeral with
  | whole _ all => exact .inl (all c mem)
  | fraction all _ behind =>
    rcases List.mem_append.1 mem with mem | mem
    · exact .inl (all c mem)
    · rcases List.mem_cons.1 mem with point | mem
      · exact .inr point
      · exact .inl (behind c mem)

/-- What structures a text is a token of its own, or stands in a literal. -/
theorem plain_of_lexeme (lexeme : Lexeme token text) :
    (∃ quote body contents, text = quote :: body ∧ Quote.isMark quote = true ∧
      ∀ rest, scanString quote false (body ++ rest) = .ok (contents, rest)) ∨
    (∀ c ∈ text, Quote.isMark c = false) ∧
      ∀ before d behind, text = before ++ d :: behind → isStructure d = true → before = [] := by
  cases lexeme with
  | literal isMark closes => exact .inl ⟨_, _, _, rfl, isMark, closes⟩
  | word word =>
    refine .inr ⟨fun c mem => noMark_of_isWordChar (word.isWordChar c mem), ?_⟩
    rintro before d behind rfl structural
    have isWord := word.isWordChar d (by simp)
    rw [(noWord_of_isStructure structural).1] at isWord
    cases isWord
  | numeral numeral =>
    refine .inr ⟨fun c mem => ?_, ?_⟩
    · rcases isDigit_or_point numeral mem with digit | rfl
      · exact noMark_of_isWordChar (Text.isWordChar_of_isDigit digit)
      · rfl
    · rintro before d behind rfl structural
      obtain ⟨-, noDigit, noPoint⟩ := noWord_of_isStructure structural
      rcases isDigit_or_point numeral (c := d) (by simp) with digit | point
      · rw [noDigit] at digit
        cases digit
      · exact absurd point noPoint
  | short spelled =>
    refine .inr ⟨fun c mem => ?_, fun before d behind one _ => ?_⟩
    · rw [List.mem_singleton.1 mem]
      exact (classes_of_isMarkChar (isMarkChar_of_shortMark? spelled)).2.1
    · cases before with
      | nil => rfl
      | cons => simp at one
  | @long c d _ spelled =>
    have others : isStructure c = false ∧ isStructure d = false := by
      unfold longMark? at spelled
      split at spelled <;> first | decide | cases spelled
    refine .inr ⟨fun e mem => ?_, fun before e behind two structural => ?_⟩
    · obtain ⟨own, own'⟩ := isMarkChar_of_longMark? spelled
      simp only [List.mem_cons, List.not_mem_nil, or_false] at mem
      rcases mem with rfl | rfl
      · exact (classes_of_isMarkChar own).2.1
      · exact (classes_of_isMarkChar own').2.1
    · have mem : e ∈ [c, d] := two ▸ by simp
      simp only [List.mem_cons, List.not_mem_nil, or_false] at mem
      rcases mem with rfl | rfl
      · rw [others.1] at structural
        cases structural
      · rw [others.2] at structural
        cases structural

end Characters

-- ================================================================= literals

section Literals

variable {quote : Char} {escaped : Bool} {body contents text rest : List Char} {fault : ScanFault}

/-- A scan is in a literal up to its closing quote, and outside behind it. -/
theorem past_of_scanString (isMark : Quote.isMark quote = true)
    (closes : scanString quote escaped (body ++ rest) = .ok (contents, rest)) :
    (Quote.inside quote escaped).past body = .outside ∧
      ∀ before d behind, body = before ++ d :: behind →
        (Quote.inside quote escaped).past before ≠ .outside := by
  induction body generalizing escaped contents with
  | nil =>
    have shorter := length_scanString closes
    exact absurd shorter (Nat.lt_irrefl _)
  | cons c body ih =>
    rcases scanString_cons isMark closes with ⟨steps, same, -⟩ | ⟨next, contents', steps, inner, -⟩
    · obtain rfl : body = [] := List.append_left_eq_self.1 same
      refine ⟨steps, fun before d behind one => ?_⟩
      cases before with
      | nil => simp
      | cons => simp at one
    · obtain ⟨closed, inside⟩ := ih inner
      refine ⟨by rw [Quote.past_cons, steps, closed], fun before d behind same => ?_⟩
      cases before with
      | nil => simp
      | cons e before =>
        rw [List.cons_append, List.cons.injEq] at same
        rw [← same.1, Quote.past_cons, steps]
        exact inside before d behind same.2

/-- A literal that cannot be taken is open to the end. -/
theorem past_of_scanString_error (isMark : Quote.isMark quote = true)
    (fails : scanString quote escaped text = .error fault) :
    (Quote.inside quote escaped).past text ≠ .outside := by
  induction text generalizing escaped with
  | nil => simp
  | cons c text ih =>
    -- a literal that goes on fails in the rest
    have behind : ∀ {next : Bool} {d : Char},
        (scanString quote next text).map (fun found => (d :: found.1, found.2)) = .error fault →
        (Quote.inside quote next).past text ≠ .outside := by
      intro next d fails
      cases inner : scanString quote next text with
      | error fault' =>
        rw [inner] at fails
        cases fails
        exact ih inner
      | ok found =>
        rw [inner] at fails
        cases fails
    have notBackslash := ne_backslash_of_isMark isMark
    rw [scanString] at fails
    rw [Quote.past_cons]
    cases escaped with
    | true => exact behind fails
    | false =>
      rw [if_neg Bool.false_ne_true] at fails
      split at fails
      · cases fails
      · next other =>
        split at fails
        · next isBackslash =>
          rw [Quote.step, isBackslash]
          exact ih fails
        · next plain =>
          rw [Quote.step, if_neg (by simpa using plain), if_neg (by simpa using other)]
          exact behind fails

end Literals

-- ================================================================== numerals

/-- What begins like a numeral is neither signed nor the name of a number. -/
theorem ne_of_begins {c : Char} (begins : c.isDigit = true ∨ c = '.') :
    c ≠ '-' ∧ c ≠ '+' ∧ c.toLower ≠ 'i' ∧ c.toLower ≠ 'n' := by
  have same : c.toLower = c := by
    refine dif_neg ?_
    rintro ⟨upper, -⟩
    rcases begins with digit | rfl
    · simp only [Char.isDigit, Bool.and_eq_true, decide_eq_true_eq] at digit
      exact absurd (Nat.le_trans upper digit.2) (by decide)
    · exact absurd upper (by decide)
  rw [same]
  refine ⟨?_, ?_, ?_, ?_⟩
  all_goals
    rintro rfl
    revert begins
    decide

/-- A text is read as digits around a point when it begins like a numeral. -/
theorem read?_of_digits {c : Char} {text whole fraction : List Char}
    (begins : c.isDigit = true ∨ c = '.') (taken : (c :: text).takeWhile Char.isDigit = whole)
    (left : (c :: text).dropWhile Char.isDigit = [] ∧ fraction = [] ∨
      ∃ places, (c :: text).dropWhile Char.isDigit = '.' :: places ∧
        places.takeWhile Char.isDigit = fraction ∧ places.dropWhile Char.isDigit = [])
    (some : whole ++ fraction ≠ []) :
    Number.read? (String.ofList (c :: text)) = .some (Number.ofLiteral whole fraction) := by
  obtain ⟨noMinus, noPlus, noName, noName'⟩ := ne_of_begins begins
  have unsigned : Number.read? (String.ofList (c :: text)) = Number.readUnsigned? (c :: text) := by
    rw [Number.read?, String.toList_ofList]
    split
    · next same => exact absurd (List.cons.inj same).1 noMinus
    · next same => exact absurd (List.cons.inj same).1 noPlus
    · rfl
  have other : ∀ {name : String} {d : Char}, c.toLower ≠ d → name.toList.head? = .some d →
      String.ofList ((c :: text).map Char.toLower) ≠ name := by
    rintro name d noName head rfl
    rw [String.toList_ofList, List.map_cons, List.head?_cons, Option.some.injEq] at head
    exact noName head
  rw [unsigned, Number.readUnsigned?]
  split
  · next same => exact absurd same (other noName rfl)
  · next same => exact absurd same (other noName rfl)
  · next same => exact absurd same (other noName' rfl)
  · rw [taken]
    rcases left with ⟨left, rfl⟩ | ⟨places, left, rfl, ends⟩
    · simp only [left, if_neg some, Number.ofLiteral]
    · simp only [left, ends, if_neg some, Number.ofLiteral]

/-- **A numeral reads as the number that it is taken for.** -/
theorem read?_numeral {x : Float} {text : List Char} (numeral : IsNumeral x text) :
    Number.read? (String.ofList text) = some x := by
  have atEnd : ∀ d ∈ ([] : List Char).head?, d.isDigit = false := nofun
  cases numeral with
  | whole some all =>
    obtain ⟨taken, left⟩ := takeWhile_run all atEnd
    rw [List.append_nil] at taken left
    obtain ⟨c, digits, rfl⟩ := List.exists_cons_of_ne_nil some
    exact read?_of_digits (.inl (all c List.mem_cons_self)) taken (.inl ⟨left, rfl⟩)
      (by rwa [List.append_nil])
  | @fraction digits places all some behind =>
    have point : ∀ d ∈ ('.' :: places).head?, d.isDigit = false := by
      rintro d ⟨⟩
      rfl
    obtain ⟨taken, left⟩ := takeWhile_run all point
    obtain ⟨taken', left'⟩ := takeWhile_run behind atEnd
    rw [List.append_nil] at taken' left'
    have begins : ∃ c text, digits ++ '.' :: places = c :: text ∧ (c.isDigit = true ∨ c = '.') := by
      cases digits with
      | nil => exact ⟨'.', places, rfl, .inr rfl⟩
      | cons d digits => exact ⟨d, _, rfl, .inl (all d List.mem_cons_self)⟩
    obtain ⟨c, text, same, begins⟩ := begins
    rw [same] at taken left ⊢
    exact read?_of_digits begins taken (.inr ⟨places, left, taken', left'⟩) (by simp [some])

-- ================================================================== scanning

/-- The scanner comes to stand behind a front of a text, with the rest in front
of it. -/
inductive Comes (text : List Char) : List Char → List Char → Prop where
  | start : Comes text [] text
  | blank {front rest : List Char} {c : Char} :
      Comes text front (c :: rest) → Text.isBlank c = true → Comes text (front ++ [c]) rest
  | token {front taken rest : List Char} {c : Char} {token : Token} :
      Comes text front (c :: (taken ++ rest)) → Text.isBlank c = false →
        scanOne c (taken ++ rest) = .ok (token, rest) → Comes text (front ++ c :: taken) rest

section Scanning

variable {text front rest taken : List Char} {c d : Char} {token : Token} {fault : ScanFault}

theorem Comes.eq_append (comes : Comes text front rest) : text = front ++ rest := by
  induction comes with
  | start => rfl
  | blank _ _ ih => rw [ih, List.append_assoc, List.singleton_append]
  | token _ _ _ ih => rw [ih, List.append_assoc, List.cons_append]

/-- What is taken as one token begins and ends outside of literals, and what
structures a text is a token of its own exactly where it is not in a literal. -/
theorem quotes_of_scanOne (one : scanOne c (taken ++ rest) = .ok (token, rest)) :
    Quote.outside.past (c :: taken) = .outside ∧
      ∀ before d behind, c :: taken = before ++ d :: behind → isStructure d = true →
        (Quote.outside.past before = .outside ↔ before = []) := by
  obtain ⟨text, same, lexeme, -⟩ := exists_lexeme one
  obtain rfl := List.append_cancel_right same
  rcases plain_of_lexeme lexeme with ⟨quote, body, contents, same, isMark, closes⟩ | ⟨noMarks, first⟩
  · obtain ⟨closed, inside⟩ := past_of_scanString isMark (closes [])
    have opens : Quote.outside.step quote = .inside quote false := by
      rw [Quote.step, isMark]
      rfl
    rw [same]
    refine ⟨by rw [Quote.past_cons, opens, closed], fun before d behind same' _ => ?_⟩
    cases before with
    | nil => simp
    | cons e before =>
      rw [List.cons_append, List.cons.injEq] at same'
      have hidden := inside before d behind same'.2
      simp [← same'.1, opens, hidden]
  · refine ⟨Quote.past_outside noMarks, fun before d behind same structural => ?_⟩
    have none := first before d behind same structural
    simp [none]

/-- No literal is open where the scanner comes to stand. -/
theorem Comes.settled (comes : Comes text front rest) : Quote.outside.past front = .outside := by
  induction comes with
  | start => rfl
  | @blank front rest c _ isBlank ih =>
    have noMark : Quote.isMark c = false := by
      rw [← Bool.not_eq_true]
      intro isMark
      rcases eq_of_isMark isMark with rfl | rfl <;> revert isBlank <;> decide
    rw [Quote.past_append, ih, Quote.past_cons, Quote.step_outside noMark, Quote.past_nil]
  | token _ _ one ih => rw [Quote.past_append, ih, (quotes_of_scanOne one).1]

/-- Where the scanner fails it stands in front of the character that it fails
at. -/
theorem exists_comes_of_scan_error (comes : Comes text front rest)
    (fails : scan rest = .error fault) :
    ∃ front' c rest', Comes text front' (c :: rest') ∧ scanOne c rest' = .error fault := by
  fun_induction scan rest generalizing front with
  | case1 => cases fails
  | case2 c rest blank ih => exact ih (comes.blank blank) fails
  | case3 c rest solid fault' one =>
    cases fails
    exact ⟨front, c, rest, comes, one⟩
  | case4 c rest solid token after one ih =>
    obtain ⟨taken, rfl, -⟩ := exists_lexeme one
    cases behind : scan after with
    | error fault' =>
      rw [behind] at fails
      cases fails
      exact ih (comes.token (eq_false_of_ne_true solid) one) behind
    | ok tokens =>
      rw [behind] at fails
      cases fails

theorem unexpected_of_scanMark (fails : scanMark c rest = .error fault) : fault = .unexpected c := by
  unfold scanMark at fails
  dsimp only at fails
  split at fails
  · split at fails <;> cases fails
    rfl
  · split at fails
    · cases fails
    · split at fails <;> cases fails
      rfl

/-- A token that cannot be taken is a literal that does not close, or begins
with a character that no token begins with. -/
theorem unexpected_of_scanOne (settled : Quote.outside.past (c :: rest) = .outside)
    (fails : scanOne c rest = .error fault) : fault = .unexpected c := by
  unfold scanOne at fails
  split at fails
  · next quotes =>
    have isMark : Quote.isMark c = true := by rcases quotes with rfl | rfl <;> rfl
    have opens : Quote.outside.step c = .inside c false := by
      rw [Quote.step, isMark]
      rfl
    rw [Quote.past_cons, opens] at settled
    cases inner : scanString c false rest with
    | error fault' => exact absurd settled (past_of_scanString_error isMark inner)
    | ok found =>
      rw [inner] at fails
      cases fails
  · split at fails
    · cases fails
    · split at fails
      · cases fails
      · exact unexpected_of_scanMark fails

/-- **On a text in which every literal closes the scanner fails at no literal**,
only at a character that begins no token. -/
theorem unexpected_of_scan (settled : Quote.outside.past text = .outside)
    (fails : scan text = .error fault) : ∃ c, fault = .unexpected c := by
  obtain ⟨front, c, rest, comes, one⟩ := exists_comes_of_scan_error .start fails
  rw [comes.eq_append, Quote.past_append, comes.settled] at settled
  exact ⟨c, unexpected_of_scanOne settled one⟩

end Scanning

end Token

end RoutineScript
