/-
Tokens by places in the characters of a text. The scanner looks at the
character at its place, or at the one behind it, and goes on from the place
where a token has ended. Looking behind the last character finds nothing, so
no place it looks at can be out of range; what is checked is that every token
brings it further.

# The argument

A loop of the scanner that is at the end of some front of the text takes what
the scanner that runs takes from the rest, and is behind it then (`Leaves`).
-/
import RoutineScript.Proofs.Offsets.Checked
import RoutineScript.Proofs.Printing.Scanning

namespace RoutineScript

/-- A text is refused where a token is. -/
theorem Token.scan_of_error {c : Char} {rest : List Char} {fault : ScanFault}
    (solid : Text.isBlank c = false) (one : scanOne c rest = .error fault) :
    scan (c :: rest) = .error fault := by
  rw [scan, solid]
  simp only [Bool.false_eq_true, ↓reduceIte]
  split
  · rename_i eq
    cases one.symm.trans eq
    rfl
  · rename_i eq
    cases one.symm.trans eq

namespace ByOffset

section Definitions

variable (input : List Char)

/-- The characters of a kind from a place on, and the place behind them. -/
def runFrom (kind : Char → Bool) (place : Nat) : List Char × Nat :=
  match _here : input[place]? with
  | none => ([], place)
  | some c =>
    if kind c then ((c :: (runFrom kind (place + 1)).1), (runFrom kind (place + 1)).2)
    else ([], place)
termination_by input.length - place
decreasing_by all_goals
  have := (List.getElem?_eq_some_iff.1 _here).1
  omega

/-- The rest of a number from a place on, and the place behind it. A point
belongs to it if it is the first one and a digit follows. -/
def numberFrom (point : Bool) (place : Nat) : List Char × Nat :=
  match _here : input[place]? with
  | none => ([], place)
  | some c =>
    if c.isDigit then
      ((c :: (numberFrom point (place + 1)).1), (numberFrom point (place + 1)).2)
    else if c = '.' ∧ ¬ point ∧ (input[place + 1]?).any Char.isDigit then
      ((c :: (numberFrom true (place + 1)).1), (numberFrom true (place + 1)).2)
    else ([], place)
termination_by input.length - place
decreasing_by all_goals
  have := (List.getElem?_eq_some_iff.1 _here).1
  omega

/-- The contents of a literal from a place on, and the place behind its closing
quote. -/
def literalFrom (quote : Char) (place : Nat) : Except ScanFault (List Char × Nat) :=
  match _here : input[place]? with
  | none => .error .unterminatedString
  | some c =>
    if c = quote then .ok ([], place + 1)
    else if c = '\\' then
      match input[place + 1]? with
      | none => .error .unterminatedEscape
      | some escaped => (literalFrom quote (place + 2)).map
          fun (contents, after) => (Token.unescape escaped :: contents, after)
    else (literalFrom quote (place + 1)).map fun (contents, after) => (c :: contents, after)
termination_by input.length - place
decreasing_by all_goals
  have := (List.getElem?_eq_some_iff.1 _here).1
  omega

/-- The mark that begins with a character, which stands before a place. -/
def markFrom (c : Char) (place : Nat) : Except ScanFault (Token × Nat) :=
  match (input[place]?).bind (Token.longMark? c) with
  | some m => .ok (.mark m, place + 1)
  | none =>
    match Token.shortMark? c with
    | some m => .ok (.mark m, place)
    | none => .error (.unexpected c)

/-- The number that a literal writes. -/
def numberOf (literal : List Char) : Token :=
  .number (Number.ofLiteral (literal.takeWhile Char.isDigit)
    ((literal.dropWhile Char.isDigit).drop 1))

/-- The token that begins with a character, which stands before a place, and the
place behind the token. -/
def tokenFrom (c : Char) (place : Nat) : Except ScanFault (Token × Nat) :=
  if c = '"' ∨ c = '\'' then
    (literalFrom input c place).map
      fun (contents, after) => (.string (String.ofList contents), after)
  else if c.isDigit || (c == '.' && (input[place]?).any Char.isDigit) then
    let (rest, after) := numberFrom input (c == '.') place
    .ok (numberOf (c :: rest), after)
  else if Text.beginsName c then
    let (rest, after) := runFrom input Text.isWordChar place
    .ok (Token.ofWord (String.ofList (c :: rest)), after)
  else markFrom input c place

/-- The tokens from a place on. -/
def tokensFrom (place : Nat) : Checked (Except ScanFault (List Token)) :=
  match _here : input[place]? with
  | none => .ok (.ok [])
  | some c =>
    if Text.isBlank c then tokensFrom (place + 1)
    else
      match tokenFrom input c (place + 1) with
      | .error fault => .ok (.error fault)
      | .ok (token, next) =>
        if _further : place < next then (tokensFrom next).map (Except.map (token :: ·))
        else .error (.panic .endless)
termination_by input.length - place
decreasing_by all_goals
  have := (List.getElem?_eq_some_iff.1 _here).1
  omega

end Definitions

/-- The tokens of a text. -/
def tokensOf (text : Span) : Checked (Except ScanFault (List Token)) :=
  tokensFrom text.chars 0

-- =================================================================== places

section Places

variable {input front rest : List Char} {c : Char} {α : Type}

theorem head_of_here {d : Char} (here : (front ++ rest)[front.length]? = some d) :
    ∃ tail, rest = d :: tail := by
  cases rest with
  | nil => simp at here
  | cons c tail => exact ⟨tail, by simpa using here⟩

theorem eq_nil_of_here (here : (front ++ rest)[front.length]? = none) : rest = [] := by
  cases rest with
  | nil => rfl
  | cons c tail => simp at here

/-- The place behind a character. -/
theorem next_place (front rest : List Char) (c : Char) :
    front ++ c :: rest = (front ++ [c]) ++ rest ∧ front.length + 1 = (front ++ [c]).length := by
  simp

/-- What is taken by places is what is taken from the rest of a text, and the
place is behind it. -/
def Leaves (input : List Char) (byPlace : Except ScanFault (α × Nat)) :
    Except ScanFault (α × List Char) → Prop
  | .error fault => byPlace = .error fault
  | .ok (taken, after) => ∃ front, input = front ++ after ∧ byPlace = .ok (taken, front.length)

theorem Leaves.map {β : Type} (f : α → β) {byPlace : Except ScanFault (α × Nat)}
    {result : Except ScanFault (α × List Char)} (leaves : Leaves input byPlace result) :
    Leaves input (byPlace.map fun (taken, place) => (f taken, place))
      (result.map fun (taken, after) => (f taken, after)) := by
  cases result with
  | error fault =>
    obtain rfl := leaves
    rfl
  | ok pair =>
    obtain ⟨front, whole, rfl⟩ := leaves
    exact ⟨front, whole, rfl⟩

theorem runFrom_append (kind : Char → Bool) (front rest : List Char) :
    runFrom (front ++ rest) kind front.length =
      (rest.takeWhile kind, (front ++ rest.takeWhile kind).length) := by
  rw [runFrom]
  split
  case h_1 here =>
    rw [eq_nil_of_here here]
    simp
  case h_2 c here =>
    obtain ⟨tail, rfl⟩ := head_of_here here
    obtain ⟨whole, next⟩ := next_place front tail c
    by_cases isKind : kind c = true
    · rw [if_pos isKind, whole, next, runFrom_append kind (front ++ [c]) tail,
        List.takeWhile_cons_of_pos isKind]
      simp
    · rw [if_neg isKind, List.takeWhile_cons_of_neg isKind]
      simp
termination_by rest.length

theorem literalFrom_append (quote : Char) (front rest : List Char) :
    Leaves (front ++ rest) (literalFrom (front ++ rest) quote front.length)
      (Token.scanString quote false rest) := by
  rw [literalFrom]
  split
  case h_1 here =>
    rw [eq_nil_of_here here]
    rfl
  case h_2 c here =>
    obtain ⟨tail, rfl⟩ := head_of_here here
    obtain ⟨whole, next⟩ := next_place front tail c
    rw [Token.scanString, if_neg Bool.false_ne_true]
    split
    case isTrue =>
      exact ⟨front ++ [c], whole, by rw [next]⟩
    case isFalse =>
      split
      case isTrue =>
        rw [whole, next]
        cases tail with
        | nil => rw [List.append_nil, List.getElem?_eq_none (Nat.le_refl _)]; rfl
        | cons escaped tail =>
          obtain ⟨whole', next'⟩ := next_place (front ++ [c]) tail escaped
          have place : front.length + 2 = (front ++ [c] ++ [escaped]).length := by simp
          rw [← next, place, Token.scanString, if_pos rfl]
          have found : (front ++ [c] ++ escaped :: tail)[front.length + 1]? = some escaped := by
            rw [next]
            simp
          rw [found, whole']
          exact (literalFrom_append quote (front ++ [c] ++ [escaped]) tail).map
            (Token.unescape escaped :: ·)
      case isFalse =>
        rw [whole, next]
        exact (literalFrom_append quote (front ++ [c]) tail).map (c :: ·)
termination_by rest.length

theorem numberFrom_behind_point (front rest : List Char) :
    numberFrom (front ++ rest) true front.length =
      (rest.takeWhile Char.isDigit, (front ++ rest.takeWhile Char.isDigit).length) := by
  rw [numberFrom]
  split
  case h_1 here =>
    rw [eq_nil_of_here here]
    simp
  case h_2 c here =>
    obtain ⟨tail, rfl⟩ := head_of_here here
    obtain ⟨whole, next⟩ := next_place front tail c
    by_cases isDigit : c.isDigit = true
    · rw [if_pos isDigit, whole, next, numberFrom_behind_point (front ++ [c]) tail,
        List.takeWhile_cons_of_pos isDigit]
      simp
    · rw [if_neg isDigit, if_neg (by simp), List.takeWhile_cons_of_neg isDigit]
      simp
termination_by rest.length

/-- A number takes the digits before a point and those behind it. -/
theorem numberFrom_append (front rest : List Char) :
    ∃ taken front', front ++ rest =
        front' ++ (Token.scanFraction (rest.dropWhile Char.isDigit)).2 ∧
      numberFrom (front ++ rest) false front.length = (taken, List.length front') ∧
      taken.takeWhile Char.isDigit = rest.takeWhile Char.isDigit ∧
      (taken.dropWhile Char.isDigit).drop 1 =
        (Token.scanFraction (rest.dropWhile Char.isDigit)).1 := by
  rw [numberFrom]
  split
  case h_1 here =>
    rw [eq_nil_of_here here]
    exact ⟨[], front, rfl, rfl, rfl, rfl⟩
  case h_2 c here =>
    obtain ⟨tail, rfl⟩ := head_of_here here
    obtain ⟨whole, next⟩ := next_place front tail c
    by_cases isDigit : c.isDigit = true
    · obtain ⟨taken, front', split, found, before, behind⟩ :=
        numberFrom_append (front ++ [c]) tail
      refine ⟨c :: taken, front', ?_, ?_, ?_, ?_⟩
      · rw [whole, split, List.dropWhile_cons_of_pos isDigit]
      · rw [if_pos isDigit, whole, next, found]
      · rw [List.takeWhile_cons_of_pos isDigit, List.takeWhile_cons_of_pos isDigit, before]
      · rw [List.dropWhile_cons_of_pos isDigit, List.dropWhile_cons_of_pos isDigit, behind]
    · rw [if_neg isDigit, List.takeWhile_cons_of_neg isDigit, List.dropWhile_cons_of_neg isDigit]
      have behind : (front ++ c :: tail)[front.length + 1]? = tail.head? := by
        rw [whole, next, List.getElem?_append_right (Nat.le_refl _), Nat.sub_self,
          List.head?_eq_getElem?]
      rw [behind]
      split
      case isTrue point =>
        obtain ⟨rfl, -, digit⟩ := point
        cases tail with
        | nil => cases digit
        | cons d tail =>
          have fraction : Token.scanFraction ('.' :: d :: tail) =
              ((d :: tail).takeWhile Char.isDigit, (d :: tail).dropWhile Char.isDigit) := by
            rw [Token.scanFraction, if_pos (by simpa using digit)]
          rw [whole, next, numberFrom_behind_point, fraction]
          refine ⟨_, _, ?_, rfl, rfl, rfl⟩
          simp only [List.append_assoc, List.takeWhile_append_dropWhile]
      case isFalse noPoint =>
        have fraction : Token.scanFraction (c :: tail) = ([], c :: tail) := by
          unfold Token.scanFraction
          split
          case h_1 d tail same =>
            obtain ⟨rfl, rfl⟩ := List.cons.inj same
            rw [if_neg]
            simpa using noPoint
          case h_2 => rfl
        rw [fraction]
        exact ⟨[], front, rfl, rfl, rfl, rfl⟩
termination_by rest.length

theorem markFrom_append (c : Char) (front rest : List Char) :
    Leaves (front ++ rest) (markFrom (front ++ rest) c front.length) (Token.scanMark c rest) := by
  have short : Leaves (front ++ rest)
      (match Token.shortMark? c with
      | some m => .ok (Token.mark m, front.length)
      | none => .error (.unexpected c))
      (match Token.shortMark? c with
      | some m => .ok (Token.mark m, rest)
      | none => .error (.unexpected c)) := by
    cases Token.shortMark? c with
    | none => rfl
    | some m => exact ⟨front, rfl, rfl⟩
  rw [markFrom, List.getElem?_append_right (Nat.le_refl _), Nat.sub_self, Token.scanMark.eq_def]
  cases rest with
  | nil => exact short
  | cons d after =>
    obtain ⟨whole, next⟩ := next_place front after d
    simp only [List.getElem?_cons_zero, Option.bind_some]
    cases Token.longMark? c d with
    | none => exact short
    | some m => exact ⟨front ++ [d], whole, by rw [next]⟩

/-- A token taken by places is the one that the scanner that runs takes. -/
theorem tokenFrom_append (c : Char) (front rest : List Char) :
    Leaves (front ++ rest) (tokenFrom (front ++ rest) c front.length) (Token.scanOne c rest) := by
  have head : (front ++ rest)[front.length]? = rest.head? := by
    rw [List.getElem?_append_right (Nat.le_refl _), Nat.sub_self, List.head?_eq_getElem?]
  rw [tokenFrom, Token.scanOne, head]
  split
  case isTrue =>
    exact (literalFrom_append c front rest).map fun taken => Token.string (String.ofList taken)
  case isFalse =>
    split
    case isTrue number =>
      by_cases isDigit : c.isDigit = true
      · have noPoint : (c == '.') = false := by
          rw [beq_eq_false_iff_ne]
          rintro rfl
          exact absurd isDigit (by decide)
        obtain ⟨taken, front', whole, found, before, behind⟩ := numberFrom_append front rest
        rw [noPoint, found, Token.scanNumber, List.takeWhile_cons_of_pos isDigit,
          List.dropWhile_cons_of_pos isDigit, ← before]
        show Leaves _ _ (.ok (Token.number (Number.ofLiteral _ (Token.scanFraction _).1), _))
        rw [← behind]
        refine ⟨front', whole, ?_⟩
        simp only [numberOf, List.takeWhile_cons_of_pos isDigit, List.dropWhile_cons_of_pos isDigit]
      · simp only [isDigit, Bool.false_or, Bool.and_eq_true, beq_iff_eq] at number
        obtain ⟨rfl, digit⟩ := number
        cases rest with
        | nil => cases digit
        | cons d tail =>
          have fraction : Token.scanFraction ('.' :: d :: tail) =
              ((d :: tail).takeWhile Char.isDigit, (d :: tail).dropWhile Char.isDigit) := by
            rw [Token.scanFraction, if_pos (by simpa using digit)]
          rw [beq_self_eq_true, numberFrom_behind_point, Token.scanNumber,
            List.dropWhile_cons_of_neg isDigit, fraction]
          refine ⟨front ++ (d :: tail).takeWhile Char.isDigit, ?_, rfl⟩
          simp only [List.append_assoc, List.takeWhile_append_dropWhile]
    case isFalse =>
      split
      case isTrue =>
        rw [runFrom_append]
        refine ⟨front ++ rest.takeWhile Text.isWordChar, ?_, rfl⟩
        rw [List.append_assoc, List.takeWhile_append_dropWhile]
      case isFalse => exact markFrom_append c front rest

/-- **The tokens taken by places are those of the scanner that runs**, and every
one of them brings the scanner further. -/
theorem tokensFrom_append (front rest : List Char) :
    tokensFrom (front ++ rest) front.length = .ok (Token.scan rest) := by
  rw [tokensFrom]
  split
  case h_1 here =>
    rw [eq_nil_of_here here, Token.scan]
  case h_2 c here =>
    obtain ⟨tail, rfl⟩ := head_of_here here
    obtain ⟨whole, next⟩ := next_place front tail c
    split
    case isTrue blank =>
      rw [Token.scan, if_pos blank, whole, next, tokensFrom_append (front ++ [c]) tail]
    case isFalse solid =>
      have token := tokenFrom_append c (front ++ [c]) tail
      rw [← whole, ← next] at token
      cases one : Token.scanOne c tail with
      | error fault =>
        rw [one] at token
        have refused : tokenFrom (front ++ c :: tail) c (front.length + 1) = .error fault := token
        rw [refused, Token.scan_of_error (eq_false_of_ne_true solid) one]
      | ok taken =>
        obtain ⟨taken, after⟩ := taken
        have shorter := Token.length_scanOne one
        rw [one] at token
        obtain ⟨front', whole', found⟩ := token
        have further : front.length < front'.length := by
          have := congrArg List.length whole'
          simp only [List.length_append, List.length_cons] at this
          omega
        rw [found, Token.scan_cons (eq_false_of_ne_true solid) one]
        simp only
        rw [dif_pos further, whole', tokensFrom_append front' after]
        rfl
termination_by rest.length
decreasing_by all_goals
  subst_vars
  simp only [List.length_cons]
  omega

theorem tokensOf_eq (text : Span) : tokensOf text = .ok (Token.scan text.chars) :=
  tokensFrom_append [] text.chars


end Places

end ByOffset

end RoutineScript
