/-
Blocks by their offsets: the body between the braces, the arms of a branch and
the handler of an attempt. A body is read by whatever reads the script between
two offsets, so here the reader of bodies is a parameter.

# The argument

The reader of bodies is only ever asked for what stands between two braces of
the block (`exists_body`): something stands before it and something behind it.
So all that is asked of it (`ReadsBodies`) is about such pieces of the text,
and these are shorter than the text. An arm begins at a cursor, which has the
front of the text in front of it, and leaves the cursor behind its body.
-/
import RoutineScript.Proofs.Offsets.Headers
import RoutineScript.Proofs.Offsets.Segments

namespace RoutineScript

namespace ByOffset

section Definitions

variable (body : Nat → Nat → Checked Block) (refused : Fault) (text : Span) (offset : Nat)

/-- The condition of the arm at a cursor, and where its body opens. -/
def armHead (cursor : Nat) : Checked (Option Expr × Nat) := do
  let rest ← slice text cursor text.bytes
  if rest.startsWith "elseif(" then
    let opens ← Checked.orRefuse refused (← findUnquoted text cursor '\x7b'.toUInt8)
    let tokens ← scanned refused (← slice text cursor opens)
    return (some (← condition refused tokens), opens)
  else if rest.startsWith "else\x7b" then return (none, cursor + "else".utf8ByteSize)
  else .error (.fault refused)

/-- The body whose brace opens at a place, and what follows behind it. -/
def braced (opens : Nat) : Checked (Block × Nat) := do
  let close ← Checked.orRefuse refused (← matchingClose text opens)
  let block ← body (offset + opens + 1) (offset + close)
  return (block, skipTerminators text (close + 1))

/-- The arms from a cursor on. -/
def arms (cursor : Nat) : Checked (List (Option Expr × Block)) :=
  if text.bytes ≤ cursor then .ok []
  else
    match armHead refused text cursor with
    | .error stop => .error stop
    | .ok (condition, opens) =>
      match braced body refused text offset opens with
      | .error stop => .error stop
      | .ok (block, next) =>
        if _shorter : text.bytes - next < text.bytes - cursor then
          (arms next).map ((condition, block) :: ·)
        else .error (.panic .endless)
termination_by text.bytes - cursor

/-- The handler that begins at a place. -/
def handler (place : Nat) : Checked Block := do
  let rest ← slice text place text.bytes
  if rest.startsWith "catch\x7b" then
    let opens := place + "catch".utf8ByteSize
    let close ← Checked.orRefuse refused (← matchingClose text opens)
    if skipTerminators text (close + 1) < text.bytes then .error (.fault refused)
    else body (offset + opens + 1) (offset + close)
  else .error (.fault refused)

/-- Reads the block that stands at an offset of the script. -/
def compound : Checked Stmt := do
  let refused : Fault := Cause.notAnInstruction text.text
  let opens ← Checked.orRefuse refused (← findUnquoted text 0 '\x7b'.toUInt8)
  let close ← Checked.orRefuse refused (← matchingClose text opens)
  let tokens ← scanned refused (← slice text 0 opens)
  let block ← body (offset + opens + 1) (offset + close)
  let after := skipTerminators text (close + 1)
  match ← header refused tokens (after < text.bytes) with
  | .branch condition =>
    return .branch ((some condition, block) :: (← arms body refused text offset after))
  | .attempt =>
    if after < text.bytes then return .attempt block (some (← handler body refused text offset after))
    else return .attempt block none
  | header => return header.withBody block

end Definitions

-- =================================================================== braces

section Braces

variable {body : Nat → Nat → Checked Block} {refused : Fault} {text front rest inside behind : Span}
  {offset : Nat}

/-- The reader of bodies reads what stands between others in a text as the
parser that runs does it. -/
def ReadsBodies (body : Nat → Nat → Checked Block) (text : Span) (offset : Nat) : Prop :=
  ∀ {front inside behind : Span}, text = front ++ (inside ++ behind) → front ≠ [] → behind ≠ [] →
    body (offset + front.bytes) (offset + (front.bytes + inside.bytes)) =
      .ok (Stmt.readBlock inside)

/-- A body is read between its braces, and what follows begins behind it. -/
theorem exists_body (reads : ReadsBodies body text offset) (whole : text = front ++ rest)
    (enclosed : rest.enclosed? = some (inside, behind)) :
    ∃ close next, matchingClose text front.bytes = .ok (some close) ∧
      body (offset + front.bytes + 1) (offset + close) = .ok (Stmt.readBlock inside) ∧
      text = next ++ behind.skipTerminators ∧ skipTerminators text (close + 1) = Span.bytes next ∧
      front.bytes < Span.bytes next := by
  obtain ⟨opener, closer, isRest, single, single', found⟩ := exists_matchingClose front enclosed
  have begins : Span.bytes (front ++ [opener]) = front.bytes + 1 := by
    simp [Span.bytes, single]
  have ends : Span.bytes (front ++ opener :: (inside ++ [closer])) =
      (front.bytes + 1 + inside.bytes) + 1 := by
    simp only [Span.bytes_append, Span.bytes, single, single']
    omega
  have split : text = (front ++ opener :: (inside ++ [closer])) ++ behind := by
    rw [whole, isRest]
    simp
  obtain ⟨next, isNext, skips, length⟩ :=
    exists_skipTerminators (front ++ opener :: (inside ++ [closer])) behind
  refine ⟨front.bytes + 1 + inside.bytes, next, by rw [whole, found], ?_, by rw [split, isNext],
    by rw [← ends, split, skips], by omega⟩
  have piece : text = (front ++ [opener]) ++ (inside ++ closer :: behind) := by
    rw [whole, isRest]
    simp
  have read := reads piece (by simp) (by simp)
  rw [begins] at read
  exact read

theorem braced_eq (refused : Fault) (reads : ReadsBodies body text offset) (whole : text = front ++ rest)
    (enclosed : rest.enclosed? = some (inside, behind)) :
    ∃ next, text = next ++ behind.skipTerminators ∧ front.bytes < Span.bytes next ∧
      braced body refused text offset front.bytes =
        .ok (Stmt.readBlock inside, Span.bytes next) := by
  obtain ⟨close, next, found, read, split, skips, later⟩ := exists_body reads whole enclosed
  refine ⟨next, split, later, ?_⟩
  rw [braced, found]
  simp only [Checked.ok_bind, Checked.orRefuse_some, read, skips]
  rfl

theorem braced_of_none (whole : text = front ++ rest) (unclosed : rest.enclosed? = none) :
    braced body refused text offset front.bytes = .error (.fault refused) := by
  rw [braced, whole, matchingClose_of_none front unclosed]
  rfl

/-- Something is left exactly where the front of a text is shorter. -/
theorem lt_bytes_iff (whole : text = front ++ rest) : front.bytes < text.bytes ↔ rest ≠ [] := by
  cases rest with
  | nil => simp [whole]
  | cons c rest =>
    have := c.val.utf8Size_pos
    simp only [whole, Span.bytes_append, Span.bytes, ne_eq, reduceCtorEq, not_false_eq_true, iff_true]
    omega

end Braces

-- ===================================================================== arms

section Arms

variable {body : Nat → Nat → Checked Block} {refused : Fault} {text front rest : Span} {offset : Nat}

theorem slice_rest (whole : text = front ++ rest) : slice text front.bytes text.bytes = .ok rest := by
  rw [whole]
  exact slice_behind front rest

/-- Without a brace there is no arm. -/
theorem armHead_of_none (whole : text = front ++ rest) (noBrace : rest.splitUnquoted '{' = none) :
    armHead refused text front.bytes = .error (.fault refused) := by
  have missing : findUnquoted text front.bytes '\x7b'.toUInt8 = .ok none := by
    rw [whole, findUnquoted_append (by decide), noBrace]
    rfl
  rw [armHead, slice_rest whole]
  simp only [Checked.ok_bind, missing]
  split
  case isTrue => rfl
  case isFalse =>
    split
    case isTrue begins =>
      obtain ⟨word, cut, -⟩ := exists_of_else begins
      rw [noBrace] at cut
      cases cut
    case isFalse => rfl

/-- The condition of an arm is read as the parser that runs does it. -/
theorem armHead_of_cut {header braced : Span} (whole : text = front ++ rest)
    (cut : rest.splitUnquoted '{' = some (header, braced)) :
    armHead refused text front.bytes = Checked.ofResult
      ((Stmt.readArmCondition refused rest header).map
        fun condition => (condition, Span.bytes (front ++ header))) := by
  have isRest : rest = header ++ braced := (Span.append_of_splitWhere _ _ cut).symm
  have found : findUnquoted text front.bytes '\x7b'.toUInt8 =
      .ok (some (Span.bytes (front ++ header))) := by
    rw [whole, findUnquoted_append (by decide), cut, Span.bytes_append]
    rfl
  have sliced : slice text front.bytes (Span.bytes (front ++ header)) = .ok header := by
    rw [whole, isRest, Span.bytes_append]
    exact slice_append front header braced
  rw [armHead, slice_rest whole, Stmt.readArmCondition]
  simp only [Checked.ok_bind]
  split
  case isTrue =>
    simp only [found, Checked.orRefuse_some, Checked.ok_bind, sliced, scanned, tokensOf_eq]
    cases Token.scan header.chars with
    | error => rfl
    | ok tokens =>
      simp only [Checked.ok_bind, condition_eq]
      cases Stmt.readCondition refused (tokens.drop 1) <;> rfl
  case isFalse =>
    split
    case isTrue begins =>
      obtain ⟨word, cut', -, length⟩ := exists_of_else begins
      obtain ⟨rfl, rfl⟩ := Prod.mk.inj (Option.some.inj (cut.symm.trans cut'))
      rw [Span.bytes_append, length]
      rfl
    case isFalse => rfl

/-- Without a brace behind its header an arm is refused, whatever the header
is. -/
theorem refuse_arm (refused : Fault) (rest : Span) :
    Checked.ofResult (do
      let _ ← Stmt.readArmCondition refused rest []
      throw refused : Except Fault (List (Option Expr × Block))) = .error (.fault refused) := by
  rw [Stmt.readArmCondition]
  split
  · rw [Span.chars, List.map_nil, Token.scan]
    rfl
  · split <;> rfl

/-- The arms of a branch are read as the parser that runs does it. -/
theorem arms_eq (refused : Fault) (reads : ReadsBodies body text offset) (front rest : Span)
    (whole : text = front ++ rest) :
    arms body refused text offset front.bytes = Checked.ofResult (Stmt.readArms refused rest) := by
  rw [arms]
  by_cases behind : rest = []
  case pos =>
    rw [behind, Stmt.readArms_nil, if_pos (by simp [whole, behind])]
    rfl
  case neg =>
    rw [if_neg (Nat.not_le.2 ((lt_bytes_iff whole).2 behind))]
    cases cut : rest.splitUnquoted '{' with
    | none =>
      have isCut : Stmt.cut? rest = none := by rw [Stmt.cut?, cut]; rfl
      rw [armHead_of_none whole cut, Stmt.readArms_of_none behind isCut, cut]
      exact (refuse_arm refused rest).symm
    | some pieces =>
      obtain ⟨header, braced⟩ := pieces
      have isRest : rest = header ++ braced := (Span.append_of_splitWhere _ _ cut).symm
      have whole' : text = (front ++ header) ++ braced := by
        rw [whole, isRest, List.append_assoc]
      rw [armHead_of_cut whole cut]
      cases enclosed : braced.enclosed? with
      | none =>
        have isCut : Stmt.cut? rest = none := by simp [Stmt.cut?, cut, enclosed]
        rw [Stmt.readArms_of_none behind isCut, cut, Option.elim_some]
        cases Stmt.readArmCondition refused rest header with
        | error => rfl
        | ok condition =>
          simp only [Except.map, Checked.ofResult_ok, braced_of_none whole' enclosed]
          rfl
      | some pieces =>
        obtain ⟨inside, after⟩ := pieces
        have isCut : Stmt.cut? rest = some ⟨header, inside, after.skipTerminators⟩ := by
          simp [Stmt.cut?, cut, enclosed]
        have shorter := (Stmt.length_cut? isCut).2
        obtain ⟨next, split, later, isBraced⟩ := braced_eq refused reads whole' enclosed
        rw [Stmt.readArms_of_cut behind isCut]
        cases Stmt.readArmCondition refused rest header with
        | error => rfl
        | ok condition =>
          have advances : text.bytes - Span.bytes next < text.bytes - front.bytes := by
            have := (lt_bytes_iff whole).2 behind
            rw [Span.bytes_append] at later
            omega
          simp only [Except.map, Checked.ofResult_ok, isBraced]
          rw [dif_pos advances, arms_eq refused reads _ _ split]
          cases Stmt.readArms refused after.skipTerminators <;> rfl
termination_by rest.length

theorem handler_eq (refused : Fault) (reads : ReadsBodies body text offset)
    (whole : text = front ++ rest) :
    handler body refused text offset front.bytes =
      Checked.ofResult (Stmt.readHandler refused rest) := by
  rw [handler, slice_rest whole, Stmt.readHandler_eq]
  simp only [Checked.ok_bind]
  split
  case isFalse other =>
    cases Stmt.cut? rest <;> simp [other]
  case isTrue begins =>
    obtain ⟨word, cut, isRest, length⟩ := exists_of_catch begins
    obtain ⟨braced, isBraced⟩ : ∃ braced : Span, rest.drop 5 = braced := ⟨_, rfl⟩
    rw [isBraced] at cut isRest
    have whole' : text = (front ++ word) ++ braced := by
      rw [whole, isRest, List.append_assoc]
    have place : front.bytes + "catch".utf8ByteSize = Span.bytes (front ++ word) := by
      rw [Span.bytes_append, length]
      rfl
    rw [place]
    cases enclosed : braced.enclosed? with
    | none =>
      have isCut : Stmt.cut? rest = none := by simp [Stmt.cut?, cut, enclosed]
      have unclosed : matchingClose text (Span.bytes (front ++ word)) = .ok none := by
        rw [whole']
        exact matchingClose_of_none _ enclosed
      rw [isCut, unclosed]
      rfl
    | some pieces =>
      obtain ⟨inside, after⟩ := pieces
      have isCut : Stmt.cut? rest = some ⟨word, inside, after.skipTerminators⟩ := by
        simp [Stmt.cut?, cut, enclosed]
      obtain ⟨close, next, closes, read, split, skips, later⟩ := exists_body reads whole' enclosed
      rw [isCut, closes]
      simp only [Checked.ok_bind, Checked.orRefuse_some, skips, read, begins, Bool.true_and]
      cases left : after.skipTerminators with
      | nil =>
        rw [if_neg (mt (lt_bytes_iff split).1 (by simp [left]))]
        rfl
      | cons c tail =>
        rw [if_pos ((lt_bytes_iff split).2 (by simp [left]))]
        rfl

end Arms

-- ================================================================= compounds

section Compounds

variable {body : Nat → Nat → Checked Block} {text : Span} {offset : Nat}

/-- Only a branch and an attempt may go on behind their bodies. -/
theorem header_goesOn {refused : Fault} {tokens : List Token} {own : Stmt.Header}
    (head : Stmt.Header.ofTokens refused true tokens = .ok own) :
    (∃ condition, own = .branch condition) ∨ own = .attempt := by
  unfold Stmt.Header.ofTokens at head
  split at head
  case h_2 => cases head
  case h_1 word rest =>
    simp only [↓reduceIte] at head
    split_ifs at head
    case pos =>
      cases read : Stmt.readCondition refused rest with
      | error => simp [read, Except.map] at head
      | ok condition =>
        rw [read] at head
        exact .inl ⟨condition, (Except.ok.inj head).symm⟩
    case pos => exact .inr (Except.ok.inj head).symm

/-- **A block is read by its offsets as the parser that runs does it**, if that
is so for the bodies in it. -/
theorem compound_eq (reads : ReadsBodies body text offset) :
    compound body text offset = Checked.ofResult (Stmt.readCompound text) := by
  rw [compound]
  rcases exists_findUnquoted [] text with ⟨cut, found⟩ | ⟨header, braced, cut, isText, found⟩
  · have isCut : Stmt.cut? text = none := by rw [Stmt.cut?, cut]; rfl
    replace found : findUnquoted text 0 '\x7b'.toUInt8 = .ok none := found
    rw [found, Stmt.readCompound_of_none isCut]
    rfl
  replace found : findUnquoted text 0 '\x7b'.toUInt8 = .ok (some (Span.bytes header)) := found
  rw [found]
  simp only [Checked.ok_bind, Checked.orRefuse_some]
  cases enclosed : braced.enclosed? with
  | none =>
    have isCut : Stmt.cut? text = none := by simp [Stmt.cut?, cut, enclosed]
    have unclosed : matchingClose text header.bytes = .ok none := by
      rw [isText]
      exact matchingClose_of_none _ enclosed
    rw [unclosed, Stmt.readCompound_of_none isCut]
    rfl
  | some pieces =>
    obtain ⟨inside, after⟩ := pieces
    have isCut : Stmt.cut? text = some ⟨header, inside, after.skipTerminators⟩ := by
      simp [Stmt.cut?, cut, enclosed]
    have sliced : slice text 0 header.bytes = .ok header := by
      simpa [isText, Span.bytes] using slice_append [] header braced
    obtain ⟨close, next, closes, read, split, skips, later⟩ := exists_body reads isText enclosed
    have goesOn : decide (Span.bytes next < text.bytes) = !after.skipTerminators.isEmpty := by
      rw [Bool.eq_iff_iff]
      simp [lt_bytes_iff split]
    rw [closes, Stmt.readCompound_of_cut isCut]
    simp only [Checked.ok_bind, Checked.orRefuse_some, sliced, read, skips, scanned, tokensOf_eq]
    cases Token.scan header.chars with
    | error => rfl
    | ok tokens =>
      simp only [Checked.ok_bind, header_eq, goesOn, Checked.ofResult_bind]
      cases head : Stmt.Header.ofTokens (Cause.notAnInstruction text.text)
          (!after.skipTerminators.isEmpty) tokens with
      | error => rfl
      | ok own =>
        simp only [Checked.ofResult_ok, Checked.ok_bind]
        cases left : after.skipTerminators with
        | nil =>
          have ended : arms body (Cause.notAnInstruction text.text) text offset next.bytes = .ok [] := by
            rw [arms_eq _ reads next [] (left ▸ split), Stmt.readArms_nil]
            rfl
          have noMore : ¬ Span.bytes next < text.bytes :=
            mt (lt_bytes_iff split).1 (by simp [left])
          cases own with
          | branch condition =>
            simp only [ended]
            rfl
          | attempt =>
            simp only [noMore, ↓reduceIte]
            rfl
          | whileLoop | forLoop | countLoop | thread | define | declareClass => rfl
        | cons c tail =>
          have more : Span.bytes next < text.bytes := (lt_bytes_iff split).2 (by simp [left])
          rw [left] at head split
          rcases header_goesOn head with ⟨condition, rfl⟩ | rfl
          · simp only [arms_eq _ reads next (c :: tail) split]
            cases Stmt.readArms (Cause.notAnInstruction text.text) (c :: tail) <;> rfl
          · simp only [more, ↓reduceIte, handler_eq _ reads split]
            cases Stmt.readHandler (Cause.notAnInstruction text.text) (c :: tail) <;> rfl

end Compounds

end ByOffset

end RoutineScript
