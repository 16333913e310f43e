/-
Reading statements. An instruction is told by its first token, else by the
assignment or the step it contains, else it has to be a call. A block is
told by the word in front of it; its header is what stands before the brace.
Blocks within blocks are cut into segments in the same way, so every
statement begins on the line of its first character.

Reading a program never fails: a statement that has no form becomes one that
raises the fault, on the line where it stands.
-/
import RoutineScript.Expr.Reader
import RoutineScript.Source.Segment
import RoutineScript.Stmt

namespace RoutineScript

-- ================================================================== places

/-- The name that some tokens are, if they are just a name. -/
def Token.soleName (tokens : List Token) : Except Fault String :=
  match tokens with
  | [.name x] => .ok x
  | _ => .error (Cause.illegalName (Token.spellAll tokens))

/-- The place that some tokens spell: a name or a member of an object. -/
def Place.ofTokens (tokens : List Token) : Except Fault Place :=
  match tokens with
  | [.name x] => .ok (.name x)
  | _ =>
    match Expr.ofTokens tokens with
    | .ok (.member object m) => .ok (.member object m)
    | _ => .error (Cause.illegalName (Token.spellAll tokens))

-- ============================================================= instructions

namespace Token

/-- Cuts at the first assignment outside parentheses and brackets. -/
def splitAssignment (depth : Nat) :
    List Token → Option (List Token × Option BinaryOp × List Token)
  | [] => none
  | token :: rest =>
    match if depth = 0 then token.assignment? else none with
    | some op => some ([], op, rest)
    | none =>
      (splitAssignment (token.nest depth) rest).map fun (place, op, value) =>
        (token :: place, op, value)

/-- The step that some tokens end with, and the tokens before it. -/
def splitStep (tokens : List Token) : Option (List Token × Float) :=
  match tokens.getLast? with
  | some (.mark .plusPlus) => some (tokens.dropLast, 1)
  | some (.mark .minusMinus) => some (tokens.dropLast, -1)
  | _ => none

/-- What a parenthesis encloses that opens at the first of some tokens and
closes at the last. -/
def allInParens? : List Token → Option (List Token)
  | mark .lparen :: rest =>
    match inParens? rest with
    | some (inside, []) => some inside
    | _ => none
  | _ => none

end Token

namespace Stmt

/-- The assignment, step or call that some tokens spell. -/
def ofPlainTokens (refused : Fault) (tokens : List Token) : Except Fault Stmt :=
  match Token.splitAssignment 0 tokens with
  | some (place, op, value) => do
    let place ← Place.ofTokens place
    let value ← Expr.ofTokens value
    match op with
    | some op => return .compound place op value
    | none => return .assign place value
  | none =>
    match Token.splitStep tokens with
    | some (place, delta) => do return .step (← Place.ofTokens place) delta
    | none =>
      match Expr.ofTokens tokens with
      | .ok (.call f args) => return .call (.name f) args
      | .ok (.methodCall object m args) => return .call (.method object m) args
      | _ => throw refused

/-- The instruction that some tokens spell. `refused` is the fault of tokens
that spell none. -/
def ofTokens (refused : Fault) (tokens : List Token) : Except Fault Stmt := do
  match tokens with
  | [] => throw refused
  | .keyword .return :: [] => return .return none
  | .keyword .return :: value => return .return (some (← Expr.ofTokens value))
  | .keyword .del :: place => return .delete (← Place.ofTokens place)
  | .keyword .make :: name => return .make (← Token.soleName name)
  | _ => ofPlainTokens refused tokens

/-- Reads an instruction. -/
def readInstruction (span : Span) : Except Fault Stmt :=
  let refused : Fault := Cause.notAnInstruction span.text
  match Token.scan span.chars with
  | .error _ => .error refused
  | .ok tokens => ofTokens refused tokens

-- ================================================================== headers

/-- What a block begins with, its condition or names read. -/
inductive Header where
  | branch (condition : Expr)
  | attempt
  | whileLoop (condition : Expr)
  | forLoop (count : Expr)
  | countLoop (name : String) (start stop : Expr)
  | thread
  | define (name : String) (params : List String)
  | declareClass (name : String) (parent : Option Expr)

/-- The statement of a block whose header allows nothing behind its body. -/
def Header.withBody (header : Header) (body : Block) : Stmt :=
  match header with
  | .branch condition => .branch [(some condition, body)]
  | .attempt => .attempt body none
  | .whileLoop condition => .whileLoop condition body
  | .forLoop count => .forLoop count body
  | .countLoop name start stop => .countLoop name start stop body
  | .thread => .thread body
  | .define name params => .define name params body
  | .declareClass name parent => .declareClass name parent body

/-- The expression in parentheses behind the first word of a header. -/
def readCondition (refused : Fault) (tokens : List Token) : Except Fault Expr :=
  match Token.allInParens? tokens with
  | some inside => Expr.ofTokens inside
  | none => .error refused

/-- The parameters between the parentheses of a definition. -/
def readParams (inside : List Token) : Except Fault (List String) :=
  if inside.isEmpty then .ok [] else (Token.splitCommas 0 inside).mapM Token.soleName

/-- The bounds of a counting loop. -/
def readCount (refused : Fault) (tokens : List Token) : Except Fault Header :=
  match Token.allInParens? tokens with
  | none => .error refused
  | some inside =>
    match Token.splitCommas 0 inside with
    | [name, start, stop] => do
      let name ← Token.soleName name
      let start ← Expr.ofTokens start
      let stop ← Expr.ofTokens stop
      return .countLoop name start stop
    | _ => .error refused

/-- Cuts some tokens before their first parenthesis. -/
def splitParen (tokens : List Token) : List Token × List Token :=
  tokens.span (· ≠ .mark .lparen)

/-- The name and the parameters of a definition. -/
def readDefinition (refused : Fault) (tokens : List Token) : Except Fault Header :=
  match splitParen tokens with
  | (_, []) => .error refused
  | (name, params) => do
    let name ← Token.soleName name
    match Token.allInParens? params with
    | none => throw refused
    | some inside => return .define name (← readParams inside)

/-- The name and the parent of a class. -/
def readClass (refused : Fault) (tokens : List Token) : Except Fault Header :=
  match splitParen tokens with
  | (name, []) => do return .declareClass (← Token.soleName name) none
  | (name, parent) => do
    let name ← Token.soleName name
    match Token.allInParens? parent with
    | none => throw refused
    | some inside => return .declareClass name (some (← Expr.ofTokens inside))

/-- The header that some tokens spell. Only the blocks that may go on behind
their body, with `else` or `catch`, are read when something stands there. -/
def Header.ofTokens (refused : Fault) (goesOn : Bool) (tokens : List Token) :
    Except Fault Header :=
  match tokens with
  | .name word :: rest =>
    if word = "if" then (readCondition refused rest).map .branch
    else if word = "try" then if rest.isEmpty then .ok .attempt else .error refused
    else if goesOn then .error refused
    else if word = "while" then (readCondition refused rest).map .whileLoop
    else if word = "for" then (readCondition refused rest).map .forLoop
    else if word = "count" then readCount refused rest
    else if word = "thread" then if rest.isEmpty then .ok .thread else .error refused
    else if word = "def" then readDefinition refused rest
    else if word = "class" then readClass refused rest
    else .error refused
  | _ => .error refused

-- =================================================================== blocks

/-- A block cut at its braces: what stands before its body, the body, and
what follows behind terminators. -/
structure Cut where
  header : Span
  body : Span
  rest : Span

/-- Cuts a span at the first brace that opens. -/
def cut? (span : Span) : Option Cut :=
  (span.splitUnquoted '{').bind fun (header, braced) =>
    braced.enclosed?.map fun (body, after) => ⟨header, body, after.skipTerminators⟩

/-- A span is cut into a header, a body in braces and what stands behind. -/
theorem cut?_eq_some_iff {span : Span} {cut : Cut} :
    cut? span = some cut ↔
      ∃ header braced body after, span.splitUnquoted '{' = some (header, braced) ∧
        braced.enclosed? = some (body, after) ∧
        ⟨header, body, after.skipTerminators⟩ = cut := by
  constructor
  · intro isCut
    obtain ⟨⟨header, braced⟩, split, enclosed⟩ := Option.bind_eq_some_iff.1 isCut
    obtain ⟨⟨body, after⟩, enclosed, eq⟩ := Option.map_eq_some_iff.1 enclosed
    exact ⟨header, braced, body, after, split, enclosed, eq⟩
  · rintro ⟨header, braced, body, after, split, enclosed, rfl⟩
    simp only [cut?, split, Option.bind_some, enclosed, Option.map_some]

theorem length_cut? {span : Span} {cut : Cut} (h : cut? span = some cut) :
    cut.body.length < span.length ∧ cut.rest.length < span.length := by
  obtain ⟨header, braced, body, after, hs, he, rfl⟩ := cut?_eq_some_iff.1 h
  have hl := congrArg List.length (Span.append_of_splitWhere _ _ hs)
  have h₁ := Span.length_of_enclosed? he
  have h₂ := Span.length_skipTerminators_le after
  simp only [List.length_append] at *
  omega

/-- The condition of an arm that continues a branch: `elseif` has one in its
header, `else` has none and nothing else in its header. -/
def readArmCondition (refused : Fault) (span header : Span) : Except Fault (Option Expr) :=
  if span.startsWith "elseif(" then
    match Token.scan header.chars with
    | .error _ => .error refused
    | .ok tokens => (readCondition refused (tokens.drop 1)).map some
  else if span.startsWith "else\x7b" then .ok none
  else .error refused

mutual

/-- Reads the statements of a span. -/
def readBlock (span : Span) : Block :=
  (span.segments 0).attach.map fun ⟨segment, _h⟩ =>
    let line := segment.span.firstLine
    let read :=
      match segment.form with
      | .instruction => readInstruction segment.span
      | .block => readCompound segment.span
    match read with
    | .ok statement => ⟨line, statement⟩
    | .error fault => ⟨line, .invalid (fault.atLine line)⟩
termination_by (span.length, 2)
decreasing_by
  have := Span.length_of_mem_segments _h
  simp only [Prod.lex_def]
  omega

/-- Reads a block with all its parts. -/
def readCompound (span : Span) : Except Fault Stmt :=
  let refused : Fault := Cause.notAnInstruction span.text
  match _h : cut? span with
  | none => .error refused
  | some cut =>
    match Token.scan cut.header.chars with
    | .error _ => .error refused
    | .ok tokens => do
      let header ← Header.ofTokens refused (!cut.rest.isEmpty) tokens
      match header, cut.rest with
      | header, [] => return header.withBody (readBlock cut.body)
      | .branch condition, _ =>
        let arms ← readArms refused cut.rest
        return .branch ((some condition, readBlock cut.body) :: arms)
      | .attempt, _ =>
        let handler ← readHandler refused cut.rest
        return .attempt (readBlock cut.body) (some handler)
      | _, _ => throw refused
termination_by (span.length, 1)
decreasing_by
  all_goals
    have := length_cut? _h
    simp only [Prod.lex_def]
    omega

/-- Reads the arms that continue a branch. -/
def readArms (refused : Fault) (span : Span) : Except Fault (List (Option Expr × Block)) :=
  if span.isEmpty then .ok []
  else
    match _h : cut? span with
    | none => do
      let _ ← readArmCondition refused span ((span.splitUnquoted '{').elim [] Prod.fst)
      throw refused
    | some cut => do
      let condition ← readArmCondition refused span cut.header
      let arms ← readArms refused cut.rest
      return (condition, readBlock cut.body) :: arms
termination_by (span.length, 1)
decreasing_by
  all_goals
    have := length_cut? _h
    simp only [Prod.lex_def]
    omega

/-- Reads the handler that ends an attempt. -/
def readHandler (refused : Fault) (span : Span) : Except Fault Block :=
  match _h : cut? span with
  | none => .error refused
  | some cut =>
    if span.startsWith "catch\x7b" && cut.rest.isEmpty then .ok (readBlock cut.body)
    else .error refused
termination_by (span.length, 1)
decreasing_by
  have := length_cut? _h
  simp only [Prod.lex_def]
  omega

end

-- -------------------------------------------------------------- what is cut

section

variable {refused : Fault} {span : Span} {cut : Cut}

theorem readCompound_of_none (none : cut? span = none) :
    readCompound span = .error (Cause.notAnInstruction span.text) := by
  rw [readCompound.eq_def]
  split
  · rfl
  · rename_i some
    rw [none] at some
    cases some

/-- A block with a body is read by its header, and by what goes on behind. -/
theorem readCompound_of_cut (isCut : cut? span = some cut) :
    readCompound span =
      let refused : Fault := Cause.notAnInstruction span.text
      (match Token.scan cut.header.chars with
      | .error _ => .error refused
      | .ok tokens => do
        let header ← Header.ofTokens refused (!cut.rest.isEmpty) tokens
        match header, cut.rest with
        | header, [] => return header.withBody (readBlock cut.body)
        | .branch condition, _ =>
          let arms ← readArms refused cut.rest
          return .branch ((some condition, readBlock cut.body) :: arms)
        | .attempt, _ =>
          let handler ← readHandler refused cut.rest
          return .attempt (readBlock cut.body) (some handler)
        | _, _ => throw refused) := by
  rw [readCompound.eq_def]
  split
  · rename_i none
    rw [isCut] at none
    cases none
  · rename_i same
    rw [isCut] at same
    cases same
    rfl

theorem readArms_of_none (behind : span ≠ []) (none : cut? span = none) :
    readArms refused span = (do
      let _ ← readArmCondition refused span ((span.splitUnquoted '{').elim [] Prod.fst)
      throw refused) := by
  rw [readArms.eq_def, if_neg (mt List.isEmpty_iff.1 behind)]
  split
  · rfl
  · rename_i some
    rw [none] at some
    cases some

theorem readArms_of_cut (behind : span ≠ []) (isCut : cut? span = some cut) :
    readArms refused span = (do
      let condition ← readArmCondition refused span cut.header
      let arms ← readArms refused cut.rest
      return (condition, readBlock cut.body) :: arms) := by
  rw [readArms.eq_def, if_neg (mt List.isEmpty_iff.1 behind)]
  split
  · rename_i none
    rw [isCut] at none
    cases none
  · rename_i same
    rw [isCut] at same
    cases same
    rfl

theorem readHandler_eq (refused : Fault) (span : Span) :
    readHandler refused span =
      (match cut? span with
      | none => .error refused
      | some cut =>
        if span.startsWith "catch\x7b" && cut.rest.isEmpty then .ok (readBlock cut.body)
        else .error refused) := by
  rw [readHandler.eq_def]
  split
  · rename_i none
    rw [none]
  · rename_i isCut
    rw [isCut]

end

end Stmt

/-- The program of a source. Only literals and delimiters that do not close
keep a source from being one. -/
def Block.ofSource (source : String) : Except Fault Block :=
  (Span.normalize source).map Stmt.readBlock

end RoutineScript
