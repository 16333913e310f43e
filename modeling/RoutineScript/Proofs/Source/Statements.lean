/-
The statements of a source, at every depth, as pieces of its text.

Reading a block cuts it into segments, and a segment that is itself a block
is cut into its parts, each with a body. What is within the block are the
statements of its bodies, in order (`reads_readCompound`). A body is a level of
its own, which is cut in the same way. `Level` says which texts come up as a whole on the
way down, whatever is made of them there, and the statements of a program
are those of the levels of its text (`exists_level_of_mem`).
-/
import RoutineScript.Proofs.Source.Refusals
import RoutineScript.Proofs.Printing.Program

namespace RoutineScript

-- ================================================================= levels

namespace Stmt

/-- The parts of a block: the first one, and each that stands behind another
one. -/
inductive Part (block : Span) : Cut → Prop where
  | first {cut : Cut} : cut? block = some cut → Part block cut
  | next {cut cut' : Cut} : Part block cut → cut? cut.rest = some cut' → Part block cut'

/-- The levels of a text: the text itself, and the body of each part of each
block of a level. -/
inductive Level (top : Span) : Span → Prop where
  | top : Level top top
  | body {level : Span} {segment : Segment} {cut : Cut} :
      Level top level → segment ∈ level.segments 0 → segment.form = .block →
        Part segment.span cut → Level top cut.body

theorem Level.trans {a b c : Span} (first : Level a b) (second : Level b c) : Level a c := by
  induction second with
  | top => exact first
  | body _ mem form part ih => exact .body ih mem form part

-- ============================================================= statements

mutual

/-- The statements within a statement, at every depth. -/
def within : Stmt → List (Located Stmt)
  | branch arms => armsStatements arms
  | whileLoop _ body | forLoop _ body | countLoop _ _ _ body | thread body =>
    blockStatements body
  | attempt body none => blockStatements body
  | attempt body (some handler) => blockStatements body ++ blockStatements handler
  | define _ _ body | declareClass _ _ body => blockStatements body
  | _ => []

/-- The statements of a block, at every depth. -/
def blockStatements : List (Located Stmt) → List (Located Stmt)
  | [] => []
  | ⟨line, statement⟩ :: rest => ⟨line, statement⟩ :: (statement.within ++ blockStatements rest)

/-- The statements of some arms, at every depth. -/
def armsStatements : List (Option Expr × List (Located Stmt)) → List (Located Stmt)
  | [] => []
  | (_, body) :: rest => blockStatements body ++ armsStatements rest

end

end Stmt

/-- The statements of a program, at every depth. -/
abbrev Block.statements (program : Block) : List (Located Stmt) :=
  Stmt.blockStatements program

namespace Stmt

variable {s : Located Stmt} {text span : Span} {refused : Fault}

/-- A statement of a block is one of its own, or within one. -/
theorem mem_blockStatements {block : Block} :
    s ∈ block.statements ↔ ∃ t ∈ block, s = t ∨ s ∈ t.val.within := by
  induction block with
  | nil => simp [blockStatements]
  | cons t block ih =>
    obtain ⟨line, statement⟩ := t
    simp [blockStatements, ih, or_assoc]

/-- What a header is put in front of is all that is within its statement. -/
theorem within_withBody (header : Header) (body : Block) :
    (header.withBody body).within = body.statements := by
  cases header with
  | branch condition => simp [Header.withBody, within, armsStatements]
  | _ => rfl

/-- A statement that could be read. -/
def isValid : Stmt → Bool
  | invalid _ => false
  | _ => true

theorem isValid_withBody (header : Header) (body : Block) :
    (header.withBody body).isValid = true := by
  cases header <;> rfl

-- ========================================================= reading statements

/-- A statement without a body that could be read. -/
def isInstruction : Stmt → Bool
  | assign .. | compound .. | step .. | delete _ | make _ | call .. | .return _ => true
  | _ => false

/-- A statement that a text has been read as. What is within it has been read
from the bodies of the text. -/
structure ReadFrom (form : Segment.Form) (text : Span) (statement : Stmt) : Prop where
  within : ∀ s ∈ statement.within,
    form = .block ∧ ∃ cut, Part text cut ∧ s ∈ (readBlock cut.body).statements
  valid : statement.isValid = true
  simple : form = .instruction → statement.isInstruction = true

theorem readFrom_instruction {form : Segment.Form} {statement : Stmt}
    (own : statement.isInstruction = true) : ReadFrom form text statement := by
  refine ⟨fun s mem => ?_, ?_, fun _ => own⟩
  · cases statement <;> first | cases mem | cases own
  · cases statement <;> first | rfl | cases own

theorem reads_ofPlainTokens (unknown : refused.line = none) (tokens : List Token) :
    Reads (ReadFrom .instruction text) (ofPlainTokens refused tokens) := by
  unfold ofPlainTokens
  split
  · refine unlocated_bind (unlocated_place _) fun _ => ?_
    refine unlocated_bind (Expr.unlocated_ofTokens _) fun _ => ?_
    split <;> exact .ok (readFrom_instruction rfl)
  · split
    · exact unlocated_bind (unlocated_place _) fun _ => .ok (readFrom_instruction rfl)
    · split
      · exact .ok (readFrom_instruction rfl)
      · exact .ok (readFrom_instruction rfl)
      · exact .refused unknown

theorem reads_ofTokens (unknown : refused.line = none) (tokens : List Token) :
    Reads (ReadFrom .instruction text) (ofTokens refused tokens) := by
  unfold ofTokens
  split
  · exact .refused unknown
  · exact .ok (readFrom_instruction rfl)
  · exact unlocated_bind (Expr.unlocated_ofTokens _) fun _ => .ok (readFrom_instruction rfl)
  · exact unlocated_bind (unlocated_place _) fun _ => .ok (readFrom_instruction rfl)
  · exact unlocated_bind (unlocated_soleName _) fun _ => .ok (readFrom_instruction rfl)
  · exact reads_ofPlainTokens unknown tokens

theorem reads_readInstruction (text : Span) :
    Reads (ReadFrom .instruction text) (readInstruction text) := by
  unfold readInstruction
  dsimp only
  split
  · exact .refused rfl
  · exact reads_ofTokens rfl _

-- ---------------------------------------------------------------- bodies

/-- The bodies of a block, or some of them, from the first one on. -/
inductive Bodies : Span → List Span → Prop where
  | nil {text : Span} : Bodies text []
  | cons {text : Span} {cut : Cut} {bodies : List Span} :
      cut? text = some cut → Bodies cut.rest bodies → Bodies text (cut.body :: bodies)

theorem Bodies.exists_part {bodies : List Span} {body : Span} (isBodies : Bodies span bodies)
    (parts : ∀ cut, cut? span = some cut → Part text cut) (mem : body ∈ bodies) :
    ∃ cut, Part text cut ∧ body = cut.body := by
  induction isBodies with
  | nil => cases mem
  | @cons span cut bodies isCut _ ih =>
    have part := parts cut isCut
    rcases List.mem_cons.1 mem with rfl | mem
    · exact ⟨cut, part, rfl⟩
    · exact ih (fun cut' => .next part) mem

/-- The statements of some bodies, in order. -/
def bodiesStatements (bodies : List Span) : List (Located Stmt) :=
  bodies.flatMap fun body => (readBlock body).statements

theorem bodiesStatements_singleton (body : Span) :
    bodiesStatements [body] = (readBlock body).statements :=
  List.flatMap_singleton _ _

theorem bodiesStatements_cons (body : Span) (bodies : List Span) :
    bodiesStatements (body :: bodies) = (readBlock body).statements ++ bodiesStatements bodies :=
  List.flatMap_cons

/-- Some statements are those of bodies of a text, in order. -/
def OfBodies (text : Span) (statements : List (Located Stmt)) : Prop :=
  ∃ bodies, Bodies text bodies ∧ statements = bodiesStatements bodies

theorem ofBodies_first {cut : Cut} (isCut : cut? span = some cut) :
    OfBodies span (readBlock cut.body).statements :=
  ⟨[cut.body], .cons isCut .nil, (bodiesStatements_singleton _).symm⟩

theorem OfBodies.behind {cut : Cut} {statements : List (Located Stmt)} (isCut : cut? span = some cut)
    (others : OfBodies cut.rest statements) :
    OfBodies span ((readBlock cut.body).statements ++ statements) := by
  obtain ⟨bodies, isBodies, rfl⟩ := others
  exact ⟨cut.body :: bodies, .cons isCut isBodies, (bodiesStatements_cons _ _).symm⟩

theorem reads_readHandler (unknown : refused.line = none) (span : Span) :
    Reads (fun handler => OfBodies span (blockStatements handler)) (readHandler refused span) := by
  rw [readHandler_eq]
  cases isCut : cut? span with
  | none => exact .refused unknown
  | some cut =>
    dsimp only
    split
    · exact .ok (ofBodies_first isCut)
    · exact .refused unknown

theorem reads_readArms (unknown : refused.line = none) (span : Span) :
    Reads (fun arms => OfBodies span (armsStatements arms)) (readArms refused span) := by
  by_cases empty : span = []
  · rw [empty, readArms_nil]
    exact .ok ⟨[], .nil, rfl⟩
  · cases isCut : cut? span with
    | none =>
      rw [readArms_of_none empty isCut]
      exact unlocated_bind (unlocated_readArmCondition unknown _ _) fun _ => .refused unknown
    | some cut =>
      have shorter := (length_cut? isCut).2
      rw [readArms_of_cut empty isCut]
      refine unlocated_bind (unlocated_readArmCondition unknown _ _) fun _ => ?_
      exact (reads_readArms unknown cut.rest).bind fun arms others => .ok (others.behind isCut)
termination_by span.length

/-- What is within a block are the statements of its bodies, in order. -/
theorem reads_readCompound (span : Span) :
    Reads (fun statement => OfBodies span statement.within ∧ statement.isValid = true)
      (readCompound span) := by
  cases isCut : cut? span with
  | none =>
    rw [readCompound_of_none isCut]
    exact .refused rfl
  | some cut =>
    rw [readCompound_of_cut isCut]
    dsimp only
    cases Token.scan cut.header.chars with
    | error => exact .refused rfl
    | ok tokens =>
      refine unlocated_bind (unlocated_header rfl _ _) fun header => ?_
      cases behind : cut.rest with
      | nil =>
        refine .ok ⟨?_, isValid_withBody _ _⟩
        rw [within_withBody]
        exact ofBodies_first isCut
      | cons c rest =>
        cases header with
        | branch condition =>
          refine (reads_readArms rfl (c :: rest)).bind fun arms others => .ok ⟨?_, rfl⟩
          rw [← behind] at others
          exact others.behind isCut
        | attempt =>
          refine (reads_readHandler rfl (c :: rest)).bind fun handler others => .ok ⟨?_, rfl⟩
          rw [← behind] at others
          exact others.behind isCut
        | whileLoop | forLoop | countLoop | thread | define | declareClass => exact .refused rfl

theorem readFrom_ofBodies {statement : Stmt} (own : OfBodies text statement.within)
    (valid : statement.isValid = true) : ReadFrom .block text statement := by
  obtain ⟨bodies, isBodies, same⟩ := own
  refine ⟨fun s mem => ⟨rfl, ?_⟩, valid, nofun⟩
  rw [same] at mem
  obtain ⟨body, isBody, inside⟩ := List.mem_flatMap.1 mem
  obtain ⟨cut, part, rfl⟩ := isBodies.exists_part (fun _ => .first) isBody
  exact ⟨cut, part, inside⟩

theorem reads_readForm (form : Segment.Form) (text : Span) :
    Reads (ReadFrom form text) (readForm form text) := by
  cases form with
  | instruction => exact reads_readInstruction text
  | block => exact (reads_readCompound text).imp fun statement own => readFrom_ofBodies own.1 own.2

-- ------------------------------------------------------------------ segments

/-- A statement on the line where a text begins. If it could not be read, it
raises its fault there. -/
structure StandsAt (text : Span) (s : Located Stmt) : Prop where
  line : s.line = text.firstLine
  invalid : ∀ fault, s.val = .invalid fault → fault.line = some s.line

theorem standsAt_readPart (form : Segment.Form) (text : Span) :
    StandsAt text (readPart (form, text)) ∧ ∀ s ∈ (readPart (form, text)).val.within,
      form = .block ∧ ∃ cut, Part text cut ∧ s ∈ (readBlock cut.body).statements := by
  have reads := reads_readForm form text
  rw [readPart]
  dsimp only
  generalize readForm form text = result at reads
  cases reads with
  | ok holds =>
    refine ⟨⟨rfl, ?_⟩, holds.within⟩
    rintro fault rfl
    cases holds.valid
  | refused unknown =>
    refine ⟨⟨rfl, ?_⟩, by simp [within]⟩
    rintro _ ⟨⟩
    simp [Fault.line_atLine, unknown]

theorem Part.length_lt {cut : Cut} (part : Part text cut) :
    cut.body.length < text.length ∧ cut.rest.length < text.length := by
  induction part with
  | first isCut => exact length_cut? isCut
  | next _ isCut ih =>
    have := length_cut? isCut
    omega

/-- Every statement of a text is what a segment of one of its levels is read as. -/
theorem exists_segment_of_mem (text : Span) (mem : s ∈ (readBlock text).statements) :
    ∃ level, Level text level ∧
      ∃ segment ∈ level.segments 0, s = readPart (segment.form, segment.span) := by
  rw [readBlock_eq, List.map_map, mem_blockStatements] at mem
  obtain ⟨_, own, isStatement⟩ := mem
  obtain ⟨segment, isSegment, rfl⟩ := List.mem_map.1 own
  rcases isStatement with rfl | inside
  · exact ⟨text, .top, segment, isSegment, rfl⟩
  · obtain ⟨isBlock, cut, part, inside⟩ := (standsAt_readPart segment.form segment.span).2 s inside
    obtain ⟨level, isLevel, found⟩ := exists_segment_of_mem cut.body inside
    exact ⟨level, (Level.top.body isSegment isBlock part).trans isLevel, found⟩
termination_by text.length
decreasing_by
  have shorter := part.length_lt.1
  have within := Span.length_of_mem_segments isSegment
  omega

/-- Every statement of a text is a segment of one of its levels. -/
theorem exists_level_of_mem (text : Span) (mem : s ∈ (readBlock text).statements) :
    ∃ level, Level text level ∧ ∃ segment ∈ level.segments 0, StandsAt segment.span s := by
  obtain ⟨level, isLevel, segment, isSegment, rfl⟩ := exists_segment_of_mem text mem
  exact ⟨level, isLevel, segment, isSegment, (standsAt_readPart segment.form segment.span).1⟩

end Stmt

/-- A program is what the normalized source is read as. -/
theorem Block.exists_of_ofSource {source : String} {program : Block}
    (accepted : ofSource source = .ok program) :
    ∃ text, Span.normalize source = .ok text ∧ program = Stmt.readBlock text := by
  rw [ofSource] at accepted
  cases normal : Span.normalize source with
  | error fault =>
    rw [normal] at accepted
    cases accepted
  | ok text =>
    rw [normal] at accepted
    cases accepted
    exact ⟨text, rfl, rfl⟩

end RoutineScript
