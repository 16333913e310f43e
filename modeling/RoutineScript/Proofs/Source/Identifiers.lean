/-
The names that are read from a source, all of which are legal.

A word begins with a letter and goes on with letters and numerals of any
alphabet, and none of these is a character that names may not have. The two
words that are no names, though they look like ones, are keywords. So every
name among the tokens of a text is legal (`Token.check_of_scan`).

# What statements bind

The names that a statement binds (`Stmt.binds`) are taken from its tokens: they
stand there alone, or at the end of what is read as a member of an object. That
is an expression, whose tree has no other names than its tokens. So a name that
is not legal never gets into a statement; tokens that are no name, where there
has to be one, make a statement that raises the fault when it is executed.
-/
import Mathlib.Data.List.TakeDrop
import RoutineScript.Name
import RoutineScript.Proofs.Reading.Leaves
import RoutineScript.Proofs.Source.Lexemes
import RoutineScript.Proofs.Source.Statements

namespace RoutineScript

-- ==================================================================== words

namespace Name

/-- No character of a word is one that names may not have. -/
theorem plain_of_isWordChar {c : Char} (word : Text.isWordChar c = true) :
    c ∉ reserved ∧ c ≠ '!' ∧ c ≠ '&' ∧ c ≠ '|' := by
  refine ⟨fun mem => ?_, ?_, ?_, ?_⟩
  · have none : reserved.all (fun d => !Text.isWordChar d) = true := by decide
    have noWord := List.all_eq_true.1 none c mem
    rw [word] at noWord
    cases noWord
  all_goals
    rintro rfl
    revert word
    decide

theorem hasDouble_of_not_mem {c : Char} {text : List Char} (absent : c ∉ text) :
    hasDouble c text = false := by
  induction text with
  | nil => rfl
  | cons d rest ih =>
    obtain ⟨other, behind⟩ := List.ne_and_not_mem_of_not_mem_cons absent
    cases rest with
    | nil => rfl
    | cons e rest =>
      rw [hasDouble, ih behind, beq_eq_false_iff_ne.2 (Ne.symm other)]
      rfl

/-- A word that is no keyword is a legal name. -/
theorem check_of_word {name : String} (word : Token.IsWord name.toList)
    (plain : Keyword.ofSpelling? name = none) : check name = .ok () := by
  have solid := fun c mem => plain_of_isWordChar (word.isWordChar c mem)
  have noReserved : name.toList.any reserved.contains = false := by
    rw [List.any_eq_false]
    intro c mem contained
    exact (solid c mem).1 (List.contains_iff_mem.1 contained)
  have noNegation : name.toList.head? ≠ some '!' := fun first =>
    (solid '!' (List.mem_of_head? first)).2.1 rfl
  have noAnd := hasDouble_of_not_mem fun mem => (solid '&' mem).2.2.1 rfl
  have noOr := hasDouble_of_not_mem fun mem => (solid '|' mem).2.2.2 rfl
  have noTruth : name ≠ "true" ∧ name ≠ "false" := by
    constructor <;> (rintro rfl; revert plain; decide)
  rw [check_eq_ok_iff, isLegal]
  simp [word.ne_nil, noReserved, noNegation, noAnd, noOr, noTruth]

end Name

namespace Token

/-- All names among some tokens are legal. -/
def Legal (tokens : List Token) : Prop :=
  ∀ x, name x ∈ tokens → Name.check x = .ok ()

variable {tokens others : List Token}

theorem Legal.mono (legal : Legal tokens) (sub : others ⊆ tokens) : Legal others :=
  fun x mem => legal x (sub mem)

theorem check_of_scanOne {c : Char} {rest after : List Char} {x : String}
    (one : scanOne c rest = .ok (name x, after)) : Name.check x = .ok () := by
  have begins := beginsName_of_scanOne_name one
  rw [scanOne_word begins] at one
  obtain ⟨isName, -⟩ := Prod.mk.inj (Except.ok.inj one)
  unfold ofWord at isName
  split at isName
  · cases isName
  · next plain =>
    cases isName
    refine Name.check_of_word ⟨c, _, String.toList_ofList, begins, ?_⟩ plain
    exact List.all_eq_true.1 List.all_takeWhile

/-- All names among the tokens of a text are legal. -/
theorem check_of_scan {text : List Char} (scanned : scan text = .ok tokens) : Legal tokens := by
  fun_induction scan text generalizing tokens with
  | case1 =>
    cases scanned
    exact fun x mem => by cases mem
  | case2 c rest blank ih => exact ih scanned
  | case3 => cases scanned
  | case4 c rest solid token after one ih =>
    cases behind : scan after with
    | error fault =>
      rw [behind] at scanned
      cases scanned
    | ok others =>
      rw [behind] at scanned
      cases scanned
      intro x mem
      rcases List.mem_cons.1 mem with rfl | mem
      · exact check_of_scanOne one
      · exact ih behind x mem

end Token

-- ======================================================= parts of some tokens

namespace Token

variable {tokens inside after piece front behind : List Token}

theorem sublist_of_splitClosing {opener closer : Mark} {depth : Nat}
    (closes : splitClosing opener closer depth tokens = some (inside, after)) :
    inside.Sublist tokens := by
  rw [ByOffset.append_of_splitClosing closes]
  exact List.sublist_append_left _ _

theorem sublist_of_allInParens? (enclosed : allInParens? tokens = some inside) :
    inside.Sublist tokens := by
  unfold allInParens? at enclosed
  split at enclosed
  · split at enclosed
    · next closes =>
      cases enclosed
      exact (sublist_of_splitClosing closes).trans (List.sublist_cons_self _ _)
    · cases enclosed
  · cases enclosed

theorem sublist_of_mem_splitCommas {depth : Nat} (mem : piece ∈ splitCommas depth tokens) :
    piece.Sublist tokens := by
  induction tokens generalizing depth piece with
  | nil =>
    rw [List.mem_singleton.1 mem]
  | cons token rest ih =>
    unfold splitCommas at mem
    split at mem
    · rcases List.mem_cons.1 mem with rfl | mem
      · exact List.nil_sublist _
      · exact (ih mem).cons token
    · split at mem
      · rw [List.mem_singleton.1 mem]
        exact List.Sublist.cons_cons token (List.nil_sublist rest)
      · next cut =>
        rcases List.mem_cons.1 mem with rfl | mem
        · exact (ih (cut ▸ List.mem_cons_self)).cons_cons token
        · exact (ih (cut ▸ List.mem_cons_of_mem _ mem)).cons token

theorem sublist_of_splitAssignment {depth : Nat} {op : Option BinaryOp}
    (cut : splitAssignment depth tokens = some (front, op, behind)) : front.Sublist tokens := by
  induction tokens generalizing depth front with
  | nil => cases cut
  | cons token rest ih =>
    unfold splitAssignment at cut
    split at cut
    · cases cut
      exact List.nil_sublist _
    · obtain ⟨⟨place, op', value⟩, inner, same⟩ := Option.map_eq_some_iff.1 cut
      cases same
      exact (ih inner).cons_cons token

theorem sublist_of_splitStep {delta : Float} (cut : splitStep tokens = some (front, delta)) :
    front.Sublist tokens := by
  unfold splitStep at cut
  split at cut <;> cases cut
  · exact List.dropLast_sublist tokens
  · exact List.dropLast_sublist tokens

theorem mem_of_mem_ungroup {token : Token} {behindName : Bool} {opened : List Bool}
    (mem : token ∈ ungroup behindName opened tokens) : token ∈ tokens := by
  fun_induction ungroup behindName opened tokens <;> grind

end Token

theorem Stmt.sublist_of_splitParen {tokens front behind : List Token}
    (cut : splitParen tokens = (front, behind)) :
    front.Sublist tokens ∧ behind.Sublist tokens := by
  unfold splitParen at cut
  rw [List.span_eq_takeWhile_dropWhile] at cut
  obtain ⟨rfl, rfl⟩ := Prod.mk.inj cut
  exact ⟨List.takeWhile_sublist _, List.dropWhile_sublist _⟩

-- =================================================================== places

/-- The name of the variable that a place is. -/
def Place.variable : Place → String
  | name x => x
  | member _ m => m

section

variable {tokens : List Token} (legal : Token.Legal tokens)

include legal

theorem Token.reads_soleName : Reads (fun x => Name.check x = .ok ()) (Token.soleName tokens) := by
  unfold Token.soleName
  split
  · next x => exact .ok (legal x List.mem_cons_self)
  · exact .refused rfl

/-- What is read as a member ends with the name of the member. -/
theorem Place.reads_ofTokens :
    Reads (fun place : Place => Name.check place.variable = .ok ()) (Place.ofTokens tokens) := by
  unfold Place.ofTokens
  split
  · next x => exact .ok (legal x List.mem_cons_self)
  · split
    · next object m read =>
      have leaf : .name m ∈ (Expr.member object m).leaves := by simp [Expr.leaves]
      rw [Expr.leaves_of_read read] at leaf
      exact .ok (legal m (Token.mem_of_mem_ungroup leaf))
    · exact .refused rfl

end

-- =============================================================== statements

namespace Stmt

/-- The names that a statement binds itself: a variable that it assigns or
declares, or what it defines, parameters included. -/
def binds : Stmt → List String
  | assign place _ | compound place _ _ | step place _ => [place.variable]
  | make name | countLoop name .. | declareClass name .. => [name]
  | define name params _ => name :: params
  | _ => []

/-- The names that the statement of a header binds. -/
def Header.binds : Header → List String
  | countLoop name .. | declareClass name _ => [name]
  | define name params => name :: params
  | _ => []

theorem binds_withBody (header : Header) (body : Block) :
    (header.withBody body).binds = header.binds := by
  cases header <;> rfl

/-- All names that a statement binds itself are legal. -/
def BindsLegal (statement : Stmt) : Prop :=
  ∀ name ∈ statement.binds, Name.check name = .ok ()

/-- All names that the statement of a header binds are legal. -/
def Header.BindsLegal (header : Header) : Prop :=
  ∀ name ∈ header.binds, Name.check name = .ok ()

section

variable {refused : Fault} (unknown : refused.line = none) {tokens : List Token}
  (legal : Token.Legal tokens)

include unknown legal

theorem binds_ofPlainTokens : Reads BindsLegal (ofPlainTokens refused tokens) := by
  unfold ofPlainTokens
  split
  · next cut =>
    refine (Place.reads_ofTokens
      (legal.mono (Token.sublist_of_splitAssignment cut).subset)).bind fun place own => ?_
    refine unlocated_bind (Expr.unlocated_ofTokens _) fun _ => ?_
    split <;> exact .ok (List.forall_mem_singleton.2 own)
  · split
    · next cut =>
      exact (Place.reads_ofTokens (legal.mono (Token.sublist_of_splitStep cut).subset)).bind
        fun place own => .ok (List.forall_mem_singleton.2 own)
    · split
      · exact .ok nofun
      · exact .ok nofun
      · exact .refused unknown

theorem binds_ofTokens : Reads BindsLegal (ofTokens refused tokens) := by
  unfold ofTokens
  split
  · exact .refused unknown
  · exact .ok nofun
  · exact unlocated_bind (Expr.unlocated_ofTokens _) fun _ => .ok nofun
  · exact unlocated_bind (unlocated_place _) fun _ => .ok nofun
  · next name =>
    exact (Token.reads_soleName (legal.mono (List.subset_cons_self _ _))).bind
      fun x own => .ok (List.forall_mem_singleton.2 own)
  · exact binds_ofPlainTokens unknown legal

end

theorem binds_readInstruction (text : Span) : Reads BindsLegal (readInstruction text) := by
  unfold readInstruction
  dsimp only
  split
  · exact .refused rfl
  · next scanned => exact binds_ofTokens rfl (Token.check_of_scan scanned)

-- ------------------------------------------------------------------ headers

section

variable {refused : Fault} (unknown : refused.line = none) {tokens : List Token}
  (legal : Token.Legal tokens)

include legal

theorem reads_readParams :
    Reads (fun params => ∀ x ∈ params, Name.check x = .ok ()) (readParams tokens) := by
  unfold readParams
  split
  · exact .ok nofun
  · have pieces : ∀ piece ∈ Token.splitCommas 0 tokens, Token.Legal piece := fun piece mem =>
      legal.mono (Token.sublist_of_mem_splitCommas mem).subset
    generalize Token.splitCommas 0 tokens = cut at pieces
    induction cut with
    | nil => exact .ok nofun
    | cons piece cut ih =>
      obtain ⟨first, others⟩ := List.forall_mem_cons.1 pieces
      rw [List.mapM_cons]
      exact (Token.reads_soleName first).bind fun x own =>
        (ih others).bind fun xs behind => .ok (List.forall_mem_cons.2 ⟨own, behind⟩)

include unknown

theorem binds_readCount : Reads Header.BindsLegal (readCount refused tokens) := by
  unfold readCount
  split
  · exact .refused unknown
  · next enclosed =>
    have inside := legal.mono (Token.sublist_of_allInParens? enclosed).subset
    split
    · next name start stop cut =>
      have piece : name ∈ Token.splitCommas 0 _ := cut ▸ List.mem_cons_self
      have first := inside.mono (Token.sublist_of_mem_splitCommas piece).subset
      refine (Token.reads_soleName first).bind fun x own => ?_
      refine unlocated_bind (Expr.unlocated_ofTokens _) fun _ => ?_
      exact unlocated_bind (Expr.unlocated_ofTokens _) fun _ =>
        .ok (List.forall_mem_singleton.2 own)
    · exact .refused unknown

theorem binds_readDefinition : Reads Header.BindsLegal (readDefinition refused tokens) := by
  unfold readDefinition
  split
  · exact .refused unknown
  · next name params _ cut =>
    obtain ⟨front, behind⟩ := sublist_of_splitParen cut
    refine (Token.reads_soleName (legal.mono front.subset)).bind fun x own => ?_
    split
    · exact .refused unknown
    · next enclosed =>
      have inside := (Token.sublist_of_allInParens? enclosed).trans behind
      exact (reads_readParams (legal.mono inside.subset)).bind fun params others =>
        .ok (List.forall_mem_cons.2 ⟨own, others⟩)

theorem binds_readClass : Reads Header.BindsLegal (readClass refused tokens) := by
  unfold readClass
  split
  · next name cut =>
    have front := (sublist_of_splitParen cut).1
    exact (Token.reads_soleName (legal.mono front.subset)).bind fun x own =>
      .ok (List.forall_mem_singleton.2 own)
  · next name parent _ cut =>
    have front := (sublist_of_splitParen cut).1
    refine (Token.reads_soleName (legal.mono front.subset)).bind fun x own => ?_
    split
    · exact .refused unknown
    · exact unlocated_bind (Expr.unlocated_ofTokens _) fun _ =>
        .ok (List.forall_mem_singleton.2 own)

theorem binds_header (goesOn : Bool) :
    Reads Header.BindsLegal (Header.ofTokens refused goesOn tokens) := by
  have condition : ∀ (build : Expr → Header) (rest : List Token),
      (∀ e, (build e).binds = []) →
      Reads Header.BindsLegal ((readCondition refused rest).map build) := by
    intro build rest none
    have reads := unlocated_readCondition unknown rest
    generalize readCondition refused rest = result at reads
    cases reads with
    | ok => exact .ok fun x mem => by simp [none] at mem
    | refused unknown => exact .refused unknown
  have sole : ∀ (rest : List Token) (header : Header), header.binds = [] →
      Reads Header.BindsLegal (if rest.isEmpty then .ok header else .error refused) := by
    intro rest header none
    split
    · exact .ok fun x mem => by simp [none] at mem
    · exact .refused unknown
  unfold Header.ofTokens
  split
  · next word rest =>
    have behind := legal.mono (List.subset_cons_self (.name word) rest)
    split
    · exact condition _ _ fun _ => rfl
    split
    · exact sole _ _ rfl
    split
    · exact .refused unknown
    split
    · exact condition _ _ fun _ => rfl
    split
    · exact condition _ _ fun _ => rfl
    split
    · exact binds_readCount unknown behind
    split
    · exact sole _ _ rfl
    split
    · exact binds_readDefinition unknown behind
    split
    · exact binds_readClass unknown behind
    · exact .refused unknown
  · exact .refused unknown

end

-- ------------------------------------------------------------------- blocks

theorem binds_readCompound (text : Span) : Reads BindsLegal (readCompound text) := by
  cases isCut : cut? text with
  | none =>
    rw [readCompound_of_none isCut]
    exact .refused rfl
  | some cut =>
    rw [readCompound_of_cut isCut]
    dsimp only
    cases scanned : Token.scan cut.header.chars with
    | error => exact .refused rfl
    | ok tokens =>
      refine (binds_header rfl (Token.check_of_scan scanned) _).bind fun header own => ?_
      cases cut.rest with
      | nil =>
        refine .ok ?_
        rw [BindsLegal, binds_withBody]
        exact own
      | cons c rest =>
        cases header with
        | branch condition =>
          exact (reads_readArms rfl (c :: rest)).bind fun arms _ => .ok nofun
        | attempt => exact (reads_readHandler rfl (c :: rest)).bind fun handler _ => .ok nofun
        | whileLoop | forLoop | countLoop | thread | define | declareClass => exact .refused rfl

theorem binds_readForm (form : Segment.Form) (text : Span) :
    Reads BindsLegal (readForm form text) := by
  cases form with
  | instruction => exact binds_readInstruction text
  | block => exact binds_readCompound text

theorem binds_readPart (part : Segment.Form × Span) : (readPart part).val.BindsLegal := by
  have reads := binds_readForm part.1 part.2
  rw [readPart]
  generalize readForm part.1 part.2 = result at reads
  cases reads with
  | ok own => exact own
  | refused => exact fun name mem => absurd mem List.not_mem_nil

/-- Every statement of a text, at every depth, is what a part of it is read
as. -/
theorem exists_readPart_of_mem (text : Span) {s : Located Stmt}
    (mem : s ∈ (readBlock text).statements) : ∃ part, s = readPart part := by
  obtain ⟨level, -, segment, -, same⟩ := exists_segment_of_mem text mem
  exact ⟨_, same⟩

end Stmt

/-- All names that the statements of a source bind are legal. -/
theorem Block.bindsLegal_of_ofSource {source : String} {program : Block}
    (accepted : Block.ofSource source = .ok program) :
    ∀ s ∈ program.statements, s.val.BindsLegal := by
  intro s mem
  obtain ⟨text, -, rfl⟩ := exists_of_ofSource accepted
  obtain ⟨part, rfl⟩ := Stmt.exists_readPart_of_mem text mem
  exact Stmt.binds_readPart part

end RoutineScript
