/-
Printing statements and programs.

A statement is written as an instruction, or as blocks: a header, a body in
braces, and the blocks that continue it. Each statement of a body is followed
by a terminator. All of it is one list of tokens, written on one line.

What is shown here of these tokens is what a text of them needs: they scan as
they are spelled, they fit, they close what they open, and a search for the
brace that closes a body passes them.
-/
import RoutineScript.Proofs.Printing.Instruction
import RoutineScript.Proofs.Printing.Normalizing

namespace RoutineScript

-- ================================================================= printing

/-- A header, a body in braces, and what follows. -/
def Token.block (header body rest : List Token) : List Token :=
  header ++ .mark .lbrace :: (body ++ .mark .rbrace :: rest)

namespace Stmt

/-- What stands in front of the body of an arm that continues a branch. -/
def armHeader : Option Expr → List Token
  | some condition => .name "elseif" :: Token.parens condition.tokens
  | none => [.name "else"]

mutual

/-- The tokens that a statement is written with. -/
def tokens : Stmt → List Token
  | branch ((some condition, body) :: arms) =>
    Token.block (Header.branch condition).tokens (blockTokens body) (armsTokens arms)
  | whileLoop condition body =>
    Token.block (Header.whileLoop condition).tokens (blockTokens body) []
  | forLoop count body => Token.block (Header.forLoop count).tokens (blockTokens body) []
  | countLoop x start stop body =>
    Token.block (Header.countLoop x start stop).tokens (blockTokens body) []
  | attempt body none => Token.block Header.attempt.tokens (blockTokens body) []
  | attempt body (some handler) =>
    Token.block Header.attempt.tokens (blockTokens body)
      (Token.block [.name "catch"] (blockTokens handler) [])
  | thread body => Token.block Header.thread.tokens (blockTokens body) []
  | define f params body => Token.block (Header.define f params).tokens (blockTokens body) []
  | declareClass c parent body =>
    Token.block (Header.declareClass c parent).tokens (blockTokens body) []
  | s => s.instructionTokens

/-- The tokens of statements, each with a terminator behind it. -/
def blockTokens : List (Located Stmt) → List Token
  | [] => []
  | ⟨_, s⟩ :: rest => s.tokens ++ .mark .semicolon :: blockTokens rest

/-- The tokens of the arms that continue a branch. -/
def armsTokens : List (Option Expr × List (Located Stmt)) → List Token
  | [] => []
  | (condition, body) :: arms =>
    Token.block (armHeader condition) (blockTokens body) (armsTokens arms)

end

/-- The two forms of statements. -/
def form : Stmt → Segment.Form
  | branch _ | whileLoop _ _ | forLoop _ _ | countLoop _ _ _ _ | attempt _ _ | thread _
  | define _ _ _ | declareClass _ _ _ => .block
  | _ => .instruction

-- ====================================================== what can be printed

mutual

/-- The statements that can be printed: every name scans as one and is not
`elseif`, every number scans as it is spelled, no operator joins texts, only
arithmetic is combined with assignment, steps are by one, and a branch begins
with a condition. -/
def Printable (sp : Spelling) : Stmt → Prop
  | branch ((some condition, body) :: arms) =>
    condition.Printable sp ∧ BlockPrintable sp body ∧ ArmsPrintable sp arms
  | branch _ => False
  | whileLoop condition body => condition.Printable sp ∧ BlockPrintable sp body
  | forLoop count body => count.Printable sp ∧ BlockPrintable sp body
  | countLoop x start stop body =>
    (Header.countLoop x start stop).Printable sp ∧ BlockPrintable sp body
  | attempt body none => BlockPrintable sp body
  | attempt body (some handler) => BlockPrintable sp body ∧ BlockPrintable sp handler
  | thread body => BlockPrintable sp body
  | define f params body => (Header.define f params).Printable sp ∧ BlockPrintable sp body
  | declareClass c parent body =>
    (Header.declareClass c parent).Printable sp ∧ BlockPrintable sp body
  | s => s.InstructionPrintable sp

def BlockPrintable (sp : Spelling) : List (Located Stmt) → Prop
  | [] => True
  | ⟨_, s⟩ :: rest => s.Printable sp ∧ BlockPrintable sp rest

def ArmsPrintable (sp : Spelling) : List (Option Expr × List (Located Stmt)) → Prop
  | [] => True
  | (none, body) :: arms => BlockPrintable sp body ∧ ArmsPrintable sp arms
  | (some condition, body) :: arms =>
    condition.Printable sp ∧ BlockPrintable sp body ∧ ArmsPrintable sp arms

end

-- ==================================================================== lines

mutual

/-- The same statement with all that it holds on one line. -/
def onLine (line : Nat) : Stmt → Stmt
  | branch arms => branch (armsOnLine line arms)
  | whileLoop condition body => whileLoop condition (blockOnLine line body)
  | forLoop count body => forLoop count (blockOnLine line body)
  | countLoop x start stop body => countLoop x start stop (blockOnLine line body)
  | attempt body none => attempt (blockOnLine line body) none
  | attempt body (some handler) =>
    attempt (blockOnLine line body) (some (blockOnLine line handler))
  | thread body => thread (blockOnLine line body)
  | define f params body => define f params (blockOnLine line body)
  | declareClass c parent body => declareClass c parent (blockOnLine line body)
  | s => s

def blockOnLine (line : Nat) : List (Located Stmt) → List (Located Stmt)
  | [] => []
  | ⟨_, s⟩ :: rest => ⟨line, s.onLine line⟩ :: blockOnLine line rest

def armsOnLine (line : Nat) :
    List (Option Expr × List (Located Stmt)) → List (Option Expr × List (Located Stmt))
  | [] => []
  | (condition, body) :: arms => (condition, blockOnLine line body) :: armsOnLine line arms

end

end Stmt

-- =================================================================== wholes

variable {sp : Spelling}

/-- Tokens that can be written as a part of a program. -/
structure Whole (sp : Spelling) (tokens : List Token) : Prop where
  reads : ∀ t ∈ tokens, sp.Reads t
  fitting : Fitting tokens
  closedOff : ClosedOff tokens
  walks : ∀ depth, Walks .braces sp.tidy (depth + 1) tokens (depth + 1)

theorem whole_nil : Whole sp [] where
  reads := List.forall_mem_nil _
  fitting := fitting_nil
  closedOff := closedOff_nil
  walks _ := rfl

theorem whole_nested {flat : Token → Prop} {tokens : List Token} (nested : Nested flat tokens)
    (reads : ∀ t ∈ tokens, sp.Reads t) (fitting : Fitting tokens) : Whole sp tokens where
  reads := reads
  fitting := fitting
  closedOff := closedOff_nested nested
  walks depth := walks_nested nested (fun t mem => reads_tidy (reads t mem)) (depth + 1)

/-- Blocks are written as one part. -/
theorem whole_block {header body rest : List Token} (first : Whole sp header)
    (second : Whole sp body) (third : Whole sp rest) :
    Whole sp (Token.block header body rest) where
  reads := List.forall_mem_append.2 ⟨first.reads, List.forall_mem_cons.2 ⟨trivial,
    List.forall_mem_append.2 ⟨second.reads, List.forall_mem_cons.2 ⟨trivial, third.reads⟩⟩⟩⟩
  fitting := by
    intro m behind free fit
    have tail : Fit (.mark .rbrace :: (rest ++ .mark m :: behind)) :=
      fit_cons_of_isFree rfl (third.fitting m behind free fit)
    have inner : Fit (.mark .lbrace :: (body ++ .mark .rbrace :: (rest ++ .mark m :: behind))) :=
      fit_cons_of_isFree rfl (second.fitting _ _ rfl tail)
    have shape : Token.block header body rest ++ .mark m :: behind
        = header ++ .mark .lbrace :: (body ++ .mark .rbrace :: (rest ++ .mark m :: behind)) := by
      simp [Token.block]
    rw [shape]
    exact first.fitting _ _ rfl inner
  closedOff := by
    have shape : Token.block header body rest
        = header ++ ((.mark .lbrace :: (body ++ [.mark .rbrace])) ++ rest) := by
      simp [Token.block]
    rw [shape]
    exact first.closedOff.append
      ((closedOff_enclosed rfl rfl rfl second.closedOff).append third.closedOff)
  walks depth := by
    have opens : Counter.braces.Passes (depth + 1) ['{'] (depth + 2) :=
      Counter.passes_singleton rfl rfl
    have shuts : Counter.braces.Passes (depth + 2) ['}'] (depth + 1) :=
      Counter.passes_singleton rfl (by simp [Counter.braces])
    exact (first.walks depth).append
      ⟨_, opens, (second.walks (depth + 1)).append ⟨_, shuts, third.walks depth⟩⟩

/-- So are a statement with its terminator and what follows. -/
theorem whole_terminated {tokens rest : List Token} (first : Whole sp tokens)
    (second : Whole sp rest) : Whole sp (tokens ++ .mark .semicolon :: rest) where
  reads := List.forall_mem_append.2
    ⟨first.reads, List.forall_mem_cons.2 ⟨trivial, second.reads⟩⟩
  fitting := by
    intro m behind free fit
    rw [List.append_assoc, List.cons_append]
    exact first.fitting _ _ rfl (fit_cons_of_isFree rfl (second.fitting m behind free fit))
  closedOff := by
    intro stack behind closes
    rw [List.append_assoc, List.cons_append]
    exact first.closedOff _ _ (.other (.inr rfl) (second.closedOff stack behind closes))
  walks depth := by
    have passes : Counter.braces.Passes (depth + 1) [';'] (depth + 1) :=
      Counter.passes_singleton rfl rfl
    exact (first.walks depth).append ⟨_, passes, second.walks depth⟩

namespace Stmt

theorem whole_header (header : Header) (printable : header.Printable sp) :
    Whole sp header.tokens :=
  whole_nested header.nested_tokens (header.reads_tokens printable) header.fitting_tokens

theorem whole_instruction (s : Stmt) (printable : s.InstructionPrintable sp) :
    Whole sp s.instructionTokens :=
  whole_nested s.nested_instructionTokens (s.reads_instructionTokens printable)
    s.fitting_instructionTokens

/-- The condition of an arm can be printed. -/
def ConditionPrintable (sp : Spelling) (condition : Option Expr) : Prop :=
  ∀ e ∈ condition, e.Printable sp

theorem conditionPrintable_none : ConditionPrintable sp none := by
  intro e mem
  cases mem

theorem conditionPrintable_some {e : Expr} (printable : e.Printable sp) :
    ConditionPrintable sp (some e) := by
  intro e' mem
  cases mem
  exact printable

theorem nested_armHeader (condition : Option Expr) :
    Nested (fun _ => True) (armHeader condition) := by
  cases condition with
  | none => exact .plain trivial rfl .nil
  | some e => exact .plain trivial rfl (nested_parens e.nested_tokens)

theorem whole_armHeader {condition : Option Expr} (printable : ConditionPrintable sp condition) :
    Whole sp (armHeader condition) := by
  refine whole_nested (nested_armHeader condition) ?_ ?_
  · cases condition with
    | none => exact List.forall_mem_singleton.2 (reads_blockWord (by decide))
    | some e =>
      exact List.forall_mem_cons.2
        ⟨reads_blockWord (by decide), reads_parens (e.reads_tokens (printable e rfl))⟩
  · cases condition with
    | none => exact fitting_cons rfl fitting_nil
    | some e => exact fitting_cons rfl (fitting_parens e.fitting_tokens)

theorem whole_catch : Whole sp [.name "catch"] :=
  whole_nested (.plain trivial rfl .nil : Nested (fun _ => True) [.name "catch"])
    (List.forall_mem_singleton.2 (reads_blockWord (by decide))) (fitting_cons rfl fitting_nil)

mutual

/-- Every statement that can be printed is written as one part. -/
theorem whole_tokens : ∀ s : Stmt, s.Printable sp → Whole sp s.tokens
  | branch ((some condition, body) :: arms), h =>
    whole_block (whole_header (.branch condition) h.1) (whole_blockTokens body h.2.1)
      (whole_armsTokens arms h.2.2)
  | branch ((none, _) :: _), h => h.elim
  | branch [], h => h.elim
  | whileLoop condition body, h =>
    whole_block (whole_header (.whileLoop condition) h.1) (whole_blockTokens body h.2) whole_nil
  | forLoop count body, h =>
    whole_block (whole_header (.forLoop count) h.1) (whole_blockTokens body h.2) whole_nil
  | countLoop x start stop body, h =>
    whole_block (whole_header (.countLoop x start stop) h.1) (whole_blockTokens body h.2)
      whole_nil
  | attempt body none, h =>
    whole_block (whole_header .attempt trivial) (whole_blockTokens body h) whole_nil
  | attempt body (some handler), h =>
    whole_block (whole_header .attempt trivial) (whole_blockTokens body h.1)
      (whole_block whole_catch (whole_blockTokens handler h.2) whole_nil)
  | thread body, h =>
    whole_block (whole_header .thread trivial) (whole_blockTokens body h) whole_nil
  | define f params body, h =>
    whole_block (whole_header (.define f params) h.1) (whole_blockTokens body h.2) whole_nil
  | declareClass c parent body, h =>
    whole_block (whole_header (.declareClass c parent) h.1) (whole_blockTokens body h.2)
      whole_nil
  | assign place value, h => whole_instruction (.assign place value) h
  | compound place op value, h => whole_instruction (.compound place op value) h
  | step place delta, h => whole_instruction (.step place delta) h
  | delete place, h => whole_instruction (.delete place) h
  | make x, h => whole_instruction (.make x) h
  | call callee args, h => whole_instruction (.call callee args) h
  | .return value, h => whole_instruction (.return value) h
  | invalid _, h => h.elim

theorem whole_blockTokens :
    ∀ block : List (Located Stmt), BlockPrintable sp block → Whole sp (blockTokens block)
  | [], _ => whole_nil
  | ⟨_, s⟩ :: rest, h => whole_terminated (whole_tokens s h.1) (whole_blockTokens rest h.2)

theorem whole_armsTokens :
    ∀ arms : List (Option Expr × List (Located Stmt)),
      ArmsPrintable sp arms → Whole sp (armsTokens arms)
  | [], _ => whole_nil
  | (none, body) :: arms, h =>
    whole_block (whole_armHeader conditionPrintable_none) (whole_blockTokens body h.1)
      (whole_armsTokens arms h.2)
  | (some _, body) :: arms, h =>
    whole_block (whole_armHeader (conditionPrintable_some h.1)) (whole_blockTokens body h.2.1)
      (whole_armsTokens arms h.2.2)

end

end Stmt

end RoutineScript
