/-
Statements and programs. A block is a list of statements, each with the line
it begins on. A statement that could not be read is a statement too: it
raises its fault when, and only when, it is executed.
-/
import RoutineScript.Expr
import RoutineScript.Fault
import RoutineScript.Source.Span

namespace RoutineScript

/-- What can be assigned to or deleted. -/
inductive Place where
  | name (name : String)
  | member (object : Expr) (name : String)

/-- What a call statement calls. -/
inductive Callee where
  | name (name : String)
  | method (object : Expr) (name : String)

/-- One statement. -/
inductive Stmt where
  /-- Binds a place to a value. -/
  | assign (place : Place) (value : Expr)
  /-- Combines the value of a place with another one. -/
  | compound (place : Place) (op : BinaryOp) (value : Expr)
  /-- Adds one to a place, or takes one away. -/
  | step (place : Place) (delta : Float)
  | delete (place : Place)
  /-- Declares a variable without a value. -/
  | make (name : String)
  | call (callee : Callee) (args : List Expr)
  | return (value : Option Expr)
  /-- Executes the first arm whose condition holds; an arm without a
  condition always does. -/
  | branch (arms : List (Option Expr × List (Located Stmt)))
  | whileLoop (condition : Expr) (body : List (Located Stmt))
  /-- Repeats a body a number of times. -/
  | forLoop (count : Expr) (body : List (Located Stmt))
  /-- Repeats a body with a variable counting from one bound to the other. -/
  | countLoop (name : String) (start stop : Expr) (body : List (Located Stmt))
  /-- Executes a body and, if it fails, its handler. -/
  | attempt (body : List (Located Stmt)) (handler : Option (List (Located Stmt)))
  | thread (body : List (Located Stmt))
  | define (name : String) (params : List String) (body : List (Located Stmt))
  | declareClass (name : String) (parent : Option Expr) (body : List (Located Stmt))
  /-- A statement that could not be read. -/
  | invalid (fault : Fault)

/-- Statements in order, with their lines. A whole program is a block. -/
abbrev Block := List (Located Stmt)

/-- The name of the callables that construct objects. -/
def constructorName : String := "construct"

/-- The name of the callables that construct the parent part of an object. -/
def superName : String := "super"

namespace Stmt

mutual

/-- Whether a `return` is written anywhere in a statement. -/
def mentionsReturn : Stmt → Bool
  | .return _ => true
  | branch arms => armsMentionReturn arms
  | whileLoop _ body | forLoop _ body | countLoop _ _ _ body | thread body =>
    blockMentionsReturn body
  | attempt body none => blockMentionsReturn body
  | attempt body (some handler) => blockMentionsReturn body || blockMentionsReturn handler
  | define _ _ body | declareClass _ _ body => blockMentionsReturn body
  | _ => false

/-- Whether a `return` is written anywhere in a block, nested blocks
included. A callable with such a body may be called for its value. -/
def blockMentionsReturn : List (Located Stmt) → Bool
  | [] => false
  | ⟨_, statement⟩ :: rest => statement.mentionsReturn || blockMentionsReturn rest

/-- Whether a `return` is written in an arm. -/
def armsMentionReturn : List (Option Expr × List (Located Stmt)) → Bool
  | [] => false
  | (_, body) :: rest => blockMentionsReturn body || armsMentionReturn rest

end

end Stmt

namespace Block

/-- Whether a `return` is written anywhere in a block. -/
def mentionsReturn (block : Block) : Bool :=
  Stmt.blockMentionsReturn block

/-- The numbers of parameters of the callables of a name that a block
defines directly, in order. -/
def arities (block : Block) (name : String) : List Nat :=
  block.filterMap fun statement =>
    match statement.val with
    | .define n params _ => if n = name then some params.length else none
    | _ => none

end Block

end RoutineScript
