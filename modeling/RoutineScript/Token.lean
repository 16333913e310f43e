/-
Tokens: the words of one statement or expression. The words that begin
blocks (`if`, `while`, `def` and so on) are plain names here; only the words
that change how an instruction or a value is read are keywords.
-/
import RoutineScript.Operator
import RoutineScript.Number.Written
import RoutineScript.Text.Classes

namespace RoutineScript

/-- Words with a meaning of their own. -/
inductive Keyword where
  | true | false | null | new | return | del | make
  deriving DecidableEq, Repr

/-- Marks of one or two characters. -/
inductive Mark where
  | plus | minus | star | slash | percent
  | eqEq | notEq | lt | le | gt | ge
  | andAnd | orOr | bang
  | eq | plusEq | minusEq | starEq | slashEq | percentEq
  | plusPlus | minusMinus
  | dot | comma | lparen | rparen | lbracket | rbracket | lbrace | rbrace | semicolon
  deriving DecidableEq, Repr

/-- The smallest pieces that a statement is made of. -/
inductive Token where
  | number (x : Float)
  | string (s : String)
  | name (s : String)
  | keyword (word : Keyword)
  | mark (mark : Mark)
  deriving DecidableEq

-- ================================================================= spelling

/-- How a keyword is spelled. -/
def Keyword.spelling : Keyword → String
  | true => "true"
  | false => "false"
  | null => "null"
  | new => "new"
  | .return => "return"
  | del => "del"
  | make => "make"

/-- The keyword that is spelled so. -/
def Keyword.ofSpelling? (word : String) : Option Keyword :=
  [true, false, null, new, .return, del, make].find? (·.spelling == word)

/-- How a mark is spelled. -/
def Mark.spelling : Mark → String
  | plus => "+"
  | minus => "-"
  | star => "*"
  | slash => "/"
  | percent => "%"
  | eqEq => "=="
  | notEq => "!="
  | lt => "<"
  | le => "<="
  | gt => ">"
  | ge => ">="
  | andAnd => "&&"
  | orOr => "||"
  | bang => "!"
  | eq => "="
  | plusEq => "+="
  | minusEq => "-="
  | starEq => "*="
  | slashEq => "/="
  | percentEq => "%="
  | plusPlus => "++"
  | minusMinus => "--"
  | dot => "."
  | comma => ","
  | lparen => "("
  | rparen => ")"
  | lbracket => "["
  | rbracket => "]"
  | lbrace => "\x7b"
  | rbrace => "\x7d"
  | semicolon => ";"

namespace Token

/-- How messages spell a token. The escapes of a string are not put back,
and a space follows the keywords that an operand follows. -/
def spelling : Token → String
  | number x => Number.fullText x
  | string s => "\"" ++ s ++ "\""
  | name s => s
  | keyword word =>
    match word with
    | .true | .false | .null => word.spelling
    | .new | .return | .del | .make => word.spelling ++ " "
  | mark m => m.spelling

/-- How messages spell several tokens. Blanks at the end are dropped. -/
def spellAll (tokens : List Token) : String :=
  let spelled := String.join (tokens.map spelling)
  String.ofList (spelled.toList.reverse.dropWhile Text.isBlank).reverse

-- ================================================================== classes

/-- The operator that a token is between two operands. -/
def binaryOp? : Token → Option BinaryOp
  | mark .andAnd => some .and
  | mark .orOr => some .or
  | mark .ge => some .ge
  | mark .le => some .le
  | mark .gt => some .gt
  | mark .lt => some .lt
  | mark .eqEq => some .eq
  | mark .notEq => some .ne
  | mark .plus => some .add
  | mark .minus => some .sub
  | mark .star => some .mul
  | mark .slash => some .div
  | mark .percent => some .mod
  | _ => none

/-- The operator that a token is in front of an operand. -/
def unaryOp? : Token → Option UnaryOp
  | mark .minus => some .neg
  | mark .plus => some .plus
  | mark .bang => some .not
  | _ => none

/-- What an assignment mark does with the value before it: nothing when it is
replaced, or an operator that combines the two. -/
def assignment? : Token → Option (Option BinaryOp)
  | mark .eq => some none
  | mark .plusEq => some (some .add)
  | mark .minusEq => some (some .sub)
  | mark .starEq => some (some .mul)
  | mark .slashEq => some (some .div)
  | mark .percentEq => some (some .mod)
  | _ => none

/-- How deep in parentheses and brackets the tokens behind this one stand. -/
def nest (depth : Nat) : Token → Nat
  | mark .lparen | mark .lbracket => depth + 1
  | mark .rparen | mark .rbracket => depth - 1
  | _ => depth

end Token

end RoutineScript
