/-
Names that may be declared. A name must not look like anything else in a
script: it holds no quote, no parenthesis and no operator character, does
not begin with a negation and is not a truth value. Every identifier of the
token level is a legal name, but hosts may declare others as well.
-/
import RoutineScript.Fault

namespace RoutineScript.Name

/-- Characters that no name may contain. -/
def reserved : List Char :=
  ['"', '\'', '=', '>', '<', '(', ')', '+', '-', '*', '/']

/-- Whether a character stands twice in a row somewhere. -/
def hasDouble (c : Char) : List Char → Bool
  | a :: b :: rest => (a == c && b == c) || hasDouble c (b :: rest)
  | _ => false

/-- Whether a name may be declared. -/
def isLegal (name : String) : Bool :=
  let chars := name.toList
  !chars.isEmpty && chars.head? != some '!' && name != "true" && name != "false" &&
    !chars.any reserved.contains && !hasDouble '&' chars && !hasDouble '|' chars

/-- Refuses a name that may not be declared. -/
def check (name : String) : Except Fault Unit :=
  if isLegal name then .ok () else .error (Cause.illegalName name)

/-- The check passes on exactly the legal names. -/
theorem check_eq_ok_iff {name : String} : check name = .ok () ↔ isLegal name = true := by
  unfold check
  split <;> simp_all

end RoutineScript.Name
