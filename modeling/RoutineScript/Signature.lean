/-
Signatures: what the arguments of an overload may be, one kind for each. A
call takes the first overload whose signature accepts its arguments.
-/
import RoutineScript.Value

namespace RoutineScript

/-- The kinds that the arguments of an overload have to be of. -/
structure Signature where
  kinds : List Kind
  deriving DecidableEq, Repr

namespace Signature

/-- A number of arguments of any kind. -/
def any (arity : Nat) : Signature :=
  ⟨List.replicate arity .any⟩

/-- The number of arguments. -/
def arity (s : Signature) : Nat :=
  s.kinds.length

/-- Whether every kind takes the value at its place. -/
def acceptsAll : List Kind → List Value → Bool
  | [], [] => true
  | kind :: kinds, v :: args => kind.accepts v && acceptsAll kinds args
  | _, _ => false

/-- Whether a signature takes these arguments. -/
def accepts (s : Signature) (args : List Value) : Bool :=
  acceptsAll s.kinds args

/-- A signature between parentheses. -/
def text (s : Signature) : String :=
  "(" ++ Kind.names s.kinds ++ ")"

/-- A signature without constraints looks at nothing but the number. -/
theorem accepts_any {arity : Nat} {args : List Value} :
    (any arity).accepts args = true ↔ args.length = arity := by
  simp only [accepts, any]
  induction arity generalizing args with
  | zero => cases args <;> simp [acceptsAll]
  | succ n ih => cases args <;> simp [acceptsAll, List.replicate_succ, Kind.accepts, ih]

end Signature

end RoutineScript
