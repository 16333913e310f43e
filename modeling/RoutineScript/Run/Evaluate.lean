/-
The evaluation of expressions, from left to right. A logical operator that
its left operand settles leaves its right operand alone. What has been
evaluated stays alive until the expression that needs it is done.
-/
import RoutineScript.Run.Call
import RoutineScript.Value.Operate

namespace RoutineScript

/-- The truth value of the left operand that settles a logical operator. -/
def BinaryOp.settledBy? : BinaryOp → Option Bool
  | and => some false
  | or => some true
  | _ => none

/-- The value of a member of an object. -/
def Store.member (s : Store) (v : Value) (name : String) : Except Fault Value :=
  match v.expectObject with
  | .ok object => s.lookup object.scope name
  | .error fault => .error fault

namespace Below

variable (below : Below)

mutual

/-- Evaluates an expression in a scope. -/
def evaluate (scope : ScopeId) : Expr → Run Value
  | .number x => pure (.number x)
  | .string s => pure (.string s)
  | .bool b => pure (.boolean b)
  | .null => pure .null
  | .list items => do return .list (← evaluateAll scope items)
  | .name x => Run.lookUp (·.lookup scope x)
  | .call f args => do
    let args ← evaluateAll scope args
    Run.holdingValues args (below.callFunction scope f args)
  | .member object m => do
    let v ← evaluate scope object
    Run.lookUp (·.member v m)
  | .methodCall object m args => do
    let o ← Run.ofResult (← evaluate scope object).expectObject
    Run.holding [o.scope] do
      let args ← evaluateAll scope args
      Run.holdingValues args (below.callFunction o.scope m args)
  | .index target position => do
    let t ← evaluate scope target
    let p ← Run.holdingValues [t] (evaluate scope position)
    Run.ofResult (Value.index t p)
  | .new c args => do
    let args ← evaluateAll scope args
    return .object (← Run.holdingValues args (below.instantiate scope c args))
  | .unary op operand => do
    Run.ofResult (Value.unary op (← evaluate scope operand))
  | .binary op left right => do
    let l ← evaluate scope left
    match op.settledBy? with
    | some settling => do
      let b ← Run.ofResult l.expectBool
      if b = settling then return .boolean b
      else
        let r ← evaluate scope right
        return .boolean (← Run.ofResult r.expectBool)
    | none => do
      let r ← Run.holdingValues [l] (evaluate scope right)
      Run.ofResult (Value.binary op l r)

/-- Evaluates expressions one after the other. -/
def evaluateAll (scope : ScopeId) : List Expr → Run (List Value)
  | [] => pure []
  | e :: rest => do
    let v ← evaluate scope e
    let vs ← Run.holdingValues [v] (evaluateAll scope rest)
    return v :: vs

end

end Below

end RoutineScript
