/-
The values of scripts. They never change once produced: an assignment binds
a name to another value. An object is a handle on a scope of the store, where
its members live; two handles are equal when they name the same scope.
-/
import RoutineScript.Fault
import RoutineScript.Number.Written

namespace RoutineScript

/-- The place of a scope in the store. -/
structure ScopeId where
  index : Nat
  deriving DecidableEq, Repr

/-- A constructed object: the scope of its members and the name of its class. -/
structure Object where
  scope : ScopeId
  className : String
  deriving DecidableEq, Repr

/-- The closed set of values that scripts and their host exchange. -/
inductive Value where
  | number (x : Float)
  | boolean (b : Bool)
  | string (s : String)
  | list (items : List Value)
  | null
  | object (handle : Object)

namespace Value

instance : Inhabited Value := ⟨null⟩

-- ==================================================================== kinds

/-- The kind of a value. -/
def kind : Value → Kind
  | number _ => .number
  | boolean _ => .boolean
  | string _ => .string
  | list _ => .list
  | null => .null
  | object _ => .object

/-- The number that a value has to be. -/
def expectNumber : Value → Except Fault Float
  | number x => .ok x
  | v => .error (Cause.wrongKind .number v.kind)

/-- The truth value that a value has to be. -/
def expectBool : Value → Except Fault Bool
  | boolean b => .ok b
  | v => .error (Cause.wrongKind .boolean v.kind)

/-- The object that a value has to be. -/
def expectObject : Value → Except Fault Object
  | object o => .ok o
  | v => .error (Cause.wrongKind .object v.kind)

end Value

/-- Whether a signature that asks for this kind takes the value. -/
def Kind.accepts (kind : Kind) (v : Value) : Bool :=
  kind == .any || kind == v.kind

namespace Value

-- ================================================================= equality

mutual

/-- Equality as scripts see it: structural, by identity for objects, and
with numbers compared as numbers, so what is no number equals nothing. -/
def equals : Value → Value → Bool
  | number x, number y => x == y
  | boolean a, boolean b => a == b
  | string s, string t => s == t
  | list xs, list ys => equalsAll xs ys
  | null, null => true
  | object a, object b => a.scope == b.scope
  | _, _ => false

/-- Equality of lists, element by element. -/
def equalsAll : List Value → List Value → Bool
  | [], [] => true
  | x :: xs, y :: ys => equals x y && equalsAll xs ys
  | _, _ => false

end

-- ================================================================== display

mutual

/-- A value as `print` shows it. -/
def display : Value → String
  | number x => Number.displayText x
  | boolean b => if b then "true" else "false"
  | string s => s
  | list items => "[" ++ ", ".intercalate (displayItems items) ++ "]"
  | null => "null"
  | object o => "<" ++ o.className ++ " instance>"

/-- The elements of a list; a text among them stands in double quotes. -/
def displayItems : List Value → List String
  | [] => []
  | string s :: rest => ("\"" ++ s ++ "\"") :: displayItems rest
  | v :: rest => display v :: displayItems rest

end

-- ================================================================== objects

mutual

/-- The objects that a value keeps alive. -/
def objects : Value → List ScopeId
  | object o => [o.scope]
  | list items => objectsIn items
  | _ => []

/-- The objects that some values keep alive. -/
def objectsIn : List Value → List ScopeId
  | [] => []
  | v :: rest => objects v ++ objectsIn rest

end

end Value

end RoutineScript
