/-
Sessions: a host with a store of its own, in which it keeps scopes, objects
and programs under names. Everything that is kept stays alive. A session
begins with one scope, which has no parent.

A host may lend functions of its own to the scripts. Those that every
session can lend are given here, with the way they print.
-/
import RoutineScript.Interpreter

namespace RoutineScript

/-- A store with what its host keeps in it. -/
structure Session where
  /-- How many calls may be nested. -/
  limit : Nat
  /-- How long a run may go on, in levels of calls and in rounds of loops. -/
  patience : Nat
  store : Store
  scopes : Std.TreeMap String ScopeId
  objects : Std.TreeMap String Object
  programs : Std.TreeMap String Block

namespace Session

/-- How many calls may be nested unless the host says otherwise. -/
def defaultLimit : Nat := 256

/-- The name of the scope that a session begins with. -/
def mainScope : String := "main"

/-- A new session. -/
def start (limit patience : Nat) : Session :=
  let (main, store) := Store.empty.addRoot
  { limit, patience, store,
    scopes := (∅ : Std.TreeMap String ScopeId).insert mainScope main
    objects := ∅
    programs := ∅ }

/-- The scopes that the host works with. -/
def held (s : Session) : List ScopeId :=
  s.scopes.values ++ s.objects.values.map Object.scope

/-- The scope that is kept under a name. -/
def scope (s : Session) (name : String) : ScopeId :=
  s.scopes.getD name ⟨0⟩

/-- Lets a run go on in the store of the session. -/
def perform {α : Type} (s : Session) (run : Run α) : Except Halt α × Session :=
  let context : Context := { limit := s.limit, depth := 0, held := s.held }
  let store := s.store
  let s := { s with store := .empty }
  let (result, store) := run context store
  (result, { s with store })

/-- Takes what has been printed out of the session. -/
def takeTranscript (s : Session) : List String × Session :=
  let host := s.store.host
  let store := { s.store with host := { host with transcript := #[] } }
  (host.transcript.toList, { s with store })

-- ================================================================== keeping

/-- Keeps a scope under a name. -/
def keepScope (s : Session) (name : String) (id : ScopeId) : Session :=
  { s with scopes := s.scopes.insert name id }

/-- Keeps an object under a name. -/
def keepObject (s : Session) (name : String) (object : Object) : Session :=
  { s with objects := s.objects.insert name object }

/-- Keeps a program under a name. -/
def keepProgram (s : Session) (name : String) (program : Block) : Session :=
  { s with programs := s.programs.insert name program }

/-- Keeps a new scope without a parent. -/
def addRoot (s : Session) (name : String) : Session :=
  let (id, store) := s.store.addRoot
  { s with store }.keepScope name id

/-- Keeps a new scope below another one. -/
def addChild (s : Session) (name : String) (parent : ScopeId) : Session :=
  let (id, store) := s.store.addChild parent
  { s with store }.keepScope name id

/-- A scope as diagnostics show it. -/
def describe (s : Session) (id : ScopeId) : String :=
  let names := (s.store.visible id).map Prod.fst
  let hasParent := if (s.store.scope id).parent.isSome then "true" else "false"
  "Scope \x7b variables: " ++ Text.quotedList names ++ ", has_parent: " ++ hasParent ++ " \x7d"

/-- An object as diagnostics show it. -/
def describeObject (object : Object) : String :=
  "Instance(" ++ object.className ++ ")"

end Session

-- =========================================================== host functions

namespace HostFunction

/-- A function that neither changes the host nor keeps anything. -/
def pure (f : List Value → Except Fault Value) : HostFunction :=
  ⟨fun args host => (f args, host), []⟩

/-- Prints its arguments on one line, with spaces between them. -/
def print : HostFunction :=
  ⟨fun args host =>
    let line := " ".intercalate (args.map Value.display)
    (.ok .null, { host with transcript := host.transcript.push line }), []⟩

/-- Returns the same value every time. -/
def constant (v : Value) : HostFunction :=
  ⟨fun _ host => (.ok v, host), [v]⟩

/-- Fails every time. -/
def failing (name message : String) : HostFunction :=
  pure fun _ => .error (Cause.hostFailure name message)

/-- Applies a function to the first argument, if there is one. -/
def onFirst (f : Value → Except Fault Value) : HostFunction :=
  pure fun args =>
    match args with
    | [] => .ok .null
    | v :: _ => f v

/-- Returns its first argument. -/
def echo : HostFunction :=
  onFirst .ok

/-- Returns its arguments as a list. -/
def listing : HostFunction :=
  pure fun args => .ok (.list args)

/-- Names the kind of its first argument. -/
def naming : HostFunction :=
  onFirst fun v => .ok (.string v.kind.name)

/-- Doubles its first argument, which must be a number. -/
def doubling : HostFunction :=
  onFirst fun v => v.expectNumber.map fun x => .number (x * 2)

/-- Accepts its arguments and does nothing. Since a `thread` has run to its
end when the statement that starts it is done, waiting for one is that. -/
def idle : HostFunction :=
  pure fun _ => .ok .null

end HostFunction

end RoutineScript
