/-
Runs: steps that read and change the store and may stop early. A run stops
with a fault, which a script can handle, or because it has used up its
patience, which nothing handles. What has been changed before stays changed.

The context of a run tells how deep its calls are nested, how deep they may
be, and which scopes are being worked with, so that these stay alive.
-/
import RoutineScript.Store.Liveness

namespace RoutineScript

/-- Why a run stops before its end. -/
inductive Halt where
  | fault (fault : Fault)
  | exhausted

/-- What a run is part of. -/
structure Context where
  /-- How many calls may be nested. -/
  limit : Nat
  /-- How many calls are nested here. -/
  depth : Nat
  /-- The scopes that are worked with. -/
  held : List ScopeId

/-- A run that ends with an `α`. -/
abbrev Run (α : Type) := ReaderT Context (ExceptT Halt (StateM Store)) α

namespace Run

variable {α : Type}

/-- Stops with a fault. -/
def fail (fault : Fault) : Run α :=
  throw (.fault fault)

/-- Goes on with a result, or stops with the fault in its place. -/
def ofResult (result : Except Fault α) : Run α :=
  match result with
  | .ok a => pure a
  | .error fault => fail fault

/-- Looks at the store. -/
def look (f : Store → α) : Run α :=
  fun _ s => (.ok (f s), s)

/-- Looks something up in the store that may not be there. -/
def lookUp (f : Store → Except Fault α) : Run α := do
  ofResult (← look f)

/-- Changes the store. -/
def change (f : Store → Store) : Run Unit :=
  fun _ s => (.ok (), f s)

/-- Takes a part of the store into use. -/
def take (f : Store → α × Store) : Run α :=
  fun _ s =>
    let (a, s) := f s
    (.ok a, s)

/-- Does something with the store that may be refused. -/
def attempt (f : Store → Except Fault α × Store) : Run α :=
  fun _ s =>
    match f s with
    | (.ok a, s) => (.ok a, s)
    | (.error fault, s) => (.error (.fault fault), s)

/-- Keeps scopes alive during a run. -/
def holding (ids : List ScopeId) (run : Run α) : Run α :=
  fun context s => run { context with held := ids ++ context.held } s

/-- Keeps the objects in some values alive during a run. -/
def holdingValues (values : List Value) (run : Run α) : Run α :=
  holding (Value.kept values) run

/-- Tells the fault that stops a run its line. -/
def onLine (line : Nat) (run : Run α) : Run α :=
  fun context s =>
    match run context s with
    | (.error (.fault fault), s) => (.error (.fault (fault.atLine line)), s)
    | outcome => outcome

/-- Handles the fault that stops a run. Lost patience is not handled. -/
def handling (run : Run α) (handler : Run α) : Run α :=
  fun context s =>
    match run context s with
    | (.error (.fault _), s) => handler context s
    | outcome => outcome

/-- A run with its own count of nested calls. -/
def apart (run : Run α) : Run α :=
  fun context s => run { context with depth := 0 } s

/-- A run one call deeper, unless that is too deep. -/
def deeper (run : Run α) : Run α :=
  fun context s =>
    if context.limit ≤ context.depth then
      (.error (.fault (Cause.depthExceeded context.limit)), s)
    else
      run { context with depth := context.depth + 1 } s

/-- Stops unless a scope that is only remembered is still alive. `name` is
what was to be found there. -/
def requireLive (id : ScopeId) (name : String) : Run Unit :=
  fun context s =>
    if s.isLive context.held id then (.ok (), s)
    else (.error (.fault (Cause.notFound name)), s)

/-- A new scope below another one. -/
def newChild (parent : ScopeId) : Run ScopeId :=
  take (·.addChild parent)

/-- A run goes on from where the run before it ended, unless that one has
stopped. -/
theorem bind_apply {α β : Type} (run : Run α) (next : α → Run β) (context : Context)
    (s : Store) :
    (run >>= next) context s =
      match run context s with
      | (.ok a, t) => next a context t
      | (.error halt, t) => (.error halt, t) := by
  simp only [bind, ReaderT.bind, ExceptT.bind, ExceptT.mk, StateT.bind]
  rcases run context s with ⟨_ | _, t⟩ <;> rfl

end Run

end RoutineScript
