/-
The command line: what the arguments ask for, and what running a script
leaves behind. Scripts can print, sleep and ask for the time.

Files are read as the arguments are gone through, so a file that cannot be
read is reported before an argument behind it is looked at. Of several
scripts the last one is run.
-/
import RoutineScript.Directory
import RoutineScript.Session

namespace RoutineScript.CommandLine

-- ==================================================================== texts

/-- What is shown to those who ask for help, and below a complaint about the
arguments. -/
def usage : String :=
  "Usage: gordian [options] <script>\n" ++
  "       gordian [options] -c <source>\n\n" ++
  "Options:\n" ++
  "  -c <source>        Run <source> instead of a file\n" ++
  "  --max-depth=<n>    Maximum nested call depth (default 256)\n" ++
  "  -h, --help         Show this message\n" ++
  "  -V, --version      Show the version\n\n" ++
  "Set RUST_LOG (for example RUST_LOG=gordian=debug) to see interpreter logs."

/-- The name and the version of the program. -/
def version : String := "gordian 0.1.0"

/-- The text in bold. -/
def bold (text : String) : String :=
  "\x1b[1m" ++ text ++ "\x1b[0m"

/-- What a complaint begins with. -/
def errorMark : String :=
  "\x1b[38;5;9m" ++ bold "error:"

-- ================================================================ arguments

/-- What the arguments ask for. -/
inductive Command where
  | run (name source : String) (limit : Nat)
  | help
  | version

/-- The arguments as far as they have been gone through. -/
structure Request where
  limit : Nat
  script : Option (String × String)

/-- A count of at most 64 bits, with or without a plus sign. -/
def readCount? (text : String) : Option Nat :=
  let digits :=
    match text.toList with
    | '+' :: digits => digits
    | digits => digits
  let n := Number.ofDigits digits
  if digits ≠ [] ∧ digits.all Char.isDigit ∧ n < Nat.pow 2 64 then some n else none

/-- What follows a beginning, if a text begins so. -/
def strip? (beginning text : String) : Option String :=
  if beginning.toList.isPrefixOf text.toList then
    some (String.ofList (text.toList.drop beginning.length))
  else none

/-- The option that sets the depth of calls. -/
def depthOption : String := "--max-depth="

/-- Goes through the arguments. -/
def readArgs (readFile : String → Except ReadFault String) (request : Request) :
    List String → Except String Command
  | [] =>
    match request.script with
    | none => .error "no script given"
    | some (name, source) => .ok (.run name source request.limit)
  | arg :: args =>
    if arg = "-h" ∨ arg = "--help" then .ok .help
    else if arg = "-V" ∨ arg = "--version" then .ok .version
    else if arg = "-c" then
      match args with
      | [] => .error "-c needs a script argument"
      | source :: args =>
        readArgs readFile { request with script := some ("<command line>", source) } args
    else
      match strip? depthOption arg with
      | some count =>
        match readCount? count with
        | some limit => readArgs readFile { request with limit } args
        | none => .error ("invalid --max-depth value '" ++ count ++ "'")
      | none =>
        if arg.toList.head? = some '-' then .error ("unknown option '" ++ arg ++ "'")
        else
          match readFile arg with
          | .ok source => readArgs readFile { request with script := some (arg, source) } args
          | .error fault => .error ("cannot read '" ++ arg ++ "': " ++ fault.message)

-- ================================================================== running

/-- What a run of the program leaves behind. -/
structure Outcome where
  code : Nat
  stdout : String
  stderr : String
  /-- The time that the script took by its own clock, in nanoseconds. -/
  elapsed : Nat

/-- The nanoseconds of a pause, given in milliseconds. One of 2⁶⁴ seconds or
more is none that a clock can measure. -/
def pauseLength? (millis : Float) : Option Nat :=
  if millis / 1000 < 18446744073709551616 then
    (Number.floored (millis * 1000000)).map Int.toNat
  else none

/-- Pauses for a number of milliseconds, not at all if it is below zero. -/
def sleep : HostFunction :=
  ⟨fun args host =>
    match (args.headD .null).expectNumber with
    | .error fault => (.error fault, host)
    | .ok given =>
      let millis := if given > 0 then given else 0
      match pauseLength? millis with
      | some pause => (.ok .null, { host with clock := host.clock + pause })
      | none =>
        let message := "cannot sleep for " ++ Number.fullText millis ++ " ms"
        (.error (Cause.hostFailure "sleep" message), host), []⟩

/-- A length of time in seconds. -/
def seconds (nanoseconds : Nat) : Float :=
  Float.ofNat (nanoseconds / 1000000000) + Float.ofNat (nanoseconds % 1000000000) / 1000000000

/-- The seconds since the start. A look at the clock takes a microsecond and
a pause as long as it was meant to; by this clock all else takes no time, so
that a script runs the same way every time. -/
def time : HostFunction :=
  ⟨fun _ host =>
    let host := { host with clock := host.clock + 1000 }
    (.ok (.number (seconds host.clock)), host), []⟩

/-- What every script can call. -/
def lend (scope : ScopeId) : Run Unit := do
  Run.attempt (·.register scope "print" (.any 1) false HostFunction.print)
  Run.attempt (·.register scope "sleep" ⟨[.number]⟩ false sleep)
  Run.attempt (·.register scope "time" (.any 0) true time)

/-- Runs a script to its end. -/
def runScript (patience : Nat) (name source : String) (limit : Nat) : Outcome :=
  let session := Session.start limit patience
  let scope := session.scope Session.mainScope
  let (result, session) := session.perform do
    lend scope
    Interpreter.runSource patience scope source
  let host := session.store.host
  let stdout := String.join (host.transcript.toList.map (· ++ "\n"))
  let failure (message : String) : Outcome :=
    ⟨1, stdout, errorMark ++ " " ++ bold name ++ ": " ++ message ++ "\n", host.clock⟩
  match result with
  | .ok () => ⟨0, stdout, "", host.clock⟩
  | .error (.fault fault) => failure fault.message
  | .error .exhausted => failure "out of patience"

/-- Does what the arguments ask for. -/
def execute (patience : Nat) (readFile : String → Except ReadFault String)
    (args : List String) : Outcome :=
  match readArgs readFile ⟨Session.defaultLimit, none⟩ args with
  | .ok .help => ⟨0, usage ++ "\n", "", 0⟩
  | .ok .version => ⟨0, version ++ "\n", "", 0⟩
  | .ok (.run name source limit) => runScript patience name source limit
  | .error message => ⟨2, "", errorMark ++ " " ++ message ++ "\n\n" ++ usage ++ "\n", 0⟩

end RoutineScript.CommandLine
