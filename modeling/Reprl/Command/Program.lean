import Reprl.Command.Directory
import Reprl.Command.Options
import Reprl.Loop

/-! The program: it runs script files one after the other, each on a machine of its own,
or serves the fuzzer until that fails. -/

namespace Reprl

open Reprl.Stream Reprl.Text

structure FileError where
  path : String
  error : ReadError
  deriving DecidableEq, Repr

def FileError.message (e : FileError) : String :=
  "Failed to read script " ++ e.path ++ ": " ++ e.error.message

inductive ServeError where
  | handshake (error : LoopError)
  | loop (error : LoopError)
  deriving DecidableEq, Repr

/-- An error with all that is behind it, the outermost first. -/
def ServeError.message : ServeError → String
  | handshake e => chain "REPRL handshake failed" e
  | loop e => chain "REPRL loop terminated" e
where
  chain (context : String) (e : LoopError) : String :=
    ": ".intercalate (context :: e.message :: e.reason?.toList)

namespace Loop

def coverageText : Option Nat → String
  | some edges => "[REPRL] serving with " ++ Nat.repr edges ++ " coverage edges"
  | none => "[REPRL] serving without coverage instrumentation"

def announce : Step Unit := do
  report (coverageText (← get).coverage.edgeCount?)

def reportEnd : Step Unit := do
  report ("[REPRL] stopping after " ++ Nat.repr (← get).executions ++ " executions")

def greet : Action Loop ServeError Unit :=
  Action.mapError .handshake (onChannel Channel.greet)

/-- Takes the fuzzer's greeting and reports what is served. -/
def answerGreeting : Action Loop ServeError Unit := do
  Action.mapError .handshake (onChannel Channel.readGreeting)
  Action.mapError .loop announce

/-- A step of serving. An error of it is the end of the loop, and is reported as such. -/
def settle {α : Type} (step : Step α) : Action Loop ServeError α := do
  match ← Action.attempt step with
  | .ok a => return a
  | .error e =>
    Action.mapError .loop reportEnd
    Action.raise (.loop e)

def serve (E : Evaluator) : Action Loop ServeError Empty := do
  greet
  answerGreeting
  settle (run E)

end Loop

namespace Program

def runSource (E : Evaluator) (path source : String) : Action Console FileError Bool :=
  fun console =>
    match Action.attempt (Session.execute E source) (.new .standard default console) with
    | (.ok (.ok ()), m) => (.ok true, m.console)
    | (.ok (.error e), m) => (.ok false, m.console.report (path ++ ": " ++ e.message))
    | (.error e, m) => (.error e, m.console)

def readSource (files : String → Except ReadError Bytes) (path : String) :
    Except FileError String :=
  match files path with
  | .error error => .error ⟨path, error⟩
  | .ok bytes =>
    match decode bytes with
    | .ok source => .ok source
    | .error _ => .error ⟨path, .notText⟩

/-- Runs files in order and says whether all of them succeeded. A file that cannot be
read ends the run. -/
def runFiles (E : Evaluator) (files : String → Except ReadError Bytes) :
    List String → Action Console FileError Bool
  | [] => return true
  | path :: rest => do
    let source ← Action.settle (readSource files path)
    let succeeded ← runSource E path source
    let others ← runFiles E files rest
    return succeeded && others

inductive Ending where
  | exits (status : Nat)
  | killed (signal : Signal)
  | exhausted
  deriving DecidableEq, Repr

def helpText (mode : Option String) : String :=
  "Script shell with a REPRL fuzzing harness\n\n" ++
  "Usage: fuzzshell [OPTIONS] [FILES]...\n\n" ++
  "Arguments:\n" ++
  "  [FILES]...  Scripts to run when not in REPRL mode\n\n" ++
  "Options:\n" ++
  "      --reprl  Serve the fuzzer over the REPRL descriptors instead of running files. " ++
  "\x60REPRL_MODE\x60 accepts the usual truthy and falsey spellings [env: REPRL_MODE=" ++
  mode.getD "" ++ "]\n" ++
  "  -h, --help   Print help\n"

def usageText : UsageError → String
  | .unknownArgument => "error: unexpected argument found"
  | .tooManyValues => "error: unexpected value for a flag found"
  | .argumentConflict => "error: the argument '--reprl' cannot be used multiple times"
  | .invalidValue => "error: a value is required for '[FILES]...' but none was supplied"
  | .displayHelp => ""

/-- The ending of an action that left an error or not, and the lines about it. -/
def close {ε α : Type} (succeeds : α → Bool) (failure : ε → String)
    (result : Except (Abrupt ε) α) (console : Console) : Ending × Console :=
  match result with
  | .ok a => (.exits (if succeeds a then 0 else 1), console)
  | .error (.thrown e) => (.exits 1, console.report (failure e))
  | .error (.crashed signal) => (.killed signal, console)
  | .error .exhausted => (.exhausted, console)

def printHelp (mode : Option String) (console : Console) : Console :=
  { console with stdout := (Sink.writeAll (encode (helpText mode)) console.stdout).2 }

def serveText (e : ServeError) : String := "[REPRL] " ++ e.message

/-- A program after its arguments are known. The loop holds all its outputs. -/
def execute (E : Evaluator) (files : String → Except ReadError Bytes) (options : Options)
    (l : Loop) : Ending × Loop :=
  if options.reprl then
    match Loop.serve E l with
    | (result, l) =>
      let (ending, console) := close Empty.elim serveText result l.console
      (ending, { l with console })
  else
    match runFiles E files options.files l.console with
    | (result, console) =>
      let (ending, console) := close id FileError.message result console
      (ending, { l with console })

def run (E : Evaluator) (files : String → Except ReadError Bytes) (args : List String)
    (mode : Option String) (l : Loop) : Ending × Loop :=
  match Options.parse args mode with
  | .ok options => execute E files options l
  | .error .displayHelp => (.exits 0, { l with console := printHelp mode l.console })
  | .error e => (.exits 2, { l with console := l.console.report (usageText e) })

end Program

end Reprl
