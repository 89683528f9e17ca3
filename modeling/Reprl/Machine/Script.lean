import Reprl.Machine.Call
import Reprl.Source.Script

/-! Scripts on a machine: parsing, running, and the jobs that scripts leave behind.
The first failure ends an execution. -/

namespace Reprl

open Reprl.Stream

inductive ScriptError where
  | invalid (error : Source.SyntaxError)
  | uncaught (text : String)
  deriving DecidableEq

def ScriptError.message : ScriptError → String
  | .invalid e =>
    match e.message with
    | some text => "SyntaxError: " ++ text
    | none => "SyntaxError"
  | .uncaught text => "Uncaught " ++ text

namespace Run

def installBasics : Run Unit := do
  declare globalEnv "undefined" .undefined false
  declare globalEnv "NaN" (.number Number.notANumber) false
  declare globalEnv "Infinity" (.number (Number.infinity false)) false

def installNative (f : Native) : Run Unit := do
  declare globalEnv f.name (← newFunction (.native f)) true

def installNatives : List Native → Run Unit
  | [] => pure ()
  | f :: rest => do
    installNative f
    installNatives rest

def installConsole : Run Unit := do
  let log ← newFunction (.native (.print "log"))
  let console ← newObject (({} : Object).set "log" log)
  declare globalEnv "console" console true

def errorNames : List String :=
  ["Error", "TypeError", "RangeError", "SyntaxError", "ReferenceError"]

def install : Run Unit := do
  let _ ← alloc (.scope {})
  installBasics
  installNatives (Intrinsic.names.map .intrinsic)
  installNative (.print "print")
  installConsole
  installNatives [.queueMicrotask, .symbol, .string]
  installNatives (errorNames.map .error)

end Run

namespace Machine

/-- A fresh machine. Its global names are the same whatever its outputs are. -/
def new (outlet : Outlet) (fuzz : Sink) (console : Console) : Machine :=
  (Run.install { outlet, fuzz, console }).2

end Machine

abbrev Session := Action Machine ScriptError

namespace Session

variable {α : Type}

def parse (source : String) : Session Source.Script := do
  match Source.parse source with
  | .ok script => return script
  | .error e => Action.raise (.invalid e)

def uncaughtText (E : Evaluator) (value : Value) : Session String := do
  match ← Action.attempt (E.display value) with
  | .ok text => return text
  | .error _ => return "exception while converting exception"

def complete (E : Evaluator) (action : Run α) : Session α := do
  match ← Action.attempt action with
  | .ok a => return a
  | .error thrown => Action.raise (.uncaught (← uncaughtText E thrown))

def run (E : Evaluator) (script : Source.Script) : Session Unit :=
  complete E do
    Run.hoist globalEnv script
    let _ ← E.execList globalEnv script

def popJob : Session (Option Value) := modifyGet fun m =>
  match m.jobs.pop? with
  | some (job, jobs) => (some job, { m with jobs })
  | none => (none, m)

/-- Runs jobs in order, also those that jobs add, until one of them throws. -/
def drainFor (E : Evaluator) : Nat → Session Unit
  | 0 => Action.exhaust
  | laps + 1 => do
    match ← popJob with
    | none => return ()
    | some job =>
      let _ ← complete E (E.call job [])
      drainFor E laps

def drain (E : Evaluator) : Session Unit := drainFor E E.laps

def execute (E : Evaluator) (source : String) : Session Unit := do
  let script ← parse source
  run E script
  drain E

end Session

end Reprl
