import Reprl.Channel
import Reprl.Coverage
import Reprl.Machine.Script

/-! The loop that serves a fuzzer. Every request runs its script on a fresh machine and
is answered by a verdict. Failures of scripts are verdicts; only a failure of the
channel or a script that is no text ends the loop. -/

namespace Reprl

open Reprl.Stream Reprl.Text

inductive Verdict where
  | success
  | exception
  deriving DecidableEq, Repr

def Verdict.exitCode : Verdict → Nat
  | success => 0
  | exception => 1

/-- The exit code in the second byte of a status word. -/
def Verdict.status (v : Verdict) : Nat := v.exitCode % 256 * 256

inductive LoopError where
  | protocol (error : ProtocolError)
  | invalidEncoding (error : Utf8Error)
  deriving DecidableEq, Repr

namespace LoopError

def message : LoopError → String
  | protocol e => e.message
  | invalidEncoding _ => "Script is not valid UTF-8"

def reason? : LoopError → Option String
  | protocol e => e.reason?
  | invalidEncoding e => some e.message

end LoopError

structure Loop where
  channel : Channel := {}
  fuzz : Sink := default
  console : Console := {}
  coverage : Coverage := {}
  executions : Nat := 0

namespace Loop

abbrev Step := Action Loop LoopError

variable {α : Type}

def onChannel (step : Channel.Step α) : Step α := fun l =>
  match step l.channel with
  | (.ok a, channel) => (.ok a, { l with channel })
  | (.error e, channel) => (.error (.thrown (.protocol e)), { l with channel })

def report (line : String) : Step Unit :=
  modify fun l => { l with console := l.console.report line }

def onMachine (session : Session α) : Step (Except ScriptError α) := fun l =>
  match Action.attempt session (.new .fuzzer l.fuzz l.console) with
  | (result, m) => (result, { l with fuzz := m.fuzz, console := m.console })

def readScript : Step String := do
  onChannel Channel.readAction
  match decode (← onChannel Channel.readScript) with
  | .ok source => return source
  | .error e =>
    report "[REPRL] Script is not valid UTF-8"
    Action.raise (.invalidEncoding e)

def judge (E : Evaluator) (source : String) : Step Verdict := do
  match ← onMachine (Session.execute E source) with
  | .ok () => return .success
  | .error e =>
    report e.message
    return .exception

/-- Serves one request. What the script printed is out before the fuzzer gets the
status, and the edges are ready to be recorded again only after that. -/
def iteration (E : Evaluator) : Step Verdict := do
  let source ← readScript
  let verdict ← judge E source
  modify fun l => { l with console := l.console.flush }
  onChannel (Channel.sendStatus verdict.status)
  modify fun l => { l with coverage := l.coverage.reset, executions := l.executions + 1 }
  return verdict

def runFor (E : Evaluator) : Nat → Step Empty
  | 0 => Action.exhaust
  | requests + 1 => do
    let _ ← iteration E
    runFor E requests

/-- Serves requests until one fails. Each takes some bytes of control, so there are
fewer of them than bytes. -/
def run (E : Evaluator) : Step Empty := fun l => runFor E (l.channel.control.size + 1) l

end Loop

end Reprl
