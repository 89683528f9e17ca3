import Reprl.Outcome
import Reprl.Stream.Line

/-! The intrinsics behind the fuzzer's function: a crash on purpose, and a line that
goes back to the fuzzer. The first argument selects one by an exact match, and
all other calls do nothing. -/

namespace Reprl

open Reprl.Stream

inductive Intrinsic where
  | crash
  | print
  deriving DecidableEq, Repr

namespace Intrinsic

def names : List String := ["fuzzilli", "__fuzzilli"]

def select (selector : String) : Option Intrinsic :=
  if selector = "FUZZILLI_CRASH" then some crash
  else if selector = "FUZZILLI_PRINT" then some print
  else none

/-- Variant zero is an invalid memory access and every other one an abort. -/
def crashSignal (variant : Int) : Signal := if variant = 0 then .segv else .abrt

/-- What the intrinsics need from an engine with state `σ`, errors `ε` and values `ν`. -/
structure Host (σ ε ν : Type) where
  /-- The selector that a value is, if it is a string at all. -/
  selector : ν → Option String
  crashVariant : Option ν → Int
  /-- The text of a value. Finding it may run scripts. -/
  display : ν → Action σ ε String
  /-- Puts a sink in the place of the one that prints go to. -/
  exchange : Sink → σ → Sink × σ
  report : String → σ → σ

namespace Host

variable {σ ε ν : Type}

/-- Runs an operation on the sink, which is meanwhile not part of the state. -/
def onSink (host : Host σ ε ν) {α : Type} (operation : Sink → α × Sink) : Action σ ε α := fun s =>
  match host.exchange default s with
  | (sink, s) =>
    match operation sink with
    | (result, sink) => (.ok result, (host.exchange sink s).2)

/-- The part of a line that is not written yet stays outside the state, since
conversions of later arguments may write lines of their own. -/
def pushArg (host : Host σ ε ν) (line : Line) (text : String) :
    Action σ ε (Except String Unit × Line) :=
  host.onSink fun sink =>
    match Printing.pushArg text ⟨line, sink⟩ with
    | (result, ⟨line, sink⟩) => ((result, line), sink)

def abandon (host : Host σ ε ν) (line : Line) : Action σ ε Unit :=
  host.onSink fun sink => ((), Printing.abandon ⟨line, sink⟩)

def close (host : Host σ ε ν) (line : Line) : Action σ ε (Except String Unit) :=
  host.onSink fun sink => Printing.close ⟨line, sink⟩

/-- Prints values as one line. If a conversion throws, the values before it are
still written; if writing fails, the rest is dropped. -/
def printLine (host : Host σ ε ν) (failure : String → String) :
    Line → List ν → Action σ ε Unit
  | line, [] => do
    match ← host.close line with
    | .ok () => pure ()
    | .error reason => modify (host.report (failure reason))
  | line, value :: rest => do
    match ← Action.attempt (host.display value) with
    | .error e =>
      host.abandon line
      Action.raise e
    | .ok text =>
      match ← host.pushArg line text with
      | (.ok (), line) => host.printLine failure line rest
      | (.error reason, line) =>
        modify (host.report (failure reason))
        host.abandon line

end Host

def writeFailure (reason : String) : String :=
  "[REPRL] failed to write fuzzer output: " ++ reason

def dispatch {σ ε ν : Type} (host : Host σ ε ν) : List ν → Action σ ε Unit
  | [] => pure ()
  | selector :: rest =>
    match (host.selector selector).bind select with
    | none => pure ()
    | some .crash => Action.crash (crashSignal (host.crashVariant rest.head?))
    | some .print => host.printLine writeFailure {} rest

end Intrinsic

end Reprl
