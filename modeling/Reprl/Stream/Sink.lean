import Reprl.Text.Utf8

/-! Outputs that may accept a part of what they are given, be interrupted, or fail.
A sink answers by its history, so every order of answers is some sink. -/

namespace Reprl.Stream

open Reprl.Text (Bytes)

/-- What a sink has seen and kept. -/
structure SinkLog where
  /-- Write calls, interrupted and failed ones included. -/
  calls : Nat := 0
  /-- Sizes of the writes that were accepted, in order. -/
  writes : Array Nat := #[]
  flushes : Nat := 0
  contents : Array UInt8 := #[]

inductive WriteReply where
  | accepts (count : Nat)
  | fails (reason : String)

/-- The behaviour of a sink with its log. Before it answers a write call, it
interrupts the call some number of times. -/
structure Sink where
  interruptions : SinkLog → Nat
  onWrite : SinkLog → Nat → WriteReply
  onFlush : SinkLog → Option String
  log : SinkLog := {}

abbrev Sink.Action := ExceptT String (StateM Sink)

namespace SinkLog

def called (log : SinkLog) (count : Nat) : SinkLog := { log with calls := log.calls + count }

def accepted (log : SinkLog) (bytes : Bytes) : SinkLog :=
  { log with
    writes := log.writes.push bytes.length
    contents := log.contents ++ bytes }

end SinkLog

namespace Sink

def reliable : Sink where
  interruptions _ := 0
  onWrite _ offered := .accepts offered
  onFlush _ := none

instance : Inhabited Sink := ⟨reliable⟩

def contents (sink : Sink) : Bytes := sink.log.contents.toList

/-- Offers bytes until an offer is not interrupted. The result is how many of
them were accepted. -/
def write (bytes : Bytes) : Sink.Action Nat := fun sink =>
  let asked := sink.log.called (sink.interruptions sink.log)
  let log := asked.called 1
  match sink.onWrite asked bytes.length with
  | .fails reason => (.error reason, { sink with log })
  | .accepts count =>
    let taken := bytes.take count
    if taken.isEmpty then (.ok 0, { sink with log })
    else (.ok taken.length, { sink with log := log.accepted taken })

/-- Writes until nothing is left, at most `count` times. -/
def writeTimes : Nat → Bytes → Sink.Action Unit
  | _, [] => pure ()
  | 0, _ :: _ => throw "failed to write whole buffer"
  | count + 1, bytes => do
    match ← write bytes with
    | 0 => throw "failed to write whole buffer"
    | taken => writeTimes count (bytes.drop taken)

/-- Writes all bytes or fails. Each write accepts at least one byte. -/
def writeAll (bytes : Bytes) : Sink.Action Unit := writeTimes bytes.length bytes

def flush : Sink.Action Unit := fun sink =>
  match sink.onFlush sink.log with
  | some reason => (.error reason, sink)
  | none => (.ok (), { sink with log := { sink.log with flushes := sink.log.flushes + 1 } })

end Sink

end Reprl.Stream
