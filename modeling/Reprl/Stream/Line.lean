import Reprl.Stream.Sink

/-! Printed lines. Arguments are separated by spaces and collected in chunks that
end between characters. What a chunk cannot hold any more starts the next one. -/

namespace Reprl.Stream

open Reprl.Text (encode)

def chunkSize : Nat := 4096

/-- A line that has not been written completely. -/
structure Line where
  pending : String := ""
  args : Nat := 0

structure Printing where
  line : Line
  sink : Sink

namespace Printing

abbrev Action := ExceptT String (StateM Printing)

def onSink {α : Type} (action : Sink.Action α) : Action α := fun ⟨line, sink⟩ =>
  match action sink with
  | (result, sink) => (result, ⟨line, sink⟩)

def setPending (text : String) : Action Unit :=
  modify fun p => { p with line := { p.line with pending := text } }

/-- Writes what is pending. It stays pending unless it was written completely. -/
def flush : Action Unit := do
  let pending := (← get).line.pending
  unless pending.isEmpty do
    onSink (Sink.writeAll (encode pending))
    setPending ""
  onSink Sink.flush

def pushPiece (piece : String) : Action Unit := do
  if chunkSize < (← get).line.pending.utf8ByteSize + piece.utf8ByteSize then flush
  modify fun p => { p with line := { p.line with pending := p.line.pending ++ piece } }

/-- Characters go out as they are, except for NUL, which other programs would take
for the end of the line. -/
def piece (c : Char) : String := if c = '\x00' then "\\u0000" else c.toString

def pushChars : List Char → Action Unit
  | [] => pure ()
  | c :: rest => do
    pushPiece (piece c)
    pushChars rest

def pushArg (text : String) : Action Unit := do
  if 0 < (← get).line.args then pushPiece " "
  modify fun p => { p with line := { p.line with args := p.line.args + 1 } }
  pushChars text.toList

/-- Gives a line up: what is still pending is written, whether that fails or not. -/
def abandon (p : Printing) : Sink := (flush p).2.sink

def finish : Action Unit := do
  pushPiece "\n"
  flush

/-- Ends a line and gives it up, so that nothing stays pending after a failure. -/
def close (p : Printing) : Except String Unit × Sink :=
  match finish p with
  | (result, p) => (result, p.abandon)

end Printing

end Reprl.Stream
