import Reprl.Stream.Sink
import Reprl.Stream.Source

/-! The channel to the fuzzer. Both sides greet each other; then each request is the
word `exec`, the length of a script in eight bytes and the script itself, and is
answered by a status of four bytes. Words are sent with their low byte first. -/

namespace Reprl

open Reprl.Stream Reprl.Text

inductive ProtocolError where
  | handshakeWrite (reason : String)
  | handshakeRead (reason : String)
  | handshakeMismatch (reply : Bytes)
  | actionRead (reason : String)
  | unknownAction (word : Nat)
  | sizeRead (reason : String)
  | scriptRead (reason : String)
  | statusWrite (reason : String)
  deriving DecidableEq, Repr

namespace ProtocolError

def reason? : ProtocolError → Option String
  | handshakeWrite reason | handshakeRead reason | actionRead reason | sizeRead reason
  | scriptRead reason | statusWrite reason => some reason
  | handshakeMismatch _ | unknownAction _ => none

def bytesText (bytes : Bytes) : String :=
  "[" ++ ", ".intercalate (bytes.map fun b => Nat.repr b.toNat) ++ "]"

def wordText (word : Nat) : String := "0x" ++ String.ofList (Nat.toDigits 16 word)

def message : ProtocolError → String
  | handshakeWrite reason => "Failed to send handshake: " ++ reason
  | handshakeRead reason => "Invalid response from parent: " ++ reason
  | handshakeMismatch reply => "Invalid response from parent: " ++ bytesText reply
  | actionRead reason => "Failed to read action: " ++ reason
  | unknownAction word => "Unknown action " ++ wordText word
  | sizeRead reason => "Failed to read script size: " ++ reason
  | scriptRead reason => "Failed to load script: " ++ reason
  | statusWrite reason => "Erroring writing return value over REPRL_CWFD: " ++ reason

end ProtocolError

/-- The whole number that bytes write, the low byte first. -/
def wordOf : Bytes → Nat
  | [] => 0
  | b :: rest => b.toNat + 256 * wordOf rest

/-- The low bytes of a number, the lowest first. -/
def bytesOfWord : Nat → Nat → Bytes
  | 0, _ => []
  | count + 1, word => UInt8.ofNat (word % 256) :: bytesOfWord count (word / 256)

def greeting : Bytes := encode "HELO"

def execWord : Nat := wordOf (encode "exec")

structure Channel where
  control : Source := []
  replies : Sink := default
  data : Source := []

namespace Channel

abbrev Step := ExceptT ProtocolError (StateM Channel)

def readControl (count : Nat) (failure : String → ProtocolError) : Step Bytes :=
  fun ⟨control, replies, data⟩ =>
    match control.take count with
    | (.complete bytes, control) => (.ok bytes, ⟨control, replies, data⟩)
    | (.ended _, control) =>
      (.error (failure "failed to fill whole buffer"), ⟨control, replies, data⟩)
    | (.failed reason, control) => (.error (failure reason), ⟨control, replies, data⟩)

def closedText (got count : Nat) : String :=
  "data pipe closed after " ++ Nat.repr got ++ " of " ++ Nat.repr count ++ " bytes"

def readData (count : Nat) : Step Bytes :=
  fun ⟨control, replies, data⟩ =>
    match data.take count with
    | (.complete bytes, data) => (.ok bytes, ⟨control, replies, data⟩)
    | (.ended bytes, data) =>
      (.error (.scriptRead (closedText bytes.length count)), ⟨control, replies, data⟩)
    | (.failed reason, data) => (.error (.scriptRead reason), ⟨control, replies, data⟩)

def send (bytes : Bytes) (failure : String → ProtocolError) : Step Unit :=
  fun ⟨control, replies, data⟩ =>
    match (do Sink.writeAll bytes; Sink.flush : Sink.Action Unit) replies with
    | (.ok (), replies) => (.ok (), ⟨control, replies, data⟩)
    | (.error reason, replies) => (.error (failure reason), ⟨control, replies, data⟩)

def greet : Step Unit := send greeting .handshakeWrite

def readGreeting : Step Unit := do
  let reply ← readControl 4 .handshakeRead
  unless reply = greeting do throw (.handshakeMismatch reply)

def handshake : Step Unit := do
  greet
  readGreeting

def readAction : Step Unit := do
  let word := wordOf (← readControl 4 .actionRead)
  unless word = execWord do throw (.unknownAction word)

/-- Reads the length of a script, and then the script. There is memory for every length here. A
process that has too little ends at once, before it reads any of the script. -/
def readScript : Step Bytes := do
  let size ← readControl 8 .sizeRead
  readData (wordOf size)

def sendStatus (status : Nat) : Step Unit := send (bytesOfWord 4 status) .statusWrite

end Channel

end Reprl
