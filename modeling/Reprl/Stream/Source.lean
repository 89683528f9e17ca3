import Reprl.Text.Utf8

/-! Inputs that arrive in pieces. A source is the list of what its reads will meet;
after the last event it has ended. -/

namespace Reprl.Stream

open Reprl.Text (Bytes)

inductive Event where
  /-- Bytes that are there at once. One read takes them or a part of them. -/
  | bytes (chunk : Bytes)
  /-- A read that has to be repeated. -/
  | interrupted
  | failed (reason : String)
  deriving DecidableEq, Repr

abbrev Source := List Event

inductive Taken where
  | complete (bytes : Bytes)
  | ended (bytes : Bytes)
  | failed (reason : String)
  deriving DecidableEq, Repr

namespace Source

/-- All bytes that a source still holds, if nothing fails. -/
def size : Source → Nat
  | [] => 0
  | .bytes chunk :: rest => chunk.length + size rest
  | _ :: rest => size rest

/-- Reads up to a number of bytes, given what was read before. -/
def takeAfter (read : Array UInt8) : Nat → Source → Taken × Source
  | 0, source => (.complete read.toList, source)
  | _ + 1, [] => (.ended read.toList, [])
  | count + 1, .interrupted :: rest => takeAfter read (count + 1) rest
  | _ + 1, .failed reason :: rest => (.failed reason, rest)
  | count + 1, .bytes chunk :: rest =>
    if chunk.length ≤ count + 1 then takeAfter (read ++ chunk) (count + 1 - chunk.length) rest
    else
      ((.complete (read ++ chunk.take (count + 1)).toList), .bytes (chunk.drop (count + 1)) :: rest)

/-- Reads a number of bytes. Interrupted reads are repeated; bytes that were read
before the end or a failure do not return to the source. -/
def take (count : Nat) (source : Source) : Taken × Source := takeAfter #[] count source

end Source

end Reprl.Stream
