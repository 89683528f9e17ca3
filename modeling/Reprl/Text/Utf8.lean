/-! UTF-8. Decoding stops at the first byte that cannot belong to a well-formed
text and says how much of a character was well formed there. -/

namespace Reprl.Text

abbrev Bytes := List UInt8

def encode (s : String) : Bytes := s.toUTF8.data.toList

structure Utf8Error where
  /-- The bytes before it, which are well formed. -/
  validUpTo : Nat
  /-- How many bytes are wrong; none if the text only ends too early. -/
  wrong : Option Nat
  deriving DecidableEq, Repr

/-- The bytes that may follow the first byte of a character, as a range, and how
many plain continuation bytes come after that. -/
structure Lead where
  bits : Nat
  low : UInt8
  high : UInt8
  more : Nat

/-- What the first byte of a character longer than one byte announces. -/
def lead? (b : UInt8) : Option Lead :=
  if 0xC2 ≤ b && b ≤ 0xDF then some ⟨b.toNat - 0xC0, 0x80, 0xBF, 0⟩
  else if b = 0xE0 then some ⟨0, 0xA0, 0xBF, 1⟩
  else if b = 0xED then some ⟨0xD, 0x80, 0x9F, 1⟩
  else if 0xE1 ≤ b && b ≤ 0xEF then some ⟨b.toNat - 0xE0, 0x80, 0xBF, 1⟩
  else if b = 0xF0 then some ⟨0, 0x90, 0xBF, 2⟩
  else if 0xF1 ≤ b && b ≤ 0xF3 then some ⟨b.toNat - 0xF0, 0x80, 0xBF, 2⟩
  else if b = 0xF4 then some ⟨4, 0x80, 0x8F, 2⟩
  else none

/-- Continuation bytes after the first `seen` bytes of a character. The result
is the code point and the bytes after it, or how many bytes are wrong. -/
def continuation (bits seen : Nat) : Nat → Bytes → Except (Option Nat) (Nat × Bytes)
  | 0, bytes => .ok (bits, bytes)
  | _ + 1, [] => .error none
  | more + 1, b :: rest =>
    if 0x80 ≤ b && b ≤ 0xBF then
      continuation (bits * 64 + (b.toNat - 0x80)) (seen + 1) more rest
    else .error (some seen)

def decodeChar (first : UInt8) (rest : Bytes) : Except (Option Nat) (Nat × Bytes) :=
  if first < 0x80 then .ok (first.toNat, rest)
  else
    match lead? first with
    | none => .error (some 1)
    | some lead =>
      match rest with
      | [] => .error none
      | second :: rest =>
        if lead.low ≤ second && second ≤ lead.high then
          continuation (lead.bits * 64 + (second.toNat - 0x80)) 2 lead.more rest
        else .error (some 1)

/-- Decodes at most `count` characters; the text read so far is `text`. -/
def decodeFrom (text : String) : Nat → Bytes → Except Utf8Error String
  | _, [] => .ok text
  | 0, _ :: _ => .ok text
  | count + 1, first :: rest =>
    match decodeChar first rest with
    | .ok (code, rest) => decodeFrom (text.push (Char.ofNat code)) count rest
    | .error wrong => .error ⟨text.utf8ByteSize, wrong⟩

def decode (bytes : Bytes) : Except Utf8Error String := decodeFrom "" bytes.length bytes

namespace Utf8Error

def message (e : Utf8Error) : String :=
  match e.wrong with
  | some n =>
    "invalid utf-8 sequence of " ++ toString n ++ " bytes from index " ++ toString e.validUpTo
  | none => "incomplete utf-8 byte sequence from index " ++ toString e.validUpTo

end Utf8Error

end Reprl.Text
