import Reprl.Text.Character

/-! The value of the text between the quotes of a string or template. Escapes
stand for the characters they name, a pair of surrogate escapes for one
character, and any escape that names no character for U+FFFD. -/

namespace Reprl.Text

def replacement : Char := '\uFFFD'

/-- The character with a number, or U+FFFD when there is none. -/
def scalar (n : Option Nat) : Char :=
  match n with
  | some n => if n.isValidChar then Char.ofNat n else replacement
  | none => replacement

def isLeading (unit : Nat) : Bool := 0xD800 ≤ unit && unit < 0xDC00

def isTrailing (unit : Nat) : Bool := 0xDC00 ≤ unit && unit < 0xE000

def joinSurrogates (leading trailing : Nat) : Nat :=
  0x10000 + (leading - 0xD800) * 0x400 + (trailing - 0xDC00)

def codeNumber? (cs : List Char) : Option Nat :=
  (unsigned? 16 cs).filter (· < 0x100000000)

/-- The trailing surrogate escape at the head of the text, with what follows it. -/
def trailingEscape? : List Char → Option (Nat × List Char)
  | '\\' :: 'u' :: rest =>
    match codeNumber? (rest.take 4) with
    | some unit => if isTrailing unit then some (unit, rest.drop 4) else none
    | none => none
  | _ => none

/-- The character that `\u` with four digits names, and what follows it. -/
def fourDigitEscape (rest : List Char) : Char × List Char :=
  match codeNumber? (rest.take 4) with
  | none => (replacement, rest.drop 4)
  | some unit =>
    if isLeading unit then
      match trailingEscape? (rest.drop 4) with
      | some (trailing, after) => (scalar (some (joinSurrogates unit trailing)), after)
      | none => (replacement, rest.drop 4)
    else (scalar (some unit), rest.drop 4)

/-- The character that a `\u` escape with braces names, and what follows it.
The opening brace is already read. -/
def bracedEscape (rest : List Char) : Char × List Char :=
  (scalar (codeNumber? (rest.takeWhile (· ≠ '\x7d'))), (rest.dropWhile (· ≠ '\x7d')).drop 1)

def startsWithDecimal : List Char → Bool
  | c :: _ => isDecimal c
  | [] => false

/-- What an escape stands for, given the text after its backslash: some
character or nothing, and the rest of the text. -/
def escape : List Char → Option Char × List Char
  | [] => (some '\\', [])
  | 'n' :: rest => (some '\n', rest)
  | 't' :: rest => (some '\t', rest)
  | 'r' :: rest => (some '\r', rest)
  | 'b' :: rest => (some '\x08', rest)
  | 'f' :: rest => (some '\x0c', rest)
  | 'v' :: rest => (some '\x0b', rest)
  | '0' :: rest => (some (if startsWithDecimal rest then '0' else '\x00'), rest)
  | 'x' :: rest => (some (scalar (codeNumber? (rest.take 2))), rest.drop 2)
  | 'u' :: '\x7b' :: rest => let (c, after) := bracedEscape rest; (some c, after)
  | 'u' :: rest => let (c, after) := fourDigitEscape rest; (some c, after)
  | '\n' :: rest => (none, rest)
  | '\r' :: '\n' :: rest => (none, rest)
  | '\r' :: rest => (none, rest)
  | '\u2028' :: rest => (none, rest)
  | '\u2029' :: rest => (none, rest)
  | c :: rest => (some c, rest)

theorem length_dropWhile_le {α : Type} (p : α → Bool) (l : List α) :
    (l.dropWhile p).length ≤ l.length := (List.dropWhile_sublist p).length_le

theorem length_trailingEscape? {cs after : List Char} {unit : Nat}
    (h : trailingEscape? cs = some (unit, after)) : after.length ≤ cs.length := by
  unfold trailingEscape? at h
  split at h
  · split at h
    · split at h
      · simp only [Option.some.injEq, Prod.mk.injEq] at h
        rw [← h.2]
        simp
        omega
      · simp at h
    · simp at h
  · simp at h

theorem length_fourDigitEscape (rest : List Char) :
    (fourDigitEscape rest).2.length ≤ rest.length := by
  unfold fourDigitEscape
  split
  · simp
  · split
    · split
      · next h => exact Nat.le_trans (length_trailingEscape? h) (by simp)
      · simp
    · simp

theorem length_bracedEscape (rest : List Char) :
    (bracedEscape rest).2.length ≤ rest.length := by
  have := length_dropWhile_le (· ≠ '\x7d') rest
  simp only [bracedEscape, List.length_drop]
  omega

theorem length_escape (cs : List Char) : (escape cs).2.length ≤ cs.length := by
  unfold escape
  split <;> simp only [List.length_cons, List.length_drop, List.length_nil] <;> try omega
  · next rest => have := length_bracedEscape rest; omega
  · next rest _ => have := length_fourDigitEscape rest; omega

def cookChars : List Char → List Char
  | [] => []
  | c :: rest =>
    if c = '\\' then
      match _h : escape rest with
      | (some value, after) => value :: cookChars after
      | (none, after) => cookChars after
    else c :: cookChars rest
termination_by cs => cs.length
decreasing_by
  · have := length_escape rest; rw [_h] at this; simp at this ⊢; omega
  · have := length_escape rest; rw [_h] at this; simp at this ⊢; omega
  · simp

def cook (raw : String) : String := String.ofList (cookChars raw.toList)

end Reprl.Text
