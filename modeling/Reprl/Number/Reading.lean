import Reprl.Number.Binary
import Reprl.Text.Character

/-! Reading a number from text: blank text is zero, then the infinities, `0x`
numbers of at most 64 bits and decimals are read. All other text is not a
number. Decimals are rounded to the nearest double. -/

namespace Reprl.Number

open Reprl.Text

def notANumber : Float := 0.0 / 0.0

def infinity (negative : Bool) : Float := withSign negative (2047 * hiddenBit)

/-- A decimal `digits * 10 ^ scale`, where `digits` stands as written. -/
structure Decimal where
  negative : Bool
  digits : List Char
  scale : Int

/-- The double nearest to a decimal. Decimals beyond the range of doubles are
settled by their order of magnitude alone. -/
def Decimal.value (d : Decimal) : Float :=
  let digits := d.digits.dropWhile (· = '0')
  let order := (digits.length : Int) + d.scale
  if digits.isEmpty ∨ order < -330 then withSign d.negative 0
  else if 310 < order then infinity d.negative
  else
    nearest d.negative (digitsValue 10 digits * Nat.pow 10 d.scale.toNat)
      (Nat.pow 10 (-d.scale).toNat)

def takeSign : List Char → Bool × List Char
  | '-' :: rest => (true, rest)
  | '+' :: rest => (false, rest)
  | cs => (false, cs)

/-- The exponent that ends a decimal; empty text is the exponent zero. -/
def exponent? : List Char → Option Int
  | [] => some 0
  | c :: rest =>
    if c = 'e' ∨ c = 'E' then
      let (negative, digits) := takeSign rest
      if digits.isEmpty || !digits.all isDecimal then none
      else some (if negative then -(digitsValue 10 digits : Int) else digitsValue 10 digits)
    else none

/-- Digits with at most one point and at least one digit, then an exponent. -/
def unsignedDecimal? (cs : List Char) : Option (List Char × Int) :=
  let whole := cs.takeWhile isDecimal
  let rest := cs.dropWhile isDecimal
  let (fraction, rest) := match rest with
    | '.' :: after => (after.takeWhile isDecimal, after.dropWhile isDecimal)
    | _ => ([], rest)
  if whole.isEmpty && fraction.isEmpty then none
  else (exponent? rest).map fun e => (whole ++ fraction, e - fraction.length)

def decimal? (cs : List Char) : Option Decimal :=
  let (negative, rest) := takeSign cs
  (unsignedDecimal? rest).map fun (digits, scale) => ⟨negative, digits, scale⟩

def hexadecimal (digits : List Char) : Float :=
  match unsigned? 16 digits with
  | some n => if n < 0x10000000000000000 then nearest false n 1 else notANumber
  | none => notANumber

def ofChars (cs : List Char) : Float :=
  match trim cs with
  | [] => 0.0
  | '0' :: 'x' :: digits => hexadecimal digits
  | '0' :: 'X' :: digits => hexadecimal digits
  | rest =>
    if rest = "Infinity".toList ∨ rest = "+Infinity".toList then infinity false
    else if rest = "-Infinity".toList then infinity true
    else match decimal? rest with
      | some d => d.value
      | none => notANumber

def ofText (s : String) : Float := ofChars s.toList

end Reprl.Number
