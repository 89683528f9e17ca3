import Reprl.Number.Binary

/-! The text of a number. Whole numbers below `10 ^ 21` are written exactly, all other finite
numbers by the shortest decimal that reads back as the same double, and never with an
exponent. Among the decimals with the fewest digits the one nearest to the double is
taken, and of two equally near ones the larger. -/

namespace Reprl.Number

/-- Least `k`, counted up from a lower bound, with `numerator / denominator < 10 ^ k`. -/
def decimalOrderFrom : Nat → Int → Nat → Nat → Int
  | 0, k, _, _ => k
  | fuel + 1, k, numerator, denominator =>
    if numerator * Nat.pow 10 (-k).toNat < denominator * Nat.pow 10 k.toNat then k
    else decimalOrderFrom fuel (k + 1) numerator denominator

/-- Least `k` with `numerator / denominator < 10 ^ k`. The binary order gives it
up to four steps, since `30103 / 100000` is close to the logarithm of two. -/
def decimalOrder (numerator denominator : Nat) : Int :=
  let guess := (binaryOrder numerator denominator * 30103) / 100000 - 1
  decimalOrderFrom 4 guess numerator denominator

/-- The reals that round to a double, in units of a common denominator. -/
structure Interval where
  low : Nat
  value : Nat
  high : Nat
  denominator : Nat
  closed : Bool

/-- The rounding interval of `significand * 2 ^ exponent`. The gap below a power
of two is half the gap above it. -/
def Interval.ofParts (significand : Nat) (exponent : Int) : Interval :=
  let up := Nat.pow 2 exponent.toNat
  let below := if significand = hiddenBit ∧ exponent ≠ -1074 then 1 else 2
  { low := (4 * significand - below) * up
    value := 4 * significand * up
    high := (4 * significand + 2) * up
    denominator := 4 * Nat.pow 2 (-exponent).toNat
    closed := significand % 2 = 0 }

def Interval.contains (i : Interval) (numerator denominator : Nat) : Bool :=
  let point := numerator * i.denominator
  let low := i.low * denominator
  let high := i.high * denominator
  if i.closed then low ≤ point && point ≤ high else low < point && point < high

/-- The best point `digits * 10 ^ scale` of one decimal grid, if the interval has one. -/
def Interval.gridPoint (i : Interval) (scale : Int) : Option Nat :=
  let unit := Nat.pow 10 scale.toNat
  let parts := Nat.pow 10 (-scale).toNat
  let down := i.value * parts / (i.denominator * unit)
  let up := down + 1
  let downFits := i.contains (down * unit) parts
  let upFits := i.contains (up * unit) parts
  if upFits && (!downFits || (2 * down + 1) * unit * i.denominator ≤ 2 * i.value * parts) then
    some up
  else if downFits then some down
  else none

def Interval.search (i : Interval) (order : Int) : Nat → Nat → Nat × Int
  | 0, digits => (0, order - digits)
  | fuel + 1, digits =>
    match i.gridPoint (order - digits) with
    | some point => (point, order - digits)
    | none => i.search order fuel (digits + 1)

/-- Digits and decimal exponent of the shortest decimal for a positive double.
Seventeen digits always suffice. -/
def shortest (significand : Nat) (exponent : Int) : Nat × Int :=
  let i := Interval.ofParts significand exponent
  i.search (decimalOrder i.value i.denominator) 17 1

def decimalText (n : Nat) : String := String.ofList (Nat.toDigits 10 n)

def dropTrailingZeros (digits : List Char) : List Char :=
  (digits.reverse.dropWhile (· = '0')).reverse

def positional (digits : Nat) (scale : Int) : String :=
  let text := Nat.toDigits 10 digits
  match scale with
  | .ofNat zeros => String.ofList (text ++ List.replicate zeros '0')
  | .negSucc k =>
    let places := k + 1
    let padded := List.replicate (places + 1 - text.length) '0' ++ text
    let whole := padded.take (padded.length - places)
    match dropTrailingZeros (padded.drop (padded.length - places)) with
    | [] => String.ofList whole
    | fraction => String.ofList (whole ++ '.' :: fraction)

/-- Whole numbers from this size on are written by their shortest decimal. -/
def exactLimit : Nat := Nat.pow 10 21

def isWhole (significand : Nat) (exponent : Int) : Bool :=
  significand % Nat.pow 2 (-exponent).toNat == 0

def magnitudeText (significand : Nat) (exponent : Int) : String :=
  let whole := wholePart significand exponent
  if isWhole significand exponent && whole < exactLimit then decimalText whole
  else
    let (digits, scale) := shortest significand exponent
    positional digits scale

def Parts.text : Parts → String
  | .nan => "NaN"
  | .infinite negative => if negative then "-Infinity" else "Infinity"
  | .finite negative significand exponent =>
    if significand = 0 then "0"
    else if negative then "-" ++ magnitudeText significand exponent
    else magnitudeText significand exponent

def text (x : Float) : String := Parts.text (.ofFloat x)

end Reprl.Number
