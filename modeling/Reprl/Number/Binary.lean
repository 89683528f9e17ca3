/-! Doubles as exact numbers: a finite double is a whole significand times a
power of two, and `nearest` gives the double closest to a fraction. The remainder of a
division is exact; it has the sign of the dividend, also when it is zero. -/

namespace Reprl.Number

def signBit : Nat := 0x8000000000000000

/-- The leading bit of a normal significand, which is not stored. -/
def hiddenBit : Nat := 0x10000000000000

inductive Parts where
  | nan
  | infinite (negative : Bool)
  /-- The value is `significand * 2 ^ exponent`, negated when `negative` holds. -/
  | finite (negative : Bool) (significand : Nat) (exponent : Int)
  deriving DecidableEq, Repr

namespace Parts

def ofBits (bits : Nat) : Parts :=
  let negative : Bool := bits / signBit % 2 == 1
  let biased : Nat := bits / hiddenBit % 2048
  let fraction : Nat := bits % hiddenBit
  if biased = 2047 then
    if fraction = 0 then infinite negative else nan
  else if biased = 0 then finite negative fraction (-1074)
  else finite negative (hiddenBit + fraction) ((biased : Int) - 1075)

def ofFloat (x : Float) : Parts := ofBits x.toBits.toNat

end Parts

/-- The value `significand * 2 ^ exponent` without its fraction. -/
def wholePart (significand : Nat) (exponent : Int) : Nat :=
  match exponent with
  | .ofNat k => significand * Nat.pow 2 k
  | .negSucc k => significand / Nat.pow 2 (k + 1)

/-- The quotient rounded to a whole number, a half going to the even neighbour. -/
def divideToEven (numerator denominator : Nat) : Nat :=
  let quotient := numerator / denominator
  let rest := numerator % denominator
  if 2 * rest < denominator then quotient
  else if 2 * rest = denominator ∧ quotient % 2 = 0 then quotient
  else quotient + 1

/-- The largest `k` with `2 ^ k ≤ numerator / denominator`, both positive. -/
def binaryOrder (numerator denominator : Nat) : Int :=
  let guess := (numerator.log2 : Int) - (denominator.log2 : Int)
  if numerator * Nat.pow 2 (-guess).toNat < denominator * Nat.pow 2 guess.toNat then guess - 1
  else guess

/-- The bits of the double closest to a positive fraction, a tie going to the
even significand and anything too large to infinity. -/
def nearestBits (numerator denominator : Nat) : Nat :=
  if numerator = 0 then 0
  else
    let exponent := max (binaryOrder numerator denominator - 52) (-1074)
    let significand :=
      divideToEven (numerator * Nat.pow 2 (-exponent).toNat)
        (denominator * Nat.pow 2 exponent.toNat)
    if significand < hiddenBit then significand
    else
      min ((exponent + 1075).toNat * hiddenBit + (significand - hiddenBit)) (2047 * hiddenBit)

def withSign (negative : Bool) (bits : Nat) : Float :=
  Float.ofBits (UInt64.ofNat (if negative then signBit + bits else bits))

def nearest (negative : Bool) (numerator denominator : Nat) : Float :=
  withSign negative (nearestBits numerator denominator)

def remainder (x y : Float) : Float :=
  match Parts.ofFloat x, Parts.ofFloat y with
  | .nan, _ | _, .nan | .infinite _, _ => 0.0 / 0.0
  | .finite .., .infinite _ => x
  | .finite negative m e, .finite _ n f =>
    if n = 0 then 0.0 / 0.0
    else
      let unit := min e f
      let rest := (m * Nat.pow 2 (e - unit).toNat) % (n * Nat.pow 2 (f - unit).toNat)
      nearest negative (rest * Nat.pow 2 unit.toNat) (Nat.pow 2 (-unit).toNat)

end Reprl.Number
