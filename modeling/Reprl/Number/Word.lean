import Reprl.Number.Binary

/-! Numbers as 32-bit words. The whole part is first held between the bounds of
a signed 64-bit integer and then reduced modulo `2 ^ 32`. -/

namespace Reprl.Number

def clamp64 (i : Int) : Int := max (-0x8000000000000000) (min i 0x7fffffffffffffff)

def signed (negative : Bool) (n : Nat) : Int := if negative then -n else n

def Parts.clamped64 : Parts → Int
  | .finite negative significand exponent =>
    clamp64 (signed negative (wholePart significand exponent))
  | _ => 0

/-- The 64-bit integer that a number stands for; zero unless it is finite. -/
def toInt64 (x : Float) : Int := Parts.clamped64 (.ofFloat x)

def toInt32 (x : Float) : Int32 := Int32.ofInt (toInt64 x)

def ofInt32 (w : Int32) : Float := Float.ofInt w.toInt

def ofUInt32 (w : UInt32) : Float := Float.ofNat w.toNat

/-- The low five bits of a word, as a shift amount. -/
def shiftAmount (w : Int32) : UInt32 := w.toUInt32 &&& 31

end Reprl.Number
