import Reprl.Machine.Operator
import Reprl.Proofs.Number.Exact
import Reprl.Proofs.Outcome

/-! Numbers as 32-bit words. Below `2 ^ 63` a word holds the low bits of the exact whole part, and
operators on words work on these bits. Greater numbers are held at the bounds of 64 bits first, so
their words say no more than their sign. -/

namespace Reprl.Number

open Reprl.Source (BinaryOp)

/-- A rational number without its fraction. -/
def towardZero (q : ℚ) : ℤ := if q < 0 then ⌈q⌉ else ⌊q⌋

/-- The signed 32-bit integer that differs from `i` by a multiple of `2 ^ 32`. -/
def IsWord (i w : ℤ) : Prop := -2 ^ 31 ≤ w ∧ w < 2 ^ 31 ∧ w ≡ i [ZMOD 2 ^ 32]

theorem isWord_iff (i w : ℤ) : IsWord i w ↔ w = i.bmod (2 ^ 32) := by
  constructor
  · rintro ⟨hlow, hhigh, hmod⟩
    have hbmod : w.bmod (2 ^ 32) = i.bmod (2 ^ 32) := by
      rw [← Int.emod_bmod w, ← Int.emod_bmod i]
      exact congrArg (Int.bmod · (2 ^ 32)) hmod
    rw [← hbmod, Int.bmod_eq_of_le (by omega) (by omega)]
  · rintro rfl
    have hlow : -((2 ^ 32 : Nat) / 2 : ℤ) ≤ i.bmod (2 ^ 32) := Int.le_bmod (by decide)
    have hhigh : i.bmod (2 ^ 32) < ((2 ^ 32 : Nat) + 1) / 2 := Int.bmod_lt (by decide)
    exact ⟨by omega, by omega, Int.bmod_emod⟩

theorem towardZero_neg (q : ℚ) (h : 0 ≤ q) : towardZero (-q) = -⌊q⌋ := by
  by_cases hq : -q < 0
  · rw [towardZero, if_pos hq, Int.ceil_neg]
  · have hzero : q = 0 := by linarith
    rw [towardZero, if_neg hq, hzero]
    simp

def integerPart (x : Float) : ℤ := ((value? x).map towardZero).getD 0

theorem toInt64_eq (x : Float) : toInt64 x = clamp64 (integerPart x) := by
  rw [toInt64, integerPart, value?]
  rcases Parts.ofFloat x with _ | negative | ⟨negative, significand, exponent⟩
  · rfl
  · rfl
  · have hnonneg := magnitude_nonneg significand exponent
    simp only [Parts.clamped64, Parts.value?, Option.map_some, Option.getD_some, signed]
    rw [wholePart_eq_floor]
    cases negative with
    | true => simp [signedValue, towardZero_neg _ hnonneg]
    | false => simp [signedValue, towardZero, not_lt.mpr hnonneg]

theorem toInt32_toInt (x : Float) : (toInt32 x).toInt = (clamp64 (integerPart x)).bmod (2 ^ 32) := by
  rw [toInt32, toInt64_eq, Int32.toInt_ofInt]
  rfl

/-- Whole parts that a signed 64-bit integer can be. -/
def Held (i : ℤ) : Prop := -2 ^ 63 ≤ i ∧ i < 2 ^ 63

theorem clamp64_of_held {i : ℤ} (h : Held i) : clamp64 i = i := by
  obtain ⟨hlow, hhigh⟩ := h
  unfold clamp64
  omega

theorem clamp64_of_large {i : ℤ} (h : 2 ^ 63 ≤ i) : clamp64 i = 2 ^ 63 - 1 := by
  unfold clamp64
  omega

theorem clamp64_of_small {i : ℤ} (h : i < -2 ^ 63) : clamp64 i = -2 ^ 63 := by
  unfold clamp64
  omega

/-- What an operator on words gives. Shifts go by the low five bits of the second word. -/
def combine? (op : BinaryOp) (a b : BitVec 32) : Option Float :=
  match op with
  | .bitAnd => some (.ofInt (a &&& b).toInt)
  | .bitOr => some (.ofInt (a ||| b).toInt)
  | .bitXor => some (.ofInt (a ^^^ b).toInt)
  | .shiftLeft => some (.ofInt (a <<< (b.toNat % 32)).toInt)
  | .shiftRight => some (.ofInt (a.sshiftRight (b.toNat % 32)).toInt)
  | .shiftRightUnsigned => some (.ofNat (a >>> (b.toNat % 32)).toNat)
  | _ => none

theorem and_thirtyOne (b : BitVec 32) : (b &&& 31#32).toNat = b.toNat % 32 := by
  rw [BitVec.toNat_and]
  exact Nat.and_two_pow_sub_one_eq_mod b.toNat 5

theorem smod_thirtyTwo (b : BitVec 32) : (b &&& 31#32).smod 32#32 = b &&& 31#32 := by
  have hlt : (b &&& 31#32).toNat < 32 := by
    rw [and_thirtyOne]
    exact Nat.mod_lt _ (by decide)
  have hmsb : (b &&& 31#32).msb = false := BitVec.msb_eq_false_iff_two_mul_lt.mpr (by omega)
  have hmsb' : (32#32).msb = false := rfl
  simp only [BitVec.smod, hmsb, hmsb']
  apply BitVec.eq_of_toNat_eq
  rw [BitVec.umod_eq, BitVec.toNat_umod]
  exact Nat.mod_eq_of_lt hlt

theorem toNat_shiftAmount (w : Int32) : (shiftAmount w).toNat = w.toBitVec.toNat % 32 := by
  rw [← UInt32.toNat_toBitVec, ← and_thirtyOne]
  rfl

theorem toBitVec_shiftLeft (v w : Int32) :
    (v.toUInt32 <<< shiftAmount w).toInt32.toBitVec = v.toBitVec <<< (w.toBitVec.toNat % 32) := by
  rw [UInt32.toBitVec_toInt32, UInt32.toBitVec_shiftLeft, Int32.toBitVec_toUInt32]
  have hamount : ((shiftAmount w).toBitVec % 32#32).toNat = w.toBitVec.toNat % 32 := by
    rw [BitVec.toNat_umod, UInt32.toNat_toBitVec, toNat_shiftAmount]
    exact Nat.mod_mod _ _
  show v.toBitVec <<< ((shiftAmount w).toBitVec % 32#32).toNat = _
  rw [hamount]

theorem toBitVec_shiftRight (v w : Int32) :
    (v >>> (shiftAmount w).toInt32).toBitVec = v.toBitVec.sshiftRight (w.toBitVec.toNat % 32) := by
  have hamount : ((shiftAmount w).toInt32.toBitVec.smod 32#32).toNat = w.toBitVec.toNat % 32 := by
    rw [UInt32.toBitVec_toInt32, ← and_thirtyOne]
    exact congrArg BitVec.toNat (smod_thirtyTwo w.toBitVec)
  rw [Int32.toBitVec_shiftRight]
  show v.toBitVec.sshiftRight ((shiftAmount w).toInt32.toBitVec.smod 32#32).toNat = _
  rw [hamount]

theorem toBitVec_shiftRightUnsigned (v w : Int32) :
    (v.toUInt32 >>> shiftAmount w).toBitVec = v.toBitVec >>> (w.toBitVec.toNat % 32) := by
  rw [UInt32.toBitVec_shiftRight, Int32.toBitVec_toUInt32]
  have hamount : ((shiftAmount w).toBitVec % 32#32).toNat = w.toBitVec.toNat % 32 := by
    rw [BitVec.toNat_umod, UInt32.toNat_toBitVec, toNat_shiftAmount]
    exact Nat.mod_mod _ _
  show v.toBitVec >>> ((shiftAmount w).toBitVec % 32#32).toNat = _
  rw [hamount]

theorem onWords_numbers (E : Evaluator) (x y : Float) (f : Int32 → Int32 → Float) (m : Machine) :
    E.onWords (.number x) (.number y) f m =
      (.ok (.number (f (toInt32 x) (toInt32 y))), m) := rfl

theorem ofInt32_eq (w : Int32) : ofInt32 w = .ofInt w.toBitVec.toInt := by
  rw [ofInt32, Int32.toInt_toBitVec]

theorem binary_of_combine (E : Evaluator) {op : BinaryOp} {x y result : Float}
    (h : combine? op (toInt32 x).toBitVec (toInt32 y).toBitVec = some result) (m : Machine) :
    E.binary op (.number x) (.number y) m = (.ok (.number result), m) := by
  cases op with
  | bitAnd =>
    rw [← Option.some.inj h, ← Int32.toBitVec_and, ← ofInt32_eq]
    exact onWords_numbers E x y (fun v w => ofInt32 (v &&& w)) m
  | bitOr =>
    rw [← Option.some.inj h, ← Int32.toBitVec_or, ← ofInt32_eq]
    exact onWords_numbers E x y (fun v w => ofInt32 (v ||| w)) m
  | bitXor =>
    rw [← Option.some.inj h, ← Int32.toBitVec_xor, ← ofInt32_eq]
    exact onWords_numbers E x y (fun v w => ofInt32 (v ^^^ w)) m
  | shiftLeft =>
    rw [← Option.some.inj h, ← toBitVec_shiftLeft, ← ofInt32_eq]
    exact onWords_numbers E x y (fun v w => ofInt32 (v.toUInt32 <<< shiftAmount w).toInt32) m
  | shiftRight =>
    rw [← Option.some.inj h, ← toBitVec_shiftRight, ← ofInt32_eq]
    exact onWords_numbers E x y (fun v w => ofInt32 (v >>> (shiftAmount w).toInt32)) m
  | shiftRightUnsigned =>
    rw [← Option.some.inj h, ← toBitVec_shiftRightUnsigned, UInt32.toNat_toBitVec, ← ofUInt32]
    exact onWords_numbers E x y (fun v w => ofUInt32 (v.toUInt32 >>> shiftAmount w)) m
  | _ => cases h

/-- Within the range of 64 bits the word of a double is the one with its low bits. Doubles above
that range have the word -1, and those below it, infinities aside, the word 0. Operators on words
act on the bits. -/
theorem words_hold_low_bits (x y : Float) :
    (value? x = none → (toInt32 x).toInt = 0) ∧
    (∀ q, value? x = some q → Held (towardZero q) →
      (∀ w, IsWord (towardZero q) w ↔ w = (toInt32 x).toInt) ∧
      (toInt32 x).toBitVec = BitVec.ofInt 32 (towardZero q)) ∧
    (∀ q, value? x = some q → 2 ^ 63 ≤ towardZero q → (toInt32 x).toInt = -1) ∧
    (∀ q, value? x = some q → towardZero q < -2 ^ 63 → (toInt32 x).toInt = 0) ∧
    (∀ (E : Evaluator) (m : Machine),
      E.unary .complement (.number x) m =
        (.ok (.number (.ofInt (~~~(toInt32 x).toBitVec).toInt)), m) ∧
      ∀ op result, combine? op (toInt32 x).toBitVec (toInt32 y).toBitVec = some result →
        E.binary op (.number x) (.number y) m = (.ok (.number result), m)) := by
  have hpart : ∀ q, value? x = some q → integerPart x = towardZero q := by
    intro q hq
    rw [integerPart, hq]
    rfl
  refine ⟨?_, ?_, ?_, ?_, ?_⟩
  · intro hnone
    rw [toInt32_toInt, integerPart, hnone]
    rfl
  · intro q hq hheld
    constructor
    · intro w
      rw [isWord_iff, toInt32_toInt, hpart q hq, clamp64_of_held hheld]
    · rw [toInt32, toInt64_eq, hpart q hq, clamp64_of_held hheld, Int32.toBitVec_ofInt]
  · intro q hq hlarge
    rw [toInt32_toInt, hpart q hq, clamp64_of_large hlarge]
    rfl
  · intro q hq hsmall
    rw [toInt32_toInt, hpart q hq, clamp64_of_small hsmall]
    rfl
  · intro E m
    constructor
    · rw [← Int32.toBitVec_not, ← ofInt32_eq]
      rfl
    · intro op result hresult
      exact binary_of_combine E hresult m

/-- The number `-4294967297.5`. -/
def belowWord : Float := Float.ofBits 0xC1F0000000180000

/-- The number `36`. -/
def thirtySix : Float := Float.ofBits 0x4042000000000000

theorem parts_belowWord : Parts.ofFloat belowWord = .finite true 0x10000000180000 (-20) := by
  decide +kernel

theorem words_of_belowWord :
    value? belowWord = some (-4294967297.5) ∧ Held (towardZero (-4294967297.5)) ∧
    IsWord (towardZero (-4294967297.5)) (-1) ∧ (toInt32 belowWord).toInt = -1 ∧
    ∀ (E : Evaluator) (m : Machine),
      E.binary .shiftLeft (.number belowWord) (.number thirtySix) m =
        (.ok (.number (.ofInt (-16))), m) := by
  obtain ⟨-, hwords, -, -, hoperators⟩ := words_hold_low_bits belowWord thirtySix
  have hexact : value? belowWord = some (-4294967297.5) := by
    rw [value?, parts_belowWord, Parts.value?, signedValue, magnitude]
    norm_num
  have hwhole : towardZero (-4294967297.5) = -4294967297 := by
    rw [towardZero, if_pos (by norm_num), Int.ceil_eq_iff]
    norm_num
  have hheld : Held (towardZero (-4294967297.5)) := by
    rw [hwhole]
    exact ⟨by norm_num, by norm_num⟩
  have hminus : (toInt32 belowWord).toInt = -1 := by decide +kernel
  refine ⟨hexact, hheld, ((hwords _ hexact hheld).1 _).mpr hminus.symm, hminus, fun E m => ?_⟩
  refine (hoperators E m).2 .shiftLeft _ ?_
  decide +kernel

/-- The number `2 ^ 63`. -/
def twoPow63 : Float := Float.ofBits 0x43E0000000000000

theorem parts_twoPow63 : Parts.ofFloat twoPow63 = .finite false 0x10000000000000 11 := by
  decide +kernel

theorem twoPow63_is_held_at_bound :
    value? twoPow63 = some (2 ^ 63) ∧ IsWord (towardZero (2 ^ 63)) 0 ∧
    (toInt32 twoPow63).toInt = -1 ∧ ¬IsWord (towardZero (2 ^ 63)) (-1) := by
  have hexact : value? twoPow63 = some (2 ^ 63) := by
    rw [value?, parts_twoPow63, Parts.value?, signedValue, magnitude]
    norm_num
  have hwhole : towardZero (2 ^ 63) = 2 ^ 63 := by
    rw [towardZero, if_neg (by norm_num), Int.floor_eq_iff]
    norm_num
  rw [hwhole, isWord_iff, isWord_iff]
  exact ⟨hexact, by decide, by decide +kernel, by decide⟩

end Reprl.Number
