import Mathlib
import Reprl.Number.Reading

/-! The exact values of doubles, read off their bits. The library's own lemmas about doubles come
with all of it and with no smaller part. -/

namespace Reprl.Number

open Float.Model UnpackedFloat

def magnitude (significand : Nat) (exponent : Int) : ℚ := significand * 2 ^ exponent

theorem magnitude_nonneg (significand : Nat) (exponent : Int) :
    0 ≤ magnitude significand exponent := by
  unfold magnitude
  positivity

def signedValue (negative : Bool) (q : ℚ) : ℚ := if negative then -q else q

/-- The value of a finite double. The others have none. -/
def Parts.value? : Parts → Option ℚ
  | .finite negative significand exponent =>
    some (signedValue negative (magnitude significand exponent))
  | _ => none

def value? (x : Float) : Option ℚ := (Parts.ofFloat x).value?

theorem magnitude_ofNat (significand k : Nat) :
    magnitude significand (.ofNat k) = (significand * 2 ^ k : Nat) := by
  simp [magnitude]

theorem magnitude_negSucc (significand k : Nat) :
    magnitude significand (.negSucc k) = (significand : ℚ) / (2 ^ (k + 1) : Nat) := by
  rw [magnitude, zpow_negSucc, div_eq_mul_inv]
  norm_num

theorem wholePart_eq_floor (significand : Nat) (exponent : Int) :
    (wholePart significand exponent : ℤ) = ⌊magnitude significand exponent⌋ := by
  cases exponent with
  | ofNat k =>
    rw [magnitude_ofNat, Int.floor_natCast]
    rfl
  | negSucc k =>
    rw [magnitude_negSucc, ← Int.cast_natCast significand, Rat.floor_intCast_div_natCast]
    rfl

/-- Finite doubles have at most 53 digits in base two, and fewer only for the least exponent. -/
structure Canonical (significand : Nat) (exponent : Int) : Prop where
  lt : significand < 2 * hiddenBit
  normal : hiddenBit ≤ significand ∨ exponent = -1074
  least : -1074 ≤ exponent
  greatest : exponent ≤ 971

theorem Parts.canonical_ofBits {bits : Nat} {negative : Bool} {significand : Nat} {exponent : Int}
    (h : Parts.ofBits bits = .finite negative significand exponent) :
    Canonical significand exponent := by
  have hfraction : bits % hiddenBit < hiddenBit := Nat.mod_lt _ (by decide)
  have hbiased : bits / hiddenBit % 2048 < 2048 := Nat.mod_lt _ (by decide)
  simp only [Parts.ofBits] at h
  by_cases hlast : bits / hiddenBit % 2048 = 2047
  · rw [if_pos hlast] at h
    by_cases hzero : bits % hiddenBit = 0
    · rw [if_pos hzero] at h
      cases h
    · rw [if_neg hzero] at h
      cases h
  · rw [if_neg hlast] at h
    by_cases hfirst : bits / hiddenBit % 2048 = 0
    · rw [if_pos hfirst] at h
      cases h
      exact ⟨by omega, .inr rfl, by omega, by omega⟩
    · rw [if_neg hfirst] at h
      cases h
      exact ⟨by omega, .inl (Nat.le_add_right _ _), by omega, by omega⟩

theorem Parts.canonical_ofFloat {x : Float} {negative : Bool} {significand : Nat} {exponent : Int}
    (h : Parts.ofFloat x = .finite negative significand exponent) :
    Canonical significand exponent := canonical_ofBits h

theorem unpackExponent_toNat (bits : UInt64) :
    (@unpackExponent .binary64 bits.toBitVec).toNat =
      bits.toNat / hiddenBit % 2048 := by
  rw [unpackExponent_def, BitVec.extractLsb'_toNat, Nat.shiftRight_eq_div_pow]
  rfl

theorem unpackMantissa_toNat (bits : UInt64) :
    (@unpackMantissa .binary64 bits.toBitVec).toNat = bits.toNat % hiddenBit := by
  rw [unpackMantissa_def, BitVec.extractLsb'_toNat, Nat.shiftRight_zero]
  rfl

theorem isNaNBits_iff (bits : UInt64) :
    @isNaNBits .binary64 bits.toBitVec = true ↔ Parts.ofBits bits.toNat = .nan := by
  have hexponent : @unpackExponent .binary64 bits.toBitVec = -1#11 ↔
      bits.toNat / hiddenBit % 2048 = 2047 := by
    rw [← unpackExponent_toNat, ← BitVec.toNat_inj]
    rfl
  have hmantissa : @unpackMantissa .binary64 bits.toBitVec = 0#52 ↔
      bits.toNat % hiddenBit = 0 := by
    rw [← unpackMantissa_toNat, ← BitVec.toNat_inj]
    rfl
  rw [isNaNBits, decide_eq_true_iff, hexponent, Ne, hmantissa, Parts.ofBits]
  by_cases hlast : bits.toNat / hiddenBit % 2048 = 2047
  · by_cases hzero : bits.toNat % hiddenBit = 0
    · simp [hlast, hzero]
    · simp [hlast, hzero]
  · by_cases hfirst : bits.toNat / hiddenBit % 2048 = 0
    · simp [hfirst]
    · simp [hlast, hfirst]

/-- Bits that are no NaN are the bits of their double. -/
theorem toBits_ofBits {bits : UInt64} (h : Parts.ofBits bits.toNat ≠ .nan) :
    (Float.ofBits bits).toBits = bits := by
  have hpacked : (Float.ofBits bits).toBits.toBitVec =
      if @isNaNBits .binary64 bits.toBitVec then packedNaN Format.binary64
      else bits.toBitVec := @pack_unpack .binary64 bits.toBitVec (by decide)
  rw [if_neg (mt (isNaNBits_iff bits).mp h)] at hpacked
  exact UInt64.toBitVec_inj.mp hpacked

theorem ofFloat_ofBits {bits : Nat} (hlt : bits < 2 ^ 64) (h : Parts.ofBits bits ≠ .nan) :
    Parts.ofFloat (Float.ofBits (UInt64.ofNat bits)) = Parts.ofBits bits := by
  have hnat : (UInt64.ofNat bits).toNat = bits := UInt64.toNat_ofNat_of_lt' hlt
  rw [Parts.ofFloat, toBits_ofBits (by rwa [hnat]), hnat]

theorem isNaN_iff (x : Float) : x.isNaN = true ↔ Parts.ofFloat x = .nan := by
  rw [Float.isNaN_eq_decide_eq_nan, decide_eq_true_iff]
  constructor
  · rintro rfl
    decide +kernel
  · intro h
    have hbits := (isNaNBits_iff x.toBits).mpr h
    rw [isNaNBits, decide_eq_true_iff] at hbits
    have hpacked := x.toModel.valid.eq_packedNaN hbits.1 hbits.2
    have hnan : Float.nan.toBits.toBitVec = packedNaN Format.binary64 := by decide +kernel
    exact Float.toBits_inj.mp (UInt64.toBitVec_inj.mp (hpacked.trans hnan.symm))

end Reprl.Number
