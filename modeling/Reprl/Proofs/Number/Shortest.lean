import Reprl.Number.Text
import Reprl.Proofs.Number.Rounding

/-! The search for the shortest decimal. A grid of seventeen digits is finer than the rounding
interval is wide, so the search ends with a point of the interval. -/

namespace Reprl.Number

namespace Interval

variable {i : Interval}

def lowEnd (i : Interval) : ℚ := i.low / i.denominator

def middle (i : Interval) : ℚ := i.value / i.denominator

def highEnd (i : Interval) : ℚ := i.high / i.denominator

section Contains

variable (hpos : 0 < i.denominator) {n d : Nat} (hd : 0 < d)
include hpos hd

theorem lowEnd_lt_iff : i.low * d < n * i.denominator ↔ i.lowEnd < (n : ℚ) / d := by
  rw [lowEnd, div_lt_div_iff₀ (by exact_mod_cast hpos) (by exact_mod_cast hd)]
  exact_mod_cast Iff.rfl

theorem lt_highEnd_iff : n * i.denominator < i.high * d ↔ (n : ℚ) / d < i.highEnd := by
  rw [highEnd, div_lt_div_iff₀ (by exact_mod_cast hd) (by exact_mod_cast hpos)]
  exact_mod_cast Iff.rfl

theorem contains_of_lt (hlow : i.lowEnd < (n : ℚ) / d) (hhigh : (n : ℚ) / d < i.highEnd) :
    i.contains n d = true := by
  have hleft := (lowEnd_lt_iff hpos hd).mpr hlow
  have hright := (lt_highEnd_iff hpos hd).mpr hhigh
  simp [contains, hleft, hright, hleft.le, hright.le]

theorem bounds_of_contains (h : i.contains n d = true) :
    i.lowEnd ≤ (n : ℚ) / d ∧ (n : ℚ) / d ≤ i.highEnd := by
  have hweak : i.low * d ≤ n * i.denominator ∧ n * i.denominator ≤ i.high * d := by
    unfold contains at h
    by_cases hclosed : i.closed = true
    · simpa [hclosed] using h
    · simp only [hclosed, Bool.false_eq_true, if_false, Bool.and_eq_true, decide_eq_true_eq] at h
      exact ⟨h.1.le, h.2.le⟩
  rw [lowEnd, highEnd, div_le_div_iff₀ (by exact_mod_cast hpos) (by exact_mod_cast hd),
    div_le_div_iff₀ (by exact_mod_cast hd) (by exact_mod_cast hpos)]
  exact_mod_cast hweak

end Contains

theorem gridPoint_cases {scale : Int} {point : Nat} (h : i.gridPoint scale = some point) :
    i.contains (point * Nat.pow 10 scale.toNat) (Nat.pow 10 (-scale).toNat) = true := by
  simp only [gridPoint] at h
  split at h
  next hup =>
    cases h
    exact (Bool.and_eq_true_iff.mp hup).1
  next =>
    split at h
    next hdown =>
      cases h
      exact hdown
    next => cases h

theorem grid_value (point : Nat) (scale : Int) :
    ((point * Nat.pow 10 scale.toNat : Nat) : ℚ) / (Nat.pow 10 (-scale).toNat : Nat) =
      point * 10 ^ scale := by
  have hquotient := mul_pow_div_pow (b := 10) (by decide) scale point 1
  rwa [Nat.one_mul, Nat.cast_one, div_one, Nat.cast_ofNat] at hquotient

/-- A point that is found lies in the interval. -/
theorem gridPoint_bounds (hpos : 0 < i.denominator) {scale : Int} {point : Nat}
    (h : i.gridPoint scale = some point) :
    i.lowEnd ≤ point * 10 ^ scale ∧ (point : ℚ) * 10 ^ scale ≤ i.highEnd := by
  have hparts : 0 < Nat.pow 10 (-scale).toNat := Nat.pow_pos (by decide)
  have hbounds := bounds_of_contains hpos hparts (gridPoint_cases h)
  rwa [grid_value] at hbounds

/-- The point of a grid just below the middle. -/
def below (i : Interval) (scale : Int) : Nat :=
  i.value * Nat.pow 10 (-scale).toNat / (i.denominator * Nat.pow 10 scale.toNat)

theorem below_bounds (hpos : 0 < i.denominator) (scale : Int) :
    (i.below scale : ℚ) * 10 ^ scale ≤ i.middle ∧
      i.middle < (i.below scale + 1 : Nat) * 10 ^ scale := by
  have hunit : (0 : ℚ) < 10 ^ scale := by positivity
  have hscaled : 0 < i.denominator * Nat.pow 10 scale.toNat :=
    Nat.mul_pos hpos (Nat.pow_pos (by decide))
  have hquotient := mul_pow_div_pow (b := 10) (by decide) (-scale) i.value i.denominator
  rw [neg_neg, Nat.cast_ofNat, zpow_neg, ← div_eq_mul_inv] at hquotient
  have hsplit := div_eq_add_rest (i.value * Nat.pow 10 (-scale).toNat) hscaled
  have hrest := rest_lt_one (i.value * Nat.pow 10 (-scale).toNat) hscaled
  have hnonneg : (0 : ℚ) ≤ (i.value * Nat.pow 10 (-scale).toNat %
      (i.denominator * Nat.pow 10 scale.toNat) : Nat) /
      (i.denominator * Nat.pow 10 scale.toNat : Nat) := by positivity
  have hmeasure : i.middle / 10 ^ scale = _ := hquotient.symm.trans hsplit
  have hbelow : (i.below scale : ℚ) ≤ i.middle / 10 ^ scale := by
    rw [hmeasure]
    exact le_add_of_nonneg_right hnonneg
  have habove : i.middle / 10 ^ scale < (i.below scale + 1 : Nat) := by
    rw [hmeasure, Nat.cast_add, Nat.cast_one]
    exact add_lt_add_right hrest _
  exact ⟨(le_div_iff₀ hunit).mp hbelow, (div_lt_iff₀ hunit).mp habove⟩

theorem gridPoint_isSome_of_contains {scale : Int} {point : Nat}
    (h : point = i.below scale ∨ point = i.below scale + 1)
    (hc : i.contains (point * Nat.pow 10 scale.toNat) (Nat.pow 10 (-scale).toNat) = true) :
    (i.gridPoint scale).isSome := by
  simp only [gridPoint]
  split
  next => rfl
  next hup =>
    split
    next => rfl
    next hdown =>
      rcases h with rfl | rfl
      · exact absurd hc hdown
      · -- the lower point does not fit, so the upper one would have been taken
        have hnone := Bool.eq_false_iff.mpr hdown
        rw [hnone] at hup
        exact absurd (Bool.and_eq_true_iff.mpr ⟨hc, rfl⟩) hup

/-- A grid finer than the interval is wide has a point in it. -/
theorem gridPoint_isSome (hpos : 0 < i.denominator) (hlow : i.lowEnd < i.middle)
    (hhigh : i.middle < i.highEnd) {scale : Int} (hfine : (10 : ℚ) ^ scale < i.highEnd - i.lowEnd) :
    (i.gridPoint scale).isSome := by
  have hparts : 0 < Nat.pow 10 (-scale).toNat := Nat.pow_pos (by decide)
  obtain ⟨hbelow, habove⟩ := below_bounds hpos scale
  by_cases hfits : i.lowEnd < i.below scale * 10 ^ scale
  · refine gridPoint_isSome_of_contains (.inl rfl) (contains_of_lt hpos hparts ?_ ?_)
    · rwa [grid_value]
    · rw [grid_value]
      exact hbelow.trans_lt hhigh
  · refine gridPoint_isSome_of_contains (.inr rfl) (contains_of_lt hpos hparts ?_ ?_)
    · rw [grid_value]
      exact hlow.trans habove
    · rw [grid_value, Nat.cast_add, Nat.cast_one, add_mul, one_mul]
      linarith

theorem search_gridPoint {order : Int} {fuel digits enough : Nat} (hfirst : digits ≤ enough)
    (hlast : enough < digits + fuel) (h : (i.gridPoint (order - enough)).isSome) :
    i.gridPoint (i.search order fuel digits).2 = some (i.search order fuel digits).1 := by
  induction fuel generalizing digits with
  | zero => omega
  | succ fuel ih =>
    simp only [search]
    cases hpoint : i.gridPoint (order - digits) with
    | some point => exact hpoint
    | none =>
      have hne : digits ≠ enough := by
        rintro rfl
        rw [hpoint] at h
        cases h
      exact ih (by omega) (by omega)

end Interval

theorem decimalOrderFrom_le {fuel : Nat} {k : Int} {n d : Nat} (hd : 0 < d)
    (h : (10 : ℚ) ^ (k - 1) ≤ (n : ℚ) / d) :
    (10 : ℚ) ^ (decimalOrderFrom fuel k n d - 1) ≤ (n : ℚ) / d := by
  induction fuel generalizing k with
  | zero => exact h
  | succ fuel ih =>
    simp only [decimalOrderFrom]
    by_cases hless : n * Nat.pow 10 (-k).toNat < d * Nat.pow 10 k.toNat
    · rwa [if_pos hless]
    · rw [if_neg hless]
      refine ih ?_
      rw [add_sub_cancel_right]
      exact not_lt.mp (mt (scaled_lt_iff (by decide) k n hd).mpr hless)

/-- A power of ten lies below a power of two by a rational bound for the logarithm of two, which
has to lie on the side that the sign of the exponent asks for. -/
theorem pow_ten_le_pow_two {b k : Int} {p q : Nat} (hp : 0 < p) (hk : p * k ≤ q * b)
    (hlog : 0 ≤ b ∧ 10 ^ q ≤ 2 ^ p ∨ b ≤ 0 ∧ 2 ^ p ≤ 10 ^ q) : (10 : ℚ) ^ k ≤ 2 ^ b := by
  have hroot : ((10 : ℚ) ^ q) ^ b ≤ ((2 : ℚ) ^ p) ^ b := by
    rcases hlog with ⟨hb, hle⟩ | ⟨hb, hle⟩
    · exact zpow_le_zpow_left₀ hb (by positivity) (by exact_mod_cast hle)
    · have hflipped := zpow_le_zpow_left₀ (neg_nonneg.mpr hb) (by positivity)
        (show (2 : ℚ) ^ p ≤ 10 ^ q by exact_mod_cast hle)
      rw [zpow_neg, zpow_neg] at hflipped
      exact (inv_le_inv₀ (by positivity) (by positivity)).mp hflipped
  have hpower : ((10 : ℚ) ^ k) ^ p ≤ (2 ^ b) ^ p :=
    calc ((10 : ℚ) ^ k) ^ p = 10 ^ (p * k) := by
          rw [← zpow_natCast, ← zpow_mul, mul_comm]
      _ ≤ 10 ^ (q * b) := zpow_le_zpow_right₀ (by norm_num) hk
      _ = ((10 : ℚ) ^ q) ^ b := by rw [zpow_mul, zpow_natCast]
      _ ≤ ((2 : ℚ) ^ p) ^ b := hroot
      _ = (2 ^ b) ^ p := by rw [← zpow_natCast, ← zpow_natCast, ← zpow_mul, ← zpow_mul, mul_comm]
  exact (pow_le_pow_iff_left₀ (by positivity) (by positivity) hp.ne').mp hpower

/-- The first guess of a decimal order is never too large. -/
theorem decimalOrder_le {n d : Nat} (hn : 0 < n) (hd : 0 < d) (hleast : -1074 ≤ binaryOrder n d)
    (hgreatest : binaryOrder n d ≤ 1023) :
    (10 : ℚ) ^ (decimalOrder n d - 1) ≤ (n : ℚ) / d := by
  refine decimalOrderFrom_le hd (le_trans ?_ (binaryOrder_bounds hn hd).1)
  by_cases hsign : 0 ≤ binaryOrder n d
  · exact pow_ten_le_pow_two (p := 10) (q := 3) (by decide) (by omega) (.inl ⟨hsign, by decide⟩)
  · exact pow_ten_le_pow_two (p := 93) (q := 28) (by decide) (by omega)
      (.inr ⟨by omega, by decide⟩)

section Parts

variable {significand : Nat} {exponent : Int}

theorem denominator_ofParts_pos : 0 < (Interval.ofParts significand exponent).denominator :=
  Nat.mul_pos (by decide) (Nat.pow_pos (by decide))

theorem quarters (n : Nat) (exponent : Int) :
    ((n * Nat.pow 2 exponent.toNat : Nat) : ℚ) / (4 * Nat.pow 2 (-exponent).toNat : Nat) =
      n / 4 * 2 ^ exponent := mul_pow_div_pow (b := 2) (by decide) exponent n 4

theorem middle_ofParts :
    (Interval.ofParts significand exponent).middle = magnitude significand exponent := by
  refine (quarters (4 * significand) exponent).trans ?_
  rw [Nat.cast_mul, Nat.cast_ofNat, mul_div_cancel_left₀ _ (by norm_num), magnitude]

theorem highEnd_ofParts : (Interval.ofParts significand exponent).highEnd =
    magnitude significand exponent + 2 ^ exponent / 2 := by
  refine (quarters (4 * significand + 2) exponent).trans ?_
  rw [magnitude]
  push_cast
  ring

theorem lowEnd_ofParts (hpos : 0 < significand) :
    (Interval.ofParts significand exponent).lowEnd = magnitude significand exponent -
      if significand = hiddenBit ∧ exponent ≠ -1074 then 2 ^ exponent / 4 else 2 ^ exponent / 2 := by
  refine (quarters (4 * significand - _) exponent).trans ?_
  rw [magnitude]
  split
  · rw [Nat.cast_sub (by omega)]
    push_cast
    ring
  · rw [Nat.cast_sub (by omega)]
    push_cast
    ring

theorem binaryOrder_ofParts (hcanonical : Canonical significand exponent) (hpos : 0 < significand) :
    -1074 ≤ binaryOrder (Interval.ofParts significand exponent).value
        (Interval.ofParts significand exponent).denominator ∧
      binaryOrder (Interval.ofParts significand exponent).value
        (Interval.ofParts significand exponent).denominator ≤ 1023 := by
  have hvalue : 0 < (Interval.ofParts significand exponent).value :=
    Nat.mul_pos (Nat.mul_pos (by decide) hpos) (Nat.pow_pos (by decide))
  obtain ⟨hlow, hhigh⟩ := binaryOrder_bounds hvalue denominator_ofParts_pos
  generalize binaryOrder _ _ = order at hlow hhigh ⊢
  rw [← Interval.middle, middle_ofParts, magnitude] at hlow hhigh
  have hone : (1 : ℚ) ≤ significand := by exact_mod_cast hpos
  have hmost : (significand : ℚ) < 2 ^ 53 := by exact_mod_cast hcanonical.lt
  have hunit : (0 : ℚ) < 2 ^ exponent := by positivity
  have hleast : (2 : ℚ) ^ exponent < 2 ^ (order + 1) :=
    lt_of_le_of_lt (le_mul_of_one_le_left hunit.le hone) hhigh
  have hgreatest : (2 : ℚ) ^ order < 2 ^ (53 + exponent) := by
    rw [zpow_add₀ two_ne_zero]
    exact hlow.trans_lt (mul_lt_mul_of_pos_right hmost hunit)
  have hfirst := (zpow_lt_zpow_iff_right₀ one_lt_two).mp hleast
  have hlast := (zpow_lt_zpow_iff_right₀ one_lt_two).mp hgreatest
  have hbounds := hcanonical.least
  have hbounds' := hcanonical.greatest
  exact ⟨by omega, by omega⟩

/-- Seventeen digits tell a double from its neighbours. -/
theorem seventeen_digits_suffice (hcanonical : Canonical significand exponent)
    (hpos : 0 < significand) {order : Int}
    (horder : (10 : ℚ) ^ (order - 1) ≤ magnitude significand exponent) :
    ((Interval.ofParts significand exponent).gridPoint (order - (17 : Nat))).isSome := by
  have hunit : (0 : ℚ) < 2 ^ exponent := by positivity
  have hmost : (significand : ℚ) < 2 ^ 53 := by exact_mod_cast hcanonical.lt
  have hspacing : (10 : ℚ) ^ (order - (17 : Nat)) * 10 ^ 16 ≤ significand * 2 ^ exponent := by
    rw [← zpow_natCast, ← zpow_add₀ (by norm_num)]
    refine le_of_eq_of_le ?_ horder
    congr 1
    omega
  refine Interval.gridPoint_isSome denominator_ofParts_pos ?_ ?_ ?_
  · rw [lowEnd_ofParts hpos, middle_ofParts]
    split
    · linarith
    · linarith
  · rw [middle_ofParts, highEnd_ofParts]
    linarith
  · rw [lowEnd_ofParts hpos, highEnd_ofParts, add_sub_sub_cancel]
    generalize (2 : ℚ) ^ exponent = unit at hunit hspacing ⊢
    generalize (10 : ℚ) ^ (order - (17 : Nat)) = spacing at hspacing ⊢
    split
    next hpower =>
      -- below a power of two the interval is narrower, but so is the number
      have hleast : (significand : ℚ) = 2 ^ 52 := by
        rw [hpower.1]
        norm_num [hiddenBit]
      rw [hleast] at hspacing
      linarith
    next =>
      have hscaled := mul_lt_mul_of_pos_right hmost hunit
      linarith

/-- The shortest decimal lies in the rounding interval. -/
theorem shortest_near (hcanonical : Canonical significand exponent) (hpos : 0 < significand) :
    |(shortest significand exponent).1 * 10 ^ (shortest significand exponent).2 -
      magnitude significand exponent| ≤ (2 : ℚ) ^ exponent / 2 := by
  have hvalue : 0 < (Interval.ofParts significand exponent).value :=
    Nat.mul_pos (Nat.mul_pos (by decide) hpos) (Nat.pow_pos (by decide))
  obtain ⟨hleast, hgreatest⟩ := binaryOrder_ofParts hcanonical hpos
  have horder := decimalOrder_le hvalue denominator_ofParts_pos hleast hgreatest
  rw [← Interval.middle, middle_ofParts] at horder
  have hfound : (Interval.ofParts significand exponent).gridPoint (shortest significand exponent).2 =
      some (shortest significand exponent).1 :=
    Interval.search_gridPoint (by decide) (by decide)
      (seventeen_digits_suffice hcanonical hpos horder)
  obtain ⟨hlow, hhigh⟩ := Interval.gridPoint_bounds denominator_ofParts_pos hfound
  rw [lowEnd_ofParts hpos] at hlow
  rw [highEnd_ofParts] at hhigh
  have hunit : (0 : ℚ) < 2 ^ exponent := by positivity
  have hside : (if significand = hiddenBit ∧ exponent ≠ -1074 then (2 : ℚ) ^ exponent / 4
      else 2 ^ exponent / 2) ≤ 2 ^ exponent / 2 := by
    split
    · linarith
    · exact le_rfl
  exact abs_le.mpr ⟨by linarith, by linarith⟩

end Parts

end Reprl.Number
