import Reprl.Proofs.Number.Exact

/-! Rounding of positive fractions to the nearest double. A fraction is measured in the unit that
gives it 53 digits, or in the least unit, and rounded to a whole number of units. -/

namespace Reprl.Number

/-- Half a unit above the greatest double. Numbers from here on are rounded to infinity. -/
def overflowFrom : ℚ := 2 ^ 1024 - 2 ^ 970

/-- The double nearest to `q`, or to `-q`. Of two that are as near it has the even significand. -/
inductive IsNearest (negative : Bool) (q : ℚ) (x : Float) : Prop
  | infinite (parts : Parts.ofFloat x = .infinite negative) (large : overflowFrom ≤ q)
  | finite {significand : Nat} {exponent : Int} {v : ℚ}
      (parts : Parts.ofFloat x = .finite negative significand exponent)
      (value : value? x = some v) (small : q < overflowFrom)
      (closest : ∀ y w, value? y = some w →
        |signedValue negative q - v| ≤ |signedValue negative q - w| ∧
        (|signedValue negative q - v| = |signedValue negative q - w| →
          w = v ∨ significand % 2 = 0))

/-- The whole number nearest to `r`. Of two that are as near it is the even one. -/
structure RoundsTo (r : ℚ) (m : Nat) : Prop where
  near : |r - m| ≤ 1 / 2
  even : |r - m| = 1 / 2 → m % 2 = 0

section Division

variable (a : Nat) {b : Nat} (hb : 0 < b)
include hb

theorem div_eq_add_rest : (a : ℚ) / b = (a / b : Nat) + (a % b : Nat) / b := by
  have hne : (b : ℚ) ≠ 0 := by exact_mod_cast hb.ne'
  rw [div_eq_iff hne, add_mul, div_mul_cancel₀ _ hne]
  exact_mod_cast (Nat.div_add_mod' a b).symm

theorem rest_lt_one : ((a % b : Nat) : ℚ) / b < 1 := by
  rw [div_lt_one (by exact_mod_cast hb)]
  exact_mod_cast Nat.mod_lt a hb

theorem rest_lt_half_iff : ((a % b : Nat) : ℚ) / b < 1 / 2 ↔ 2 * (a % b) < b := by
  rw [div_lt_div_iff₀ (by exact_mod_cast hb) two_pos, one_mul, mul_comm]
  exact_mod_cast Iff.rfl

theorem rest_eq_half_iff : ((a % b : Nat) : ℚ) / b = 1 / 2 ↔ 2 * (a % b) = b := by
  rw [div_eq_div_iff (by exact_mod_cast hb.ne') two_ne_zero, one_mul, mul_comm]
  exact_mod_cast Iff.rfl

theorem divideToEven_rounds : RoundsTo ((a : ℚ) / b) (divideToEven a b) := by
  have hrest : (0 : ℚ) ≤ (a % b : Nat) / b := by positivity
  have hless := rest_lt_one a hb
  rw [div_eq_add_rest a hb]
  simp only [divideToEven]
  by_cases hdown : 2 * (a % b) < b
  · have hlt := (rest_lt_half_iff a hb).mpr hdown
    rw [if_pos hdown]
    constructor
    · rw [add_sub_cancel_left, abs_of_nonneg hrest]
      exact hlt.le
    · rw [add_sub_cancel_left, abs_of_nonneg hrest]
      exact fun h => absurd h hlt.ne
  · rw [if_neg hdown]
    have hge := not_lt.mp (mt (rest_lt_half_iff a hb).mp hdown)
    by_cases heven : 2 * (a % b) = b ∧ a / b % 2 = 0
    · rw [if_pos heven]
      constructor
      · rw [add_sub_cancel_left, abs_of_nonneg hrest, (rest_eq_half_iff a hb).mpr heven.1]
      · exact fun _ => heven.2
    · rw [if_neg heven]
      have hup : |((a / b : Nat) : ℚ) + (a % b : Nat) / b - (a / b + 1 : Nat)| =
          1 - (a % b : Nat) / b := by
        rw [abs_of_nonpos (by push_cast; linarith)]
        push_cast
        ring
      constructor
      · rw [hup]
        linarith
      · intro h
        -- a tie that goes up leaves an odd quotient
        have hodd : a / b % 2 ≠ 0 := by
          intro hzero
          refine heven ⟨(rest_eq_half_iff a hb).mp ?_, hzero⟩
          linarith
        omega

end Division

theorem RoundsTo.closest {r : ℚ} {m : Nat} (h : RoundsTo r m) (k : Nat) :
    |r - m| ≤ |r - k| ∧ (|r - m| = |r - k| → k = m ∨ m % 2 = 0) := by
  by_cases hk : k = m
  · subst hk
    exact ⟨le_rfl, fun _ => .inl rfl⟩
  · have hapart : (1 : ℚ) ≤ |(m : ℚ) - k| := by
      have hne : (m : ℤ) - k ≠ 0 := by omega
      exact_mod_cast Int.one_le_abs hne
    have htriangle : |(m : ℚ) - k| ≤ |r - m| + |r - k| := by
      have hsum := abs_sub_le (m : ℚ) r k
      rwa [abs_sub_comm (m : ℚ) r] at hsum
    have hnear := h.near
    refine ⟨by linarith, fun heq => .inr (h.even ?_)⟩
    linarith

/-- Measured in the unit `2 ^ exponent`, the number `q` rounds to `significand`. -/
structure Measured (q : ℚ) (significand : Nat) (exponent : Int) : Prop where
  least : -1074 ≤ exponent
  lt : q / 2 ^ exponent < 2 ^ 53
  normal : exponent = -1074 ∨ 2 ^ 52 ≤ q / 2 ^ exponent
  rounds : RoundsTo (q / 2 ^ exponent) significand

theorem magnitude_sub (q : ℚ) (exponent : Int) (t : ℚ) :
    |q - t * 2 ^ exponent| = |q / 2 ^ exponent - t| * 2 ^ exponent := by
  have hunit : (0 : ℚ) < 2 ^ exponent := by positivity
  rw [← abs_of_pos hunit, ← abs_mul, abs_of_pos hunit, sub_mul, div_mul_cancel₀ _ hunit.ne']

/-- No double is closer. Smaller units belong to doubles that are smaller than all this unit
measures, so only multiples of the unit compete. -/
theorem Measured.closest {q : ℚ} {significand : Nat} {exponent : Int}
    (h : Measured q significand exponent) {other : Nat} {power : Int}
    (hother : Canonical other power) :
    |q - magnitude significand exponent| ≤ |q - magnitude other power| ∧
    (|q - magnitude significand exponent| = |q - magnitude other power| →
      magnitude other power = magnitude significand exponent ∨ significand % 2 = 0) := by
  have hunit : (0 : ℚ) < 2 ^ exponent := by positivity
  have hmeasure : magnitude other power = (other * 2 ^ (power - exponent)) * 2 ^ exponent := by
    rw [magnitude, mul_assoc, ← zpow_add₀ two_ne_zero, sub_add_cancel]
  rw [hmeasure, magnitude, magnitude_sub, magnitude_sub, mul_le_mul_iff_left₀ hunit,
    mul_left_inj' hunit.ne', mul_left_inj' hunit.ne']
  by_cases hle : exponent ≤ power
  · have hwhole : (other : ℚ) * 2 ^ (power - exponent) =
        (other * 2 ^ (power - exponent).toNat : Nat) := by
      rw [Nat.cast_mul, Nat.cast_pow, Nat.cast_ofNat, ← zpow_natCast,
        Int.toNat_of_nonneg (by omega)]
    rw [hwhole, Nat.cast_inj]
    exact h.rounds.closest _
  · have hleast := hother.least
    have hnormal := h.normal.resolve_left (by omega)
    have hbelow : (other : ℚ) * 2 ^ (power - exponent) < 2 ^ 52 := by
      have hlt : (other : ℚ) < 2 ^ 53 := by exact_mod_cast hother.lt
      have hpower : (2 : ℚ) ^ (power - exponent) ≤ 2 ^ (-1 : ℤ) :=
        zpow_le_zpow_right₀ one_le_two (by omega)
      calc (other : ℚ) * 2 ^ (power - exponent) < 2 ^ 53 * 2 ^ (power - exponent) := by
            gcongr
        _ ≤ 2 ^ 53 * 2 ^ (-1 : ℤ) := by gcongr
        _ = 2 ^ 52 := by norm_num
    have hclose := (h.rounds.closest (2 ^ 52)).1
    rw [Nat.cast_pow, Nat.cast_ofNat, abs_of_nonneg (sub_nonneg.mpr hnormal)] at hclose
    have hfar : q / 2 ^ exponent - other * 2 ^ (power - exponent) ≤
        |q / 2 ^ exponent - other * 2 ^ (power - exponent)| := le_abs_self _
    exact ⟨by linarith, fun heq => by linarith⟩

theorem mul_pow_div_pow {b : Nat} (hb : 0 < b) (k : Int) (n d : Nat) :
    ((n * b ^ k.toNat : Nat) : ℚ) / (d * b ^ (-k).toNat : Nat) = n / d * b ^ k := by
  have hne : (b : ℚ) ≠ 0 := by exact_mod_cast hb.ne'
  have hpower : (b : ℚ) ^ k = b ^ k.toNat / b ^ (-k).toNat := by
    rw [← zpow_natCast, ← zpow_natCast, ← zpow_sub₀ hne]
    congr 1
    omega
  push_cast
  rw [hpower, mul_div_mul_comm]

theorem scaled_lt_iff {b : Nat} (hb : 0 < b) (k : Int) (n : Nat) {d : Nat} (hd : 0 < d) :
    n * b ^ (-k).toNat < d * b ^ k.toNat ↔ (n : ℚ) / d < (b : ℚ) ^ k := by
  have hunit : (0 : ℚ) < (b : ℚ) ^ k := zpow_pos (by exact_mod_cast hb) k
  have hscale : 0 < d * b ^ k.toNat := Nat.mul_pos hd (Nat.pow_pos hb)
  rw [← div_lt_one hunit, div_eq_mul_inv, ← zpow_neg]
  have hquotient := mul_pow_div_pow hb (-k) n d
  rw [neg_neg] at hquotient
  rw [← hquotient, div_lt_one (by exact_mod_cast hscale), Nat.cast_lt]

theorem log2_bounds {n : Nat} (hn : 0 < n) :
    (2 : ℚ) ^ (n.log2 : ℤ) ≤ n ∧ (n : ℚ) < 2 ^ ((n.log2 : ℤ) + 1) := by
  have hlow : 2 ^ n.log2 ≤ n := Nat.log2_self_le hn.ne'
  have hhigh : n < 2 ^ (n.log2 + 1) := Nat.lt_log2_self
  constructor
  · rw [zpow_natCast]
    exact_mod_cast hlow
  · have hcast : ((n.log2 : ℤ) + 1) = ((n.log2 + 1 : Nat) : ℤ) := by norm_num
    rw [hcast, zpow_natCast]
    exact_mod_cast hhigh

theorem binaryOrder_bounds {n d : Nat} (hn : 0 < n) (hd : 0 < d) :
    (2 : ℚ) ^ binaryOrder n d ≤ n / d ∧ (n : ℚ) / d < 2 ^ (binaryOrder n d + 1) := by
  obtain ⟨hnlow, hnhigh⟩ := log2_bounds hn
  obtain ⟨hdlow, hdhigh⟩ := log2_bounds hd
  have hpos : (0 : ℚ) < d := by exact_mod_cast hd
  let guess : Int := (n.log2 : Int) - (d.log2 : Int)
  have hlow : (2 : ℚ) ^ (guess - 1) ≤ n / d := by
    rw [le_div_iff₀ hpos]
    calc (2 : ℚ) ^ (guess - 1) * d ≤ 2 ^ (guess - 1) * 2 ^ ((d.log2 : ℤ) + 1) := by gcongr
      _ = 2 ^ (n.log2 : ℤ) := by
        rw [← zpow_add₀ two_ne_zero]
        congr 1
        omega
      _ ≤ n := hnlow
  have hhigh : (n : ℚ) / d < 2 ^ (guess + 1) := by
    rw [div_lt_iff₀ hpos]
    calc (n : ℚ) < 2 ^ ((n.log2 : ℤ) + 1) := hnhigh
      _ = 2 ^ (guess + 1) * 2 ^ (d.log2 : ℤ) := by
        rw [← zpow_add₀ two_ne_zero]
        congr 1
        omega
      _ ≤ 2 ^ (guess + 1) * d := by gcongr
  have htest : n * Nat.pow 2 (-guess).toNat < d * Nat.pow 2 guess.toNat ↔
      (n : ℚ) / d < 2 ^ guess := scaled_lt_iff two_pos guess n hd
  simp only [binaryOrder]
  by_cases hless : n * Nat.pow 2 (-guess).toNat < d * Nat.pow 2 guess.toNat
  · rw [if_pos hless, sub_add_cancel]
    exact ⟨hlow, htest.mp hless⟩
  · rw [if_neg hless]
    exact ⟨not_lt.mp (mt htest.mpr hless), hhigh⟩

/-- The exponent of the unit in which `nearestBits` measures a fraction. -/
def unitExponent (n d : Nat) : Int := max (binaryOrder n d - 52) (-1074)

def unitCount (n d : Nat) : Nat :=
  divideToEven (n * Nat.pow 2 (-unitExponent n d).toNat) (d * Nat.pow 2 (unitExponent n d).toNat)

theorem measured_unitCount {n d : Nat} (hn : 0 < n) (hd : 0 < d) :
    Measured ((n : ℚ) / d) (unitCount n d) (unitExponent n d) := by
  obtain ⟨hlow, hhigh⟩ := binaryOrder_bounds hn hd
  have hunit : (0 : ℚ) < 2 ^ unitExponent n d := by positivity
  have hbounds : binaryOrder n d - 52 ≤ unitExponent n d ∧ -1074 ≤ unitExponent n d ∧
      (unitExponent n d = -1074 ∨ unitExponent n d = binaryOrder n d - 52) := by
    unfold unitExponent
    omega
  refine ⟨hbounds.2.1, ?_, ?_, ?_⟩
  · rw [div_lt_iff₀ hunit]
    calc (n : ℚ) / d < 2 ^ (binaryOrder n d + 1) := hhigh
      _ ≤ 2 ^ (53 + unitExponent n d) := zpow_le_zpow_right₀ one_le_two (by omega)
      _ = 2 ^ 53 * 2 ^ unitExponent n d := zpow_add₀ two_ne_zero 53 _
  · refine hbounds.2.2.imp_right fun horder => ?_
    rw [le_div_iff₀ hunit]
    calc (2 : ℚ) ^ 52 * 2 ^ unitExponent n d = 2 ^ (52 + unitExponent n d) :=
          (zpow_add₀ two_ne_zero 52 _).symm
      _ = 2 ^ binaryOrder n d := by
        rw [horder]
        congr 1
        omega
      _ ≤ n / d := hlow
  · have hpos : 0 < d * 2 ^ (unitExponent n d).toNat := by positivity
    have hquotient := mul_pow_div_pow two_pos (-unitExponent n d) n d
    rw [neg_neg, Nat.cast_ofNat, zpow_neg, ← div_eq_mul_inv] at hquotient
    rw [← hquotient]
    exact divideToEven_rounds _ hpos

theorem Measured.normal_of_normal {q : ℚ} {significand : Nat} {exponent : Int}
    (h : Measured q significand exponent) : hiddenBit ≤ significand ∨ exponent = -1074 := by
  refine h.normal.symm.imp_left fun hnormal => ?_
  by_contra hless
  have hone : (significand : ℚ) + 1 ≤ 2 ^ 52 := by exact_mod_cast not_le.mp hless
  have hnear := (le_abs_self _).trans h.rounds.near
  linarith

theorem Measured.le {q : ℚ} {significand : Nat} {exponent : Int}
    (h : Measured q significand exponent) : significand ≤ 2 * hiddenBit := by
  by_contra hmore
  have hone : (2 : ℚ) ^ 53 + 1 ≤ significand := by exact_mod_cast not_le.mp hmore
  have hnear := (neg_le_abs _).trans h.rounds.near
  have hlt := h.lt
  linarith

theorem overflowFrom_eq : overflowFrom = (2 ^ 53 - 1 / 2) * 2 ^ (971 : ℤ) := by
  have hlast : (2 : ℚ) ^ 1024 = 2 ^ 53 * 2 ^ 971 := by rw [← pow_add]
  have hhalf : (1 / 2 : ℚ) * 2 ^ 971 = 2 ^ 970 := by
    rw [pow_succ' 2 970, ← mul_assoc, one_div, inv_mul_cancel₀ two_ne_zero, one_mul]
  rw [overflowFrom, zpow_ofNat, sub_mul, ← hlast, hhalf]

section Overflow

variable {q : ℚ} {significand : Nat} {exponent : Int}

theorem Measured.large_of_le (h : Measured q significand exponent) (hmore : 972 ≤ exponent) :
    overflowFrom ≤ q := by
  have hunit : (0 : ℚ) < 2 ^ exponent := by positivity
  have hnormal := h.normal.resolve_left (by omega)
  rw [le_div_iff₀ hunit] at hnormal
  refine le_trans ?_ hnormal
  rw [overflowFrom_eq]
  calc ((2 : ℚ) ^ 53 - 1 / 2) * 2 ^ (971 : ℤ) ≤ 2 ^ 53 * 2 ^ (971 : ℤ) := by
        gcongr
        norm_num
    _ = 2 ^ 52 * 2 ^ (972 : ℤ) := by
      rw [pow_succ, mul_assoc, ← zpow_one_add₀ two_ne_zero]
      norm_num
    _ ≤ 2 ^ 52 * 2 ^ exponent := by
      gcongr
      exact one_le_two

theorem Measured.small_of_le (h : Measured q significand exponent) (hless : exponent ≤ 970) :
    q < overflowFrom := by
  have hunit : (0 : ℚ) < 2 ^ exponent := by positivity
  have hlt := h.lt
  rw [div_lt_iff₀ hunit] at hlt
  refine hlt.trans_le ?_
  rw [overflowFrom_eq]
  calc (2 : ℚ) ^ 53 * 2 ^ exponent ≤ 2 ^ 53 * 2 ^ (970 : ℤ) := by
        gcongr
        exact one_le_two
    _ = 2 ^ 52 * 2 ^ (971 : ℤ) := by
      rw [pow_succ, mul_assoc, ← zpow_one_add₀ two_ne_zero]
      norm_num
    _ ≤ (2 ^ 53 - 1 / 2) * 2 ^ (971 : ℤ) := by
      gcongr
      norm_num

/-- In the greatest unit numbers overflow when they are rounded to one more digit. -/
theorem Measured.large_iff_carry (h : Measured q significand 971) :
    overflowFrom ≤ q ↔ significand = 2 * hiddenBit := by
  have hunit : (0 : ℚ) < 2 ^ (971 : ℤ) := by positivity
  have hnear := abs_le.mp h.rounds.near
  rw [overflowFrom_eq, ← le_div_iff₀ hunit]
  constructor
  · intro hlarge
    by_contra hne
    have hbelow : (significand : ℚ) + 1 ≤ 2 ^ 53 := by exact_mod_cast h.le.lt_of_ne hne
    have hlastOdd : (significand : ℚ) + 1 = 2 ^ 53 := by linarith
    have heven := h.rounds.even (by rw [abs_of_nonneg] <;> linarith)
    have hsucc : significand + 1 = 2 * hiddenBit := by exact_mod_cast hlastOdd
    simp only [hiddenBit] at hsucc
    omega
  · intro hcarry
    have htop : (significand : ℚ) = 2 ^ 53 := by
      rw [hcarry]
      norm_num [hiddenBit]
    linarith

theorem Measured.large_iff (h : Measured q significand exponent) :
    overflowFrom ≤ q ↔ 972 ≤ exponent ∨ exponent = 971 ∧ significand = 2 * hiddenBit := by
  by_cases hlast : exponent = 971
  · subst hlast
    simp [h.large_iff_carry]
  · by_cases hmore : 972 ≤ exponent
    · exact iff_of_true (h.large_of_le hmore) (.inl hmore)
    · exact iff_of_false (not_le.mpr (h.small_of_le (by omega))) (by omega)

end Overflow

theorem ofBits_sign (negative : Bool) {bits : Nat} (h : bits ≤ 2047 * hiddenBit) :
    Parts.ofBits (if negative then signBit + bits else bits) =
      if bits = 2047 * hiddenBit then .infinite negative
      else if bits < hiddenBit then .finite negative bits (-1074)
      else .finite negative (hiddenBit + bits % hiddenBit) ((bits / hiddenBit : Nat) - 1075) := by
  have hsign : signBit = 2048 * hiddenBit := rfl
  have hpos : 0 < hiddenBit := by decide
  have hbiased : bits / hiddenBit ≤ 2047 := Nat.div_le_of_le_mul (Nat.mul_comm 2047 _ ▸ h)
  have hlow : bits < signBit := by omega
  have hsignBit : ((if negative then signBit + bits else bits) / signBit % 2 == 1) = negative := by
    cases negative with
    | true => rw [if_pos rfl, Nat.add_div_left _ (by decide), Nat.div_eq_of_lt hlow]; rfl
    | false =>
      have hzero : bits / signBit = 0 := Nat.div_eq_of_lt hlow
      simp [hzero]
  have hexponent : (if negative then signBit + bits else bits) / hiddenBit % 2048 =
      bits / hiddenBit := by
    cases negative with
    | true =>
      rw [if_pos rfl, hsign, Nat.add_comm, Nat.add_mul_div_right _ _ hpos, Nat.add_mod_right,
        Nat.mod_eq_of_lt (by omega)]
    | false => exact Nat.mod_eq_of_lt (Nat.lt_succ_of_le hbiased)
  have hfraction : (if negative then signBit + bits else bits) % hiddenBit = bits % hiddenBit := by
    cases negative with
    | true => rw [if_pos rfl, hsign, Nat.mul_add_mod_self_right]
    | false => rfl
  simp only [Parts.ofBits]
  rw [hsignBit, hexponent, hfraction]
  by_cases hlast : bits = 2047 * hiddenBit
  · subst hlast
    simp [Nat.mul_div_cancel _ hpos]
  · have hnot : bits / hiddenBit ≠ 2047 := by
      intro heq
      have hle := Nat.mul_div_le bits hiddenBit
      rw [heq] at hle
      omega
    rw [if_neg hnot, if_neg hlast]
    by_cases hsub : bits < hiddenBit
    · rw [if_pos (Nat.div_eq_of_lt hsub), if_pos hsub, Nat.mod_eq_of_lt hsub]
    · have hne : bits / hiddenBit ≠ 0 := by
        rw [Ne, Nat.div_eq_zero_iff]
        omega
      rw [if_neg hne, if_neg hsub]

theorem ofFloat_withSign (negative : Bool) {bits : Nat} (h : bits ≤ 2047 * hiddenBit) :
    Parts.ofFloat (withSign negative bits) =
      if bits = 2047 * hiddenBit then .infinite negative
      else if bits < hiddenBit then .finite negative bits (-1074)
      else .finite negative (hiddenBit + bits % hiddenBit) ((bits / hiddenBit : Nat) - 1075) := by
  rw [← ofBits_sign negative h]
  refine ofFloat_ofBits ?_ ?_
  · have hpow : signBit + signBit = 2 ^ 64 := rfl
    have hless : 2047 * hiddenBit < signBit := by decide
    split
    · omega
    · omega
  · rw [ofBits_sign negative h]
    split
    · exact Parts.noConfusion
    · split
      · exact Parts.noConfusion
      · exact Parts.noConfusion

theorem ofFloat_withSign_normal (negative : Bool) {biased fraction : Nat} (hpos : 1 ≤ biased)
    (hbiased : biased < 2047) (hfraction : fraction < hiddenBit) :
    Parts.ofFloat (withSign negative (biased * hiddenBit + fraction)) =
      .finite negative (hiddenBit + fraction) (biased - 1075) := by
  have hlow := Nat.mul_le_mul_right hiddenBit hpos
  have hhigh := Nat.mul_le_mul_right hiddenBit (Nat.succ_le_of_lt hbiased)
  rw [Nat.succ_mul] at hhigh
  have hlt : biased * hiddenBit + fraction < 2047 * hiddenBit := by omega
  have hnot : ¬biased * hiddenBit + fraction < hiddenBit := by omega
  have hdiv : (biased * hiddenBit + fraction) / hiddenBit = biased := by
    rw [Nat.add_comm, Nat.add_mul_div_right _ _ (by decide), Nat.div_eq_of_lt hfraction,
      Nat.zero_add]
  rw [ofFloat_withSign negative hlt.le, if_neg hlt.ne, if_neg hnot, hdiv,
    Nat.mul_add_mod_self_right, Nat.mod_eq_of_lt hfraction]

theorem magnitude_double (significand : Nat) (exponent : Int) :
    magnitude (2 * significand) exponent = magnitude significand (1 + exponent) := by
  rw [magnitude, magnitude, zpow_one_add₀ two_ne_zero, Nat.cast_mul, Nat.cast_ofNat, mul_assoc,
    mul_left_comm]

theorem nearestBits_eq {n : Nat} (hn : 0 < n) (d : Nat) :
    nearestBits n d = if unitCount n d < hiddenBit then unitCount n d
      else min ((unitExponent n d + 1075).toNat * hiddenBit + (unitCount n d - hiddenBit))
        (2047 * hiddenBit) := by
  rw [nearestBits, if_neg hn.ne']
  rfl

/-- The parts of a double that is not too large are those of its units. Units that carry over to
another digit are even. -/
theorem ofFloat_nearest_of_small (negative : Bool) {n d : Nat} (hn : 0 < n) (hd : 0 < d)
    (h : (n : ℚ) / d < overflowFrom) :
    ∃ significand exponent,
      Parts.ofFloat (nearest negative n d) = .finite negative significand exponent ∧
      magnitude significand exponent = magnitude (unitCount n d) (unitExponent n d) ∧
      (unitCount n d % 2 = 0 → significand % 2 = 0) := by
  have hmeasured := measured_unitCount hn hd
  have hnormal := hmeasured.normal_of_normal
  have hle := hmeasured.le
  have hleast := hmeasured.least
  have hsmall := mt hmeasured.large_iff.mpr (not_le.mpr h)
  rw [nearest, nearestBits_eq hn]
  by_cases hsub : unitCount n d < hiddenBit
  · have hexponent := hnormal.resolve_left (by omega)
    have hbits : unitCount n d < 2047 * hiddenBit := by omega
    refine ⟨unitCount n d, -1074, ?_, by rw [hexponent], id⟩
    rw [if_pos hsub, ofFloat_withSign negative hbits.le, if_neg hbits.ne, if_pos hsub]
  · obtain ⟨biased, hbiased⟩ := Int.eq_ofNat_of_zero_le (a := unitExponent n d + 1075) (by omega)
    rw [if_neg hsub, hbiased, Int.toNat_natCast]
    by_cases hcarry : unitCount n d = 2 * hiddenBit
    · have hbits : biased * hiddenBit + (unitCount n d - hiddenBit) =
          (biased + 1) * hiddenBit + 0 := by
        rw [hcarry, Nat.two_mul, Nat.add_sub_cancel, Nat.succ_mul, Nat.add_zero]
      have hbelow : (biased + 1) * hiddenBit + 0 ≤ 2047 * hiddenBit := by
        rw [Nat.add_zero]
        exact Nat.mul_le_mul_right hiddenBit (by omega)
      refine ⟨hiddenBit, (biased : ℤ) - 1074, ?_, ?_, fun _ => by decide⟩
      · rw [hbits, min_eq_left hbelow,
          ofFloat_withSign_normal negative (by omega) (by omega) (by decide)]
        have hexponent : ((biased + 1 : Nat) : ℤ) - 1075 = (biased : ℤ) - 1074 := by omega
        rw [hexponent]
        exact congrArg (Parts.finite negative · _) (Nat.add_zero hiddenBit)
      · have hexponent : (biased : ℤ) - 1074 = 1 + unitExponent n d := by omega
        rw [hcarry, hexponent]
        exact (magnitude_double hiddenBit (unitExponent n d)).symm
    · obtain ⟨fraction, hcount⟩ := Nat.exists_eq_add_of_le (not_lt.mp hsub)
      have hfraction : fraction < hiddenBit := by omega
      have hbelow : biased * hiddenBit + fraction ≤ 2047 * hiddenBit := by
        have hle := Nat.mul_le_mul_right hiddenBit (show biased + 1 ≤ 2047 by omega)
        rw [Nat.succ_mul] at hle
        omega
      refine ⟨hiddenBit + fraction, (biased : ℤ) - 1075, ?_, ?_, ?_⟩
      · rw [hcount, Nat.add_sub_cancel_left, min_eq_left hbelow,
          ofFloat_withSign_normal negative (by omega) (by omega) hfraction]
      · rw [hcount, show unitExponent n d = biased - 1075 by omega]
      · rw [hcount]
        exact id

theorem ofFloat_nearest_of_large (negative : Bool) {n d : Nat} (hn : 0 < n) (hd : 0 < d)
    (h : overflowFrom ≤ (n : ℚ) / d) :
    Parts.ofFloat (nearest negative n d) = .infinite negative := by
  have hmeasured := measured_unitCount hn hd
  have hlarge := hmeasured.large_iff.mp h
  have hnot : ¬unitCount n d < hiddenBit := by
    have hnormal := hmeasured.normal_of_normal.resolve_right (by omega)
    omega
  have hmin : 2047 * hiddenBit ≤
      (unitExponent n d + 1075).toNat * hiddenBit + (unitCount n d - hiddenBit) := by
    by_cases hmore : 972 ≤ unitExponent n d
    · have hle := Nat.mul_le_mul_right hiddenBit
        (show 2047 ≤ (unitExponent n d + 1075).toNat by omega)
      omega
    · obtain ⟨hlast, hcarry⟩ := hlarge.resolve_left hmore
      rw [hlast, hcarry]
      decide
  rw [nearest, nearestBits_eq hn, if_neg hnot, min_eq_right hmin,
    ofFloat_withSign negative le_rfl, if_pos rfl]

theorem signedValue_sub (negative : Bool) (q v : ℚ) :
    |signedValue negative q - signedValue negative v| = |q - v| := by
  cases negative with
  | true => rw [signedValue, signedValue, if_pos rfl, if_pos rfl, neg_sub_neg, abs_sub_comm]
  | false => rfl

theorem signedValue_sub_not (negative : Bool) {q v : ℚ} (hq : 0 ≤ q) (hv : 0 ≤ v) :
    |signedValue negative q - signedValue (!negative) v| = q + v := by
  cases negative with
  | true =>
    show |-q - v| = q + v
    rw [abs_of_nonpos (by linarith)]
    ring
  | false =>
    show |q - -v| = q + v
    rw [abs_of_nonneg (by linarith), sub_neg_eq_add]

theorem magnitude_zero (exponent : Int) : magnitude 0 exponent = 0 := by
  rw [magnitude, Nat.cast_zero, zero_mul]

theorem value?_eq_some {x : Float} {v : ℚ} (h : value? x = some v) :
    ∃ negative significand exponent, Parts.ofFloat x = .finite negative significand exponent ∧
      v = signedValue negative (magnitude significand exponent) := by
  rw [value?] at h
  cases hparts : Parts.ofFloat x with
  | nan =>
    rw [hparts] at h
    cases h
  | infinite negative =>
    rw [hparts] at h
    cases h
  | finite negative significand exponent =>
    rw [hparts] at h
    exact ⟨negative, significand, exponent, rfl, (Option.some.inj h).symm⟩

/-- A double that is nearest among the doubles of its sign is nearest among all. -/
theorem isNearest_of_magnitudes {negative : Bool} {q : ℚ} {x : Float} {significand : Nat}
    {exponent : Int} (hq : 0 ≤ q)
    (hparts : Parts.ofFloat x = .finite negative significand exponent) (hsmall : q < overflowFrom)
    (h : ∀ other power, Canonical other power →
      |q - magnitude significand exponent| ≤ |q - magnitude other power| ∧
      (|q - magnitude significand exponent| = |q - magnitude other power| →
        magnitude other power = magnitude significand exponent ∨ significand % 2 = 0)) :
    IsNearest negative q x := by
  have hvalue : value? x = some (signedValue negative (magnitude significand exponent)) := by
    rw [value?, hparts]
    rfl
  refine .finite hparts hvalue hsmall fun y w hw => ?_
  obtain ⟨sign, other, power, hy, rfl⟩ := value?_eq_some hw
  obtain ⟨hle, htie⟩ := h other power (Parts.canonical_ofFloat hy)
  rw [signedValue_sub]
  by_cases hsign : sign = negative
  · subst hsign
    rw [signedValue_sub]
    exact ⟨hle, fun heq => (htie heq).imp_left fun hsame => by rw [hsame]⟩
  · have hnonneg := magnitude_nonneg other power
    rw [Bool.eq_not_of_ne hsign, signedValue_sub_not negative hq hnonneg]
    -- across zero only zero itself can be as near
    obtain ⟨hzero, htieZero⟩ := h 0 (-1074) ⟨by decide, .inr rfl, le_rfl, by decide⟩
    rw [magnitude_zero, sub_zero, abs_of_nonneg hq] at hzero htieZero
    refine ⟨by linarith, fun heq => ?_⟩
    have hother : magnitude other power = 0 := by linarith
    refine (htieZero (by linarith)).imp_left fun hsame => ?_
    rw [← hsame, hother]
    cases negative with
    | true => exact neg_zero.symm
    | false => exact neg_zero

theorem isNearest_zero (negative : Bool) {q : ℚ} (hq : 0 ≤ q) (h : q ≤ 2 ^ (-1075 : ℤ)) :
    IsNearest negative q (withSign negative 0) := by
  have hparts : Parts.ofFloat (withSign negative 0) = .finite negative 0 (-1074) :=
    ofFloat_withSign negative (by decide)
  have hsmall : q < overflowFrom := by
    refine h.trans_lt ?_
    rw [overflowFrom_eq]
    calc (2 : ℚ) ^ (-1075 : ℤ) < 2 ^ (971 : ℤ) := zpow_lt_zpow_right₀ one_lt_two (by decide)
      _ ≤ (2 ^ 53 - 1 / 2) * 2 ^ (971 : ℤ) := le_mul_of_one_le_left (by positivity) (by norm_num)
  refine isNearest_of_magnitudes hq hparts hsmall fun other power hother => ?_
  rw [magnitude_zero, sub_zero, abs_of_nonneg hq]
  refine ⟨?_, fun _ => .inr rfl⟩
  by_cases hnone : other = 0
  · rw [hnone, magnitude_zero, sub_zero]
    exact le_abs_self q
  · have hunit : (2 : ℚ) ^ (-1074 : ℤ) = 2 * 2 ^ (-1075 : ℤ) := zpow_one_add₀ two_ne_zero (-1075)
    have hone : (1 : ℚ) ≤ other := by exact_mod_cast Nat.one_le_iff_ne_zero.mpr hnone
    have hleast : (2 : ℚ) ^ (-1074 : ℤ) ≤ magnitude other power :=
      calc (2 : ℚ) ^ (-1074 : ℤ) ≤ 2 ^ power := zpow_le_zpow_right₀ one_le_two hother.least
        _ ≤ other * 2 ^ power := le_mul_of_one_le_left (by positivity) hone
    rw [abs_sub_comm]
    exact (by linarith : q ≤ magnitude other power - q).trans (le_abs_self _)

theorem nearest_isNearest (negative : Bool) (n : Nat) {d : Nat} (hd : 0 < d) :
    IsNearest negative ((n : ℚ) / d) (nearest negative n d) := by
  have hnonneg : (0 : ℚ) ≤ n / d := by positivity
  by_cases hn : n = 0
  · subst hn
    rw [Nat.cast_zero, zero_div]
    exact isNearest_zero negative le_rfl (by positivity)
  · have hpos := Nat.pos_of_ne_zero hn
    by_cases hlarge : overflowFrom ≤ (n : ℚ) / d
    · exact .infinite (ofFloat_nearest_of_large negative hpos hd hlarge) hlarge
    · have hsmall := not_le.mp hlarge
      obtain ⟨significand, exponent, hparts, hmagnitude, heven⟩ :=
        ofFloat_nearest_of_small negative hpos hd hsmall
      refine isNearest_of_magnitudes hnonneg hparts hsmall fun other power hother => ?_
      rw [hmagnitude]
      obtain ⟨hle, htie⟩ := (measured_unitCount hpos hd).closest hother
      exact ⟨hle, fun heq => (htie heq).imp_right heven⟩

end Reprl.Number
