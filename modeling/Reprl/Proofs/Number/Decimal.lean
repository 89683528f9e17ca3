import Reprl.Proofs.Number.Rounding
import Reprl.Proofs.Text.Character

/-! Decimals are rounded to the nearest double. Those that are far too small or too large are
settled by the order of their first digit, so it is bounded first. -/

namespace Reprl.Number

open Reprl.Text

theorem digitsValue_dropWhile_zero (digits : List Char) :
    digitsValue 10 (digits.dropWhile (· = '0')) = digitsValue 10 digits := by
  induction digits with
  | nil => rfl
  | cons c digits ih =>
    by_cases hc : c = '0'
    · have hzero : (digitValue? '0').getD 0 = 0 := rfl
      rw [List.dropWhile_cons_of_pos (by simpa using hc), ih, digitsValue_cons, hc, hzero,
        Nat.zero_mul, Nat.zero_add]
    · rw [List.dropWhile_cons_of_neg (by simpa using hc)]

theorem digitsValue_lt_pow {digits : List Char} (h : ∀ c ∈ digits, isDecimal c) :
    digitsValue 10 digits < 10 ^ digits.length := by
  induction digits with
  | nil => decide
  | cons c digits ih =>
    have hc := h c List.mem_cons_self
    have hrest := ih fun d hd => h d (List.mem_cons_of_mem c hd)
    have hdigit := (digitChar_of_isDecimal hc).1
    have hmul := Nat.mul_le_mul_right (10 ^ digits.length) (Nat.succ_le_of_lt hdigit)
    rw [digitsValue_cons, digitValue?_of_isDecimal hc, Option.getD_some, List.length_cons,
      Nat.pow_succ']
    rw [Nat.succ_mul] at hmul
    omega

theorem pow_le_digitsValue {c : Char} {digits : List Char} (hc : isDecimal c) (hne : c ≠ '0') :
    10 ^ digits.length ≤ digitsValue 10 (c :: digits) := by
  have hpos : 1 ≤ c.toNat - '0'.toNat := by
    obtain ⟨-, hchar⟩ := digitChar_of_isDecimal hc
    refine Nat.pos_of_ne_zero fun hzero => hne ?_
    rw [← hchar, hzero]
    rfl
  rw [digitsValue_cons, digitValue?_of_isDecimal hc, Option.getD_some]
  exact (Nat.le_mul_of_pos_left _ hpos).trans (Nat.le_add_right _ _)

theorem digitsValue_bounds {digits : List Char} (h : ∀ c ∈ digits, isDecimal c)
    (hne : digits.dropWhile (· = '0') ≠ []) :
    10 ^ ((digits.dropWhile (· = '0')).length - 1) ≤ digitsValue 10 digits ∧
      digitsValue 10 digits < 10 ^ (digits.dropWhile (· = '0')).length := by
  have hsub : ∀ c ∈ digits.dropWhile (· = '0'), isDecimal c := fun c hc =>
    h c ((List.dropWhile_sublist _).subset hc)
  have hhead := List.head?_dropWhile_not (fun c => decide (c = '0')) digits
  rw [← digitsValue_dropWhile_zero]
  refine ⟨?_, digitsValue_lt_pow hsub⟩
  cases hdrop : digits.dropWhile (· = '0') with
  | nil => exact absurd hdrop hne
  | cons c rest =>
    rw [hdrop] at hsub hhead
    exact pow_le_digitsValue (hsub c List.mem_cons_self) (of_decide_eq_false hhead)

theorem pow_ten_underflow : (10 : ℚ) ^ (-330 : ℤ) ≤ 2 ^ (-1075 : ℤ) := by
  have hnat : 2 ^ 1075 ≤ 10 ^ 330 := by decide +kernel
  have hcast : (2 : ℚ) ^ 1075 ≤ 10 ^ 330 := by exact_mod_cast hnat
  rw [zpow_neg, zpow_neg, zpow_ofNat, zpow_ofNat]
  exact inv_anti₀ (by positivity) hcast

theorem pow_ten_overflow : overflowFrom ≤ 10 ^ (310 : ℤ) := by
  have hnat : 2 ^ 1024 ≤ 10 ^ 310 := by decide +kernel
  have hcast : (2 : ℚ) ^ 1024 ≤ 10 ^ 310 := by exact_mod_cast hnat
  rw [overflowFrom, zpow_ofNat]
  have hpos : (0 : ℚ) ≤ 2 ^ 970 := by positivity
  exact (sub_le_self _ hpos).trans hcast

theorem decimal_bounds {digits : List Char} (scale : Int) (h : ∀ c ∈ digits, isDecimal c)
    (hne : digits.dropWhile (· = '0') ≠ []) :
    (10 : ℚ) ^ ((digits.dropWhile (· = '0')).length + scale - 1) ≤
        digitsValue 10 digits * 10 ^ scale ∧
      (digitsValue 10 digits : ℚ) * 10 ^ scale <
        10 ^ ((digits.dropWhile (· = '0')).length + scale) := by
  obtain ⟨hlow, hhigh⟩ := digitsValue_bounds h hne
  have hpower : (0 : ℚ) < 10 ^ scale := by positivity
  have hpos := List.length_pos_of_ne_nil hne
  generalize (digits.dropWhile (· = '0')).length = count at *
  constructor
  · have hexponent : (count : ℤ) + scale - 1 = ((count - 1 : Nat) : ℤ) + scale := by omega
    rw [hexponent, zpow_add₀ (by norm_num), zpow_natCast]
    gcongr
    exact_mod_cast hlow
  · rw [zpow_add₀ (by norm_num), zpow_natCast]
    gcongr
    exact_mod_cast hhigh

/-- A decimal is rounded to the nearest double, whatever its digits and its scale. -/
theorem Decimal.value_isNearest (d : Decimal) (h : ∀ c ∈ d.digits, isDecimal c) :
    IsNearest d.negative (digitsValue 10 d.digits * 10 ^ d.scale) d.value := by
  simp only [Decimal.value]
  by_cases hempty : d.digits.dropWhile (· = '0') = []
  · have hzero : digitsValue 10 d.digits = 0 := by
      rw [← digitsValue_dropWhile_zero, hempty]
      rfl
    rw [if_pos (.inl (by rw [hempty]; rfl)), hzero, Nat.cast_zero, zero_mul]
    exact isNearest_zero d.negative le_rfl (by positivity)
  · obtain ⟨hlow, hhigh⟩ := decimal_bounds d.scale h hempty
    have hsome : (d.digits.dropWhile (· = '0')).isEmpty = false := by simpa using hempty
    simp only [hsome, Bool.false_eq_true, false_or]
    generalize hcount : ((d.digits.dropWhile (· = '0')).length : ℤ) + d.scale = order at *
    by_cases hunder : order < -330
    · rw [if_pos hunder]
      refine isNearest_zero d.negative (by positivity) (hhigh.le.trans ?_)
      have hmono : (10 : ℚ) ^ order ≤ 10 ^ (-330 : ℤ) := zpow_le_zpow_right₀ (by norm_num) hunder.le
      exact hmono.trans pow_ten_underflow
    · rw [if_neg hunder]
      by_cases hover : 310 < order
      · rw [if_pos hover]
        refine .infinite (ofFloat_withSign d.negative le_rfl) (le_trans ?_ hlow)
        have hmono : (10 : ℚ) ^ (310 : ℤ) ≤ 10 ^ (order - 1) :=
          zpow_le_zpow_right₀ (by norm_num) (by omega)
        exact pow_ten_overflow.trans hmono
      · rw [if_neg hover, digitsValue_dropWhile_zero]
        have hquotient := mul_pow_div_pow (b := 10) (by decide) d.scale (digitsValue 10 d.digits) 1
        rw [Nat.one_mul, Nat.cast_one, div_one, Nat.cast_ofNat] at hquotient
        rw [← hquotient]
        exact nearest_isNearest d.negative _ (Nat.pow_pos (by decide))

end Reprl.Number
