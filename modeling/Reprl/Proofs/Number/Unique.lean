import Reprl.Proofs.Number.Rounding

/-! A double is determined by its value, except for the sign of zero. So a double that is nearest
to the value of another one is that other one. -/

namespace Reprl.Number

/-- Canonical parts have as many digits as their exponent allows, so a value has only one pair. -/
theorem Canonical.unique {m m' : Nat} {e e' : Int} (h : Canonical m e) (h' : Canonical m' e')
    (hm : 0 < m) (heq : magnitude m e = magnitude m' e') : m = m' ∧ e = e' := by
  have hordered : ∀ {m m' : Nat} {e e' : Int}, Canonical m e → Canonical m' e' → e ≤ e' →
      magnitude m e = magnitude m' e' → m = m' ∧ e = e' ∨ m = 0 := by
    intro m m' e e' h h' hle heq
    obtain ⟨k, rfl⟩ := Int.le.dest hle
    have hunit : (0 : ℚ) < 2 ^ e := by positivity
    have hscaled : m = m' * 2 ^ k := by
      rw [magnitude, magnitude, zpow_add₀ two_ne_zero, zpow_natCast, mul_comm ((2 : ℚ) ^ e),
        ← mul_assoc, mul_left_inj' hunit.ne'] at heq
      exact_mod_cast heq
    cases k with
    | zero =>
      left
      simpa using hscaled
    | succ k =>
      have hleast := h.least
      have hnormal := h'.normal.resolve_right (by omega)
      have htwice : 2 * hiddenBit ≤ m := by
        rw [hscaled, Nat.pow_succ', Nat.mul_comm 2 hiddenBit]
        exact Nat.mul_le_mul hnormal (Nat.le_mul_of_pos_right 2 (Nat.pow_pos (by decide)))
      exact absurd h.lt (Nat.not_lt.mpr htwice)
  rcases le_total e e' with hle | hle
  · exact (hordered h h' hle heq).resolve_right hm.ne'
  · rcases hordered h' h hle heq.symm with ⟨rfl, rfl⟩ | hzero
    · exact ⟨rfl, rfl⟩
    · have hunit : (0 : ℚ) < 2 ^ e := by positivity
      rw [hzero, magnitude_zero, magnitude, mul_eq_zero] at heq
      have hnone := heq.resolve_right hunit.ne'
      exact absurd (by exact_mod_cast hnone) hm.ne'

/-- The bits of a double are the sign, the exponent and the fraction side by side. -/
theorem fields_join (bits : Nat) : bits = bits / signBit * signBit +
    (bits / hiddenBit % 2048 * hiddenBit + bits % hiddenBit) := by
  have hsign : signBit = 2048 * hiddenBit := rfl
  have hplaces := Nat.div_add_mod' bits hiddenBit
  have hexponent := Nat.div_add_mod (bits / hiddenBit) 2048
  have hbiased : bits / hiddenBit / 2048 = bits / signBit := by
    rw [Nat.div_div_eq_div_mul, Nat.mul_comm hiddenBit, ← hsign]
  rw [hbiased] at hexponent
  calc bits = (2048 * (bits / signBit) + bits / hiddenBit % 2048) * hiddenBit +
        bits % hiddenBit := by rw [hexponent, hplaces]
    _ = _ := by
      rw [hsign]
      ring

/-- The bits of finite parts. -/
theorem bits_of_finite {bits : Nat} (hlt : bits < 2 * signBit) {negative : Bool} {m : Nat} {e : Int}
    (h : Parts.ofBits bits = .finite negative m e) :
    bits = (if negative then signBit else 0) +
      if m < hiddenBit then m else (e + 1075).toNat * hiddenBit + (m - hiddenBit) := by
  have hhidden : 0 < hiddenBit := by decide
  have hfraction : bits % hiddenBit < hiddenBit := Nat.mod_lt _ hhidden
  have hsignBit : bits / signBit < 2 := Nat.div_lt_of_lt_mul (Nat.mul_comm 2 signBit ▸ hlt)
  have hwhole := fields_join bits
  simp only [Parts.ofBits] at h
  generalize bits / signBit = sign at *
  generalize bits / hiddenBit % 2048 = biased at *
  generalize bits % hiddenBit = fraction at *
  have hnegative : sign * signBit = if (sign % 2 == 1) = true then signBit else 0 := by
    interval_cases sign
    · rfl
    · rfl
  rw [hnegative] at hwhole
  split at h
  next =>
    split at h
    · cases h
    · cases h
  next =>
    split at h
    next hzero =>
      cases h
      rw [if_pos hfraction]
      rwa [hzero, Nat.zero_mul, Nat.zero_add] at hwhole
    next =>
      cases h
      have hplain : ((biased : Int) - 1075 + 1075).toNat = biased := by omega
      have hnormal : ¬hiddenBit + fraction < hiddenBit := by omega
      rwa [if_neg hnormal, hplain, Nat.add_sub_cancel_left]

theorem eq_of_finite {x y : Float} {negative : Bool} {m : Nat} {e : Int}
    (hx : Parts.ofFloat x = .finite negative m e) (hy : Parts.ofFloat y = .finite negative m e) :
    x = y := by
  have hbits : x.toBits.toNat = y.toBits.toNat :=
    (bits_of_finite x.toBits.toNat_lt hx).trans (bits_of_finite y.toBits.toNat_lt hy).symm
  exact Float.toBits_inj.mp (UInt64.toNat_inj.mp hbits)

theorem signedValue_eq_zero_iff {negative : Bool} {q : ℚ} : signedValue negative q = 0 ↔ q = 0 := by
  cases negative with
  | true => exact neg_eq_zero
  | false => exact Iff.rfl

theorem signedValue_inj {sign sign' : Bool} {q q' : ℚ} (hq : 0 ≤ q) (hq' : 0 ≤ q') (hne : q ≠ 0)
    (h : signedValue sign q = signedValue sign' q') : sign = sign' ∧ q = q' := by
  have hpos : 0 < q := lt_of_le_of_ne hq hne.symm
  cases sign with
  | true =>
    cases sign' with
    | true => exact ⟨rfl, neg_injective h⟩
    | false =>
      have hcross : -q = q' := h
      linarith
  | false =>
    cases sign' with
    | true =>
      have hcross : q = -q' := h
      linarith
    | false => exact ⟨rfl, h⟩

theorem eq_of_value? {x y : Float} {v : ℚ} (hx : value? x = some v) (hy : value? y = some v)
    (hv : v ≠ 0) : x = y := by
  obtain ⟨sign, m, e, hparts, rfl⟩ := value?_eq_some hx
  obtain ⟨sign', m', e', hparts', heq⟩ := value?_eq_some hy
  have hne := mt signedValue_eq_zero_iff.mpr hv
  obtain ⟨rfl, hmagnitude⟩ :=
    signedValue_inj (magnitude_nonneg m e) (magnitude_nonneg m' e') hne heq
  have hm : 0 < m := Nat.pos_of_ne_zero fun hzero => hne (by rw [hzero, magnitude_zero])
  obtain ⟨rfl, rfl⟩ := (Parts.canonical_ofFloat hparts).unique (Parts.canonical_ofFloat hparts')
    hm hmagnitude
  exact eq_of_finite hparts hparts'

theorem Canonical.magnitude_lt {m : Nat} {e : Int} (h : Canonical m e) :
    magnitude m e < overflowFrom := by
  have hmost : (m : ℚ) + 1 ≤ 2 ^ 53 := by exact_mod_cast h.lt
  rw [overflowFrom_eq]
  calc magnitude m e ≤ (2 ^ 53 - 1) * 2 ^ e := by
        rw [magnitude]
        gcongr
        linarith
    _ ≤ (2 ^ 53 - 1) * 2 ^ (971 : ℤ) := by
      gcongr
      · norm_num
      · exact h.greatest
    _ < (2 ^ 53 - 1 / 2) * 2 ^ (971 : ℤ) := by
      gcongr
      norm_num

/-- What is nearest to the value of a double has this value. -/
theorem IsNearest.value?_eq {negative : Bool} {m : Nat} {e : Int} {x y : Float}
    (h : IsNearest negative (magnitude m e) y) (hx : Parts.ofFloat x = .finite negative m e) :
    value? y = value? x := by
  have hvalue : value? x = some (signedValue negative (magnitude m e)) := by
    rw [value?, hx]
    rfl
  cases h with
  | infinite parts large =>
    exact absurd large (not_le.mpr (Parts.canonical_ofFloat hx).magnitude_lt)
  | finite parts value small closest =>
    have hclose := (closest x _ hvalue).1
    rw [sub_self, abs_zero] at hclose
    have hzero := abs_eq_zero.mp (le_antisymm hclose (abs_nonneg _))
    rw [value, hvalue, sub_eq_zero.mp hzero]

end Reprl.Number
