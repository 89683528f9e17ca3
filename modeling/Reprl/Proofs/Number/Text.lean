import Reprl.Machine.Expression
import Reprl.Machine.Call
import Reprl.Proofs.Number.Reading
import Reprl.Proofs.Number.Shortest
import Reprl.Proofs.Number.Unique
import Reprl.Proofs.Value.ArrayObject

/-! The text of a number as a key. Whole numbers below the exact limit are written with all their
digits, as indices are. What the shortest decimal is written for is no index: it has a fraction, or
its whole part lies far beyond all indices. -/

namespace Reprl.Number

open Reprl.Text

def wholeText (i : ℤ) : String :=
  if i < 0 then "-" ++ decimalText i.natAbs else decimalText i.natAbs

section Digits

theorem toList_decimalText (n : Nat) : (decimalText n).toList = Nat.toDigits 10 n :=
  String.toList_ofList

theorem digits_toDigits (n : Nat) : Digits 10 (Nat.toDigits 10 n) n := by
  have hall : ∀ c ∈ Nat.toDigits 10 n, isDecimal c := fun c => isDecimal_of_mem_toDigits
  exact decimals_iff.mpr
    ⟨hall, (digitsValue_eq_ofDigitChars hall).trans Nat.ofDigitChars_ten_toDigits⟩

theorem digitsValue_toDigits (n : Nat) : digitsValue 10 (Nat.toDigits 10 n) = n :=
  (decimals_iff.mp (digits_toDigits n)).2

theorem decimalText_inj {m n : Nat} : decimalText m = decimalText n ↔ m = n := by
  refine ⟨fun h => ?_, fun h => by rw [h]⟩
  rw [← digitsValue_toDigits m, ← digitsValue_toDigits n, ← toList_decimalText,
    ← toList_decimalText, h]

theorem ne_decimalText {s : String} {c : Char} (hmem : c ∈ s.toList) (hc : isDecimal c = false)
    (n : Nat) : s ≠ decimalText n := by
  rintro rfl
  rw [toList_decimalText] at hmem
  exact absurd (isDecimal_of_mem_toDigits hmem) (Bool.eq_false_iff.mp hc)

theorem digitsValue_append (left right : List Char) :
    digitsValue 10 (left ++ right) =
      digitsValue 10 left * 10 ^ right.length + digitsValue 10 right := by
  rw [digitsValue, List.foldl_append, foldl_digits]
  rfl

theorem digitsValue_of_zeros {digits : List Char} (h : ∀ c ∈ digits, c = '0') :
    digitsValue 10 digits = 0 := by
  have hnone : digits.dropWhile (· = '0') = [] :=
    List.dropWhile_eq_nil_iff.mpr fun c hc => decide_eq_true (h c hc)
  rw [← digitsValue_dropWhile_zero, hnone]
  rfl

theorem digitsValue_replicate (count : Nat) : digitsValue 10 (List.replicate count '0') = 0 :=
  digitsValue_of_zeros fun _ => List.eq_of_mem_replicate

theorem zeros_of_dropTrailingZeros {digits : List Char} (h : dropTrailingZeros digits = []) :
    ∀ c ∈ digits, c = '0' := by
  have hall := List.dropWhile_eq_nil_iff.mp (List.reverse_eq_nil_iff.mp h)
  exact fun c hc => of_decide_eq_true (hall c (List.mem_reverse.mpr hc))

end Digits

theorem digits_mul_pow_of_positional {digits zeros n : Nat}
    (h : positional digits (.ofNat zeros) = decimalText n) : digits * 10 ^ zeros = n := by
  have htext := congrArg String.toList h
  simp only [positional, String.toList_ofList, toList_decimalText] at htext
  rw [← digitsValue_toDigits n, ← htext, digitsValue_append, digitsValue_toDigits,
    digitsValue_replicate, List.length_replicate, Nat.add_zero]

/-- Where the point would be, all digits after it are zeros. -/
theorem digits_eq_mul_pow_of_positional {digits k n : Nat}
    (h : positional digits (.negSucc k) = decimalText n) : digits = n * 10 ^ (k + 1) := by
  have htext := congrArg String.toList h
  rw [toList_decimalText] at htext
  simp only [positional] at htext
  generalize hpadded : List.replicate (k + 1 + 1 - (Nat.toDigits 10 digits).length) '0' ++
    Nat.toDigits 10 digits = padded at htext
  have hlength : k + 1 ≤ padded.length := by
    rw [← hpadded, List.length_append, List.length_replicate]
    omega
  have hvalue : digitsValue 10 padded = digits := by
    rw [← hpadded, digitsValue_append, digitsValue_replicate, digitsValue_toDigits, Nat.zero_mul,
      Nat.zero_add]
  split at htext
  next hnone =>
    rw [String.toList_ofList] at htext
    have hzeros := digitsValue_of_zeros (zeros_of_dropTrailingZeros hnone)
    rw [← hvalue, ← List.take_append_drop (padded.length - (k + 1)) padded, digitsValue_append,
      htext, digitsValue_toDigits, hzeros, List.length_drop, Nat.sub_sub_self hlength,
      Nat.add_zero]
  next fraction hfraction =>
    -- a point is no digit
    have hpoint : '.' ∈ Nat.toDigits 10 n := by
      rw [← htext, String.toList_ofList]
      exact List.mem_append_right _ List.mem_cons_self
    exact absurd (isDecimal_of_mem_toDigits hpoint) (by decide)

/-- Positional notation without a point writes the number that it stands for. -/
theorem positional_eq_decimalText {digits n : Nat} {scale : Int}
    (h : positional digits scale = decimalText n) : (digits : ℚ) * 10 ^ scale = n := by
  cases scale with
  | ofNat zeros =>
    rw [← digits_mul_pow_of_positional h, Int.ofNat_eq_natCast, zpow_natCast]
    push_cast
    rfl
  | negSucc k =>
    rw [digits_eq_mul_pow_of_positional h, zpow_negSucc]
    push_cast
    exact mul_inv_cancel_right₀ (by positivity) _

theorem isWhole_iff {m : Nat} {e : Int} : isWhole m e = true ↔ magnitude m e = wholePart m e := by
  cases e with
  | ofNat k =>
    refine iff_of_true ?_ ((magnitude_ofNat m k).trans rfl)
    have hnone : (-Int.ofNat k).toNat = 0 := by simp
    rw [isWhole, hnone, beq_iff_eq]
    exact Nat.mod_one m
  | negSucc k =>
    have hpos : 0 < 2 ^ (k + 1) := by positivity
    have hunit : ((2 ^ (k + 1) : Nat) : ℚ) ≠ 0 := by exact_mod_cast hpos.ne'
    have hwhole : wholePart m (.negSucc k) = m / 2 ^ (k + 1) := rfl
    rw [isWhole, beq_iff_eq, magnitude_negSucc, hwhole, div_eq_add_rest m hpos, add_eq_left,
      div_eq_zero_iff, or_iff_left hunit, Nat.cast_eq_zero]
    exact Iff.rfl

theorem whole_of_magnitude {m n : Nat} {e : Int} (h : magnitude m e = n) :
    isWhole m e = true ∧ wholePart m e = n := by
  have hfloor := wholePart_eq_floor m e
  rw [h, Int.floor_natCast] at hfloor
  have hpart : wholePart m e = n := by exact_mod_cast hfloor
  exact ⟨isWhole_iff.mpr (by rw [h, hpart]), hpart⟩

theorem magnitudeText_of_whole {m n : Nat} {e : Int} (h : magnitude m e = n) (hn : n < exactLimit) :
    magnitudeText m e = decimalText n := by
  obtain ⟨hwhole, rfl⟩ := whole_of_magnitude h
  have htest : (isWhole m e && decide (wholePart m e < exactLimit)) = true := by
    rw [hwhole, decide_eq_true hn]
    rfl
  exact if_pos htest

/-- The value of a double that is a whole number. -/
theorem magnitude_of_value? {x : Float} {i : ℤ} (h : value? x = some (i : ℚ)) :
    ∃ negative m e, Parts.ofFloat x = .finite negative m e ∧ magnitude m e = i.natAbs ∧
      (i < 0 → negative = true) ∧ (0 < i → negative = false) := by
  obtain ⟨negative, m, e, hparts, hvalue⟩ := value?_eq_some h
  have hnonneg := magnitude_nonneg m e
  have habs : (i.natAbs : ℚ) = |(i : ℚ)| := by rw [Nat.cast_natAbs, Int.cast_abs]
  refine ⟨negative, m, e, hparts, ?_, ?_, ?_⟩
  · rw [habs, hvalue]
    cases negative with
    | true => exact (abs_neg (magnitude m e)).trans (abs_of_nonneg hnonneg) |>.symm
    | false => exact (abs_of_nonneg hnonneg).symm
  · intro hi
    by_contra hsign
    rw [Bool.eq_false_iff.mpr hsign] at hvalue
    have hcast : (i : ℚ) < 0 := by exact_mod_cast hi
    exact absurd (hvalue ▸ hnonneg) (not_le.mpr hcast)
  · intro hi
    by_contra hsign
    rw [Bool.eq_true_of_not_eq_false hsign] at hvalue
    have hcast : (0 : ℚ) < i := by exact_mod_cast hi
    have hneg : (i : ℚ) = -magnitude m e := hvalue
    linarith

theorem natAbs_lt_exactLimit {i : ℤ} (hi : |i| < 10 ^ 21) : i.natAbs < exactLimit := by
  have hlimit : (exactLimit : ℤ) = 10 ^ 21 := rfl
  rw [Int.abs_eq_natAbs] at hi
  omega

/-- Whole numbers below the limit are written with all their digits. -/
theorem text_of_whole {x : Float} {i : ℤ} (h : value? x = some (i : ℚ)) (hi : |i| < 10 ^ 21) :
    text x = wholeText i := by
  obtain ⟨negative, m, e, hparts, hmagnitude, hneg, hpos⟩ := magnitude_of_value? h
  have hmagnitudeText := magnitudeText_of_whole hmagnitude (natAbs_lt_exactLimit hi)
  rw [text, hparts, Parts.text, wholeText]
  by_cases hm : m = 0
  · rw [hm, magnitude_zero] at hmagnitude
    have hzero : i = 0 := Int.natAbs_eq_zero.mp (by exact_mod_cast hmagnitude.symm)
    rw [if_pos hm, hzero]
    rfl
  · have hne : i ≠ 0 := by
      rintro rfl
      have hcast : magnitude m e = 0 := by exact_mod_cast hmagnitude
      have hunit : (0 : ℚ) < 2 ^ e := by positivity
      exact hm (by exact_mod_cast (mul_eq_zero.mp hcast).resolve_right hunit.ne')
    rw [if_neg hm, hmagnitudeText]
    rcases lt_or_gt_of_ne hne with hlt | hgt
    · rw [hneg hlt, if_pos rfl, if_pos hlt]
    · rw [hpos hgt, if_neg Bool.false_ne_true, if_neg (not_lt.mpr hgt.le)]

section Reading

def Sign.ofInt (i : ℤ) : Sign := if i < 0 then .minus else .none

theorem toList_wholeText (i : ℤ) :
    (wholeText i).toList = (Sign.ofInt i).text ++ Nat.toDigits 10 i.natAbs := by
  unfold wholeText Sign.ofInt
  split
  · rw [String.toList_append, toList_decimalText]
    rfl
  · rw [toList_decimalText]
    rfl

theorem spells_wholeText (i : ℤ) :
    Spells (wholeText i).toList ⟨(Sign.ofInt i).isNegative, Nat.toDigits 10 i.natAbs, 0⟩ := by
  have hdigits : ∀ c ∈ Nat.toDigits 10 i.natAbs, isDecimal c := fun c => isDecimal_of_mem_toDigits
  have hunsigned := Unsigned.mk hdigits .none (.inl Nat.toDigits_ne_nil) .none
  rw [List.append_nil, List.append_nil] at hunsigned
  rw [toList_wholeText]
  exact .mk _ hunsigned

theorem not_isBlank_of_isDecimal {c : Char} (h : isDecimal c) : ¬isBlank c := by
  simp only [isDecimal, Bool.and_eq_true, decide_eq_true_eq, Char.le_def,
    UInt32.le_iff_toNat_le] at h
  have hzero : '0'.val.toNat = 48 := rfl
  have hnine : '9'.val.toNat = 57 := rfl
  have hc : c.toNat = c.val.toNat := rfl
  simp only [isBlank, Bool.or_eq_true, Bool.and_eq_true, decide_eq_true_eq]
  omega

theorem trim_wholeText (i : ℤ) : trim (wholeText i).toList = (wholeText i).toList := by
  have hall : ∀ c ∈ (wholeText i).toList, ¬isBlank c := by
    rw [toList_wholeText]
    intro c hc
    rcases List.mem_append.mp hc with hsign | hdigit
    · unfold Sign.ofInt at hsign
      split at hsign
      · rw [List.mem_singleton.mp hsign]
        decide
      · cases hsign
    · exact not_isBlank_of_isDecimal (isDecimal_of_mem_toDigits hdigit)
  have hends : Trimmed (wholeText i).toList (wholeText i).toList :=
    ⟨⟨[], [], by simp, nofun, nofun⟩, fun c hc => hall c (List.mem_of_mem_head? hc),
      fun c hc => hall c (List.mem_of_mem_getLast? hc)⟩
  exact (trimmed_iff.mp hends).symm

theorem ofText_wholeText (i : ℤ) :
    IsNearest (Sign.ofInt i).isNegative i.natAbs (ofText (wholeText i)) := by
  have hdecimal := decimal?_eq_some_iff.mpr (spells_wholeText i)
  rw [← trim_wholeText] at hdecimal
  have hnearest := Decimal.value_isNearest ⟨(Sign.ofInt i).isNegative, Nat.toDigits 10 i.natAbs, 0⟩
    fun c => isDecimal_of_mem_toDigits
  rw [digitsValue_toDigits, zpow_zero, mul_one] at hnearest
  rw [ofText, ofChars_decimal hdecimal]
  exact hnearest

/-- A whole number is read from its text as the double that has it as its value. -/
theorem value?_ofText_wholeText {x : Float} {i : ℤ} (h : value? x = some (i : ℚ)) :
    value? (ofText (wholeText i)) = some (i : ℚ) := by
  obtain ⟨negative, m, e, hparts, hmagnitude, hneg, hpos⟩ := magnitude_of_value? h
  have hnearest := ofText_wholeText i
  rw [← hmagnitude] at hnearest
  have hsign : i = 0 ∨ (Sign.ofInt i).isNegative = negative := by
    rcases lt_trichotomy i 0 with hlt | hzero | hgt
    · rw [hneg hlt, Sign.ofInt, if_pos hlt]
      exact .inr rfl
    · exact .inl hzero
    · rw [hpos hgt, Sign.ofInt, if_neg (not_lt.mpr hgt.le)]
      exact .inr rfl
  rcases hsign with rfl | hsign
  · decide +kernel
  · rw [hsign] at hnearest
    rw [hnearest.value?_eq hparts, h]

end Reading

/-- A fraction in units that divide one is a unit away from every whole number. -/
theorem half_unit_lt_of_fraction {m n : Nat} {e : Int} (h : isWhole m e ≠ true) :
    (2 : ℚ) ^ e / 2 < |(n : ℚ) - magnitude m e| := by
  have hunit : (0 : ℚ) < 2 ^ e := by positivity
  cases e with
  | ofNat k => exact absurd (isWhole_iff.mpr ((magnitude_ofNat m k).trans rfl)) h
  | negSucc k =>
    have hscaled : (n : ℚ) / 2 ^ (Int.negSucc k) = (n * 2 ^ (k + 1) : Nat) := by
      rw [zpow_negSucc, div_inv_eq_mul]
      push_cast
      rfl
    have hne : n * 2 ^ (k + 1) ≠ m := by
      rintro rfl
      refine h (whole_of_magnitude (n := n) ?_).1
      rw [magnitude_negSucc, Nat.cast_mul, mul_div_cancel_right₀]
      positivity
    have hapart : (1 : ℚ) ≤ |((n * 2 ^ (k + 1) : Nat) : ℚ) - m| := by
      have hdiff : ((n * 2 ^ (k + 1) : Nat) : ℤ) - m ≠ 0 := by omega
      exact_mod_cast Int.one_le_abs hdiff
    rw [magnitude, magnitude_sub, hscaled]
    calc (2 : ℚ) ^ Int.negSucc k / 2 < 1 * 2 ^ Int.negSucc k := by linarith
      _ ≤ _ := by gcongr

/-- A number that is not written exactly is near no index. -/
theorem ne_index_of_near {m n : Nat} {e : Int} (hm : 0 < m) (hn : n < indexLimit)
    (hinexact : ¬(isWhole m e = true ∧ wholePart m e < exactLimit)) :
    (2 : ℚ) ^ e / 2 < |(n : ℚ) - magnitude m e| := by
  have hunit : (0 : ℚ) < 2 ^ e := by positivity
  by_cases hwhole : isWhole m e = true
  · have hlarge : exactLimit ≤ wholePart m e := not_lt.mp (not_and.mp hinexact hwhole)
    have hsize : (10 : ℚ) ^ 21 ≤ magnitude m e := by
      rw [isWhole_iff.mp hwhole]
      exact_mod_cast hlarge
    have hsmall : (n : ℚ) < 2 ^ 64 := by exact_mod_cast hn
    have hone : (1 : ℚ) ≤ m := by exact_mod_cast hm
    have hleast : (2 : ℚ) ^ e ≤ magnitude m e := le_mul_of_one_le_left hunit.le hone
    have hgap : magnitude m e - n ≤ |(n : ℚ) - magnitude m e| := by
      rw [abs_sub_comm]
      exact le_abs_self _
    generalize (2 : ℚ) ^ e = unit at *
    linarith
  · exact half_unit_lt_of_fraction hwhole

theorem magnitudeText_eq_decimalText {m n : Nat} {e : Int} (hcanonical : Canonical m e)
    (hm : 0 < m) (hn : n < indexLimit) (h : magnitudeText m e = decimalText n) :
    magnitude m e = n := by
  by_cases hexact : isWhole m e = true ∧ wholePart m e < exactLimit
  · obtain ⟨hwhole, hlt⟩ := hexact
    have hmagnitude := isWhole_iff.mp hwhole
    rw [magnitudeText_of_whole hmagnitude hlt, decimalText_inj] at h
    rw [hmagnitude, h]
  · have htest : (isWhole m e && decide (wholePart m e < exactLimit)) = false := by
      simpa using hexact
    have hpositional : magnitudeText m e = positional (shortest m e).1 (shortest m e).2 :=
      if_neg (Bool.eq_false_iff.mp htest)
    rw [hpositional] at h
    have hnear := shortest_near hcanonical hm
    rw [positional_eq_decimalText h] at hnear
    exact absurd hnear (not_le.mpr (ne_index_of_near hm hn hexact))

/-- Parts that are written as an index stand for that index. -/
theorem Parts.value?_of_text {parts : Parts} {i : Nat}
    (hc : ∀ {negative m e}, parts = .finite negative m e → Canonical m e) (hi : i < indexLimit)
    (h : parts.text = decimalText i) : parts.value? = some (i : ℚ) := by
  cases parts with
  | nan => exact absurd h (ne_decimalText (c := 'N') (by decide) (by decide) i)
  | infinite negative =>
    refine absurd h (ne_decimalText (c := 'I') ?_ (by decide) i)
    cases negative with
    | true => decide
    | false => decide
  | finite negative m e =>
    rw [Parts.text] at h
    rw [Parts.value?]
    by_cases hm : m = 0
    · rw [if_pos hm] at h
      have htext : decimalText 0 = decimalText i := h
      have hzero : i = 0 := (decimalText_inj.mp htext).symm
      have hnone : magnitude m e = 0 := hm ▸ magnitude_zero e
      rw [hzero, signedValue_eq_zero_iff.mpr hnone]
      rfl
    · rw [if_neg hm] at h
      cases negative with
      | true =>
        rw [if_pos rfl] at h
        refine absurd h (ne_decimalText (c := '-') ?_ (by decide) i)
        rw [String.toList_append]
        exact List.mem_append_left _ List.mem_cons_self
      | false =>
        rw [if_neg Bool.false_ne_true] at h
        exact congrArg some (magnitudeText_eq_decimalText (hc rfl) (Nat.pos_of_ne_zero hm) hi h)

/-- The text of a number names an index exactly if the number is that index. -/
theorem arrayIndex?_text {x : Float} {i : Nat} :
    arrayIndex? (text x) = some i ↔ value? x = some (i : ℚ) ∧ i < indexLimit := by
  rw [arrayIndex?_eq_some_iff, and_comm, and_congr_left_iff]
  intro hi
  constructor
  · exact Parts.value?_of_text Parts.canonical_ofFloat hi
  · intro h
    have hsmall : |(i : ℤ)| < 10 ^ 21 := by
      have hlimit : indexLimit < 10 ^ 21 := by decide
      rw [Int.abs_eq_natAbs, Int.natAbs_natCast]
      exact_mod_cast hi.trans hlimit
    have htext := text_of_whole (i := i) (by exact_mod_cast h) hsmall
    rw [htext, wholeText, if_neg (by omega), Int.natAbs_natCast]

theorem mem_positional {digits : Nat} {scale : Int} {c : Char}
    (h : c ∈ (positional digits scale).toList) : isDecimal c ∨ c = '.' := by
  have hdigit : ∀ {c}, c ∈ Nat.toDigits 10 digits → isDecimal c := isDecimal_of_mem_toDigits
  have hzero : ∀ {c count}, c ∈ List.replicate count '0' → isDecimal c := by
    intro c count hc
    rw [List.eq_of_mem_replicate hc]
    decide
  cases scale with
  | ofNat zeros =>
    rw [positional, String.toList_ofList] at h
    exact .inl ((List.mem_append.mp h).elim hdigit hzero)
  | negSucc k =>
    simp only [positional] at h
    generalize hpadded : List.replicate (k + 1 + 1 - (Nat.toDigits 10 digits).length) '0' ++
      Nat.toDigits 10 digits = padded at h
    have hall : ∀ c ∈ padded, isDecimal c := by
      rw [← hpadded]
      exact fun c hc => (List.mem_append.mp hc).elim hzero hdigit
    have hfraction : ∀ c ∈ dropTrailingZeros (padded.drop (padded.length - (k + 1))), isDecimal c := by
      intro c hc
      have hmem := (List.dropWhile_sublist _).subset (List.mem_reverse.mp hc)
      exact hall c (List.mem_of_mem_drop (List.mem_reverse.mp hmem))
    split at h
    · rw [String.toList_ofList] at h
      exact .inl (hall c (List.mem_of_mem_take h))
    · rw [String.toList_ofList] at h
      rcases List.mem_append.mp h with hwhole | hrest
      · exact .inl (hall c (List.mem_of_mem_take hwhole))
      · rcases List.mem_cons.mp hrest with hpoint | hc
        · exact .inr hpoint
        · exact .inl (hfraction c hc)

theorem mem_magnitudeText {m : Nat} {e : Int} {c : Char} (h : c ∈ (magnitudeText m e).toList) :
    isDecimal c ∨ c = '.' := by
  simp only [magnitudeText] at h
  split at h
  · rw [toList_decimalText] at h
    exact .inl (isDecimal_of_mem_toDigits h)
  · exact mem_positional h

/-- A number is no name of a length. -/
theorem text_ne_length (x : Float) : text x ≠ "length" := by
  have hletter : ∀ {m e}, 'l' ∉ (magnitudeText m e).toList := by
    intro m e h
    rcases mem_magnitudeText h with hdigit | hpoint
    · cases hdigit
    · cases hpoint
  intro h
  have hmem : 'l' ∈ (text x).toList := by
    rw [h]
    decide
  rw [text] at hmem
  cases hparts : Parts.ofFloat x with
  | nan =>
    rw [hparts] at hmem
    exact absurd hmem (by decide)
  | infinite negative =>
    rw [hparts] at hmem
    refine absurd hmem ?_
    cases negative with
    | true => decide
    | false => decide
  | finite negative m e =>
    rw [hparts, Parts.text] at hmem
    split at hmem
    · exact absurd hmem (by decide)
    · split at hmem
      · rw [String.toList_append] at hmem
        rcases List.mem_append.mp hmem with hsign | hdigits
        · exact absurd hsign (by decide)
        · exact hletter hdigits
      · exact hletter hmem

/-- The text of a number as a key. Whole numbers below the exact limit are written canonically and
read back. A key is an index exactly if its number is one, whichever zero it is, so a number finds
what the text of its index finds, and all other numbers leave the elements alone. -/
theorem numbers_name_their_own_indices (x : Float) :
    (∀ i : ℤ, value? x = some (i : ℚ) → |i| < 10 ^ 21 →
      text x = wholeText i ∧ value? (ofText (text x)) = some (i : ℚ) ∧
        (i ≠ 0 → ofText (text x) = x)) ∧
    (∀ i : Nat, arrayIndex? (text x) = some i ↔ value? x = some (i : ℚ) ∧ i < 2 ^ 64) ∧
    (∀ (a : ArrayObject) (i : Nat), value? x = some (i : ℚ) → i < 2 ^ 64 →
      a.get? (text x) = a.get? (decimalText i) ∧
        ∀ value, a.set (text x) value = a.set (decimalText i) value) ∧
    (∀ a : ArrayObject, (∀ i : Nat, i < 2 ^ 64 → value? x ≠ some (i : ℚ)) →
      a.get? (text x) = a.extra.get? (text x) ∧
        ∀ value, (a.set (text x) value).elements = a.elements ∧
          (a.set (text x) value).length = a.length) ∧
    ∀ (E : Evaluator) (env : Env) (laps depth : Nat),
      E.propertyName env (.number x) = pure (text x) ∧
        (Evaluator.withDepth laps (depth + 1)).stringOf (.number x) = pure (text x) := by
  refine ⟨fun i hi hlt => ?_, fun i => arrayIndex?_text, fun a i hi hlt => ?_, fun a hnone => ?_,
    fun E env laps depth => ⟨rfl, rfl⟩⟩
  · have hread := value?_ofText_wholeText hi
    rw [text_of_whole hi hlt]
    exact ⟨rfl, hread, fun hne => eq_of_value? hread hi (by exact_mod_cast hne)⟩
  · have hindex := (arrayIndex?_eq_some_iff.mp (arrayIndex?_text.mpr ⟨hi, hlt⟩)).2
    rw [hindex]
    exact ⟨rfl, fun _ => rfl⟩
  · have hname : arrayIndex? (text x) = none := by
      refine Option.eq_none_iff_forall_ne_some.mpr fun i hi => ?_
      obtain ⟨hvalue, hlt⟩ := arrayIndex?_text.mp hi
      exact hnone i hlt hvalue
    refine ⟨?_, fun value => ?_⟩
    · rw [ArrayObject.get?_of_ne (text_ne_length x), hname]
      rfl
    · rw [ArrayObject.set_of_name hname]
      exact ⟨rfl, rfl⟩

/-- The number `2 ^ 63`, beyond the whole numbers that all are doubles. -/
def farIndex : Float := Float.ofBits 0x43E0000000000000

theorem farIndex_names_its_index :
    value? farIndex = some ((2 ^ 63 : ℤ) : ℚ) ∧ |(2 ^ 63 : ℤ)| < 10 ^ 21 ∧
    text farIndex = "9223372036854775808" ∧ ofText "9223372036854775808" = farIndex ∧
    arrayIndex? "9223372036854775808" = some (2 ^ 63) := by
  have hparts : Parts.ofFloat farIndex = .finite false 0x10000000000000 11 := by decide +kernel
  have hvalue : value? farIndex = some ((2 ^ 63 : ℤ) : ℚ) := by
    rw [value?, hparts, Parts.value?, signedValue, magnitude]
    norm_num
  have hlt : |(2 ^ 63 : ℤ)| < 10 ^ 21 := by decide
  obtain ⟨hwhole, hindex, -⟩ := numbers_name_their_own_indices farIndex
  obtain ⟨htext, -, hback⟩ := hwhole _ hvalue hlt
  have hdigits : wholeText (2 ^ 63) = "9223372036854775808" := by decide +kernel
  rw [hdigits] at htext
  have hsame := (hindex (2 ^ 63)).mpr ⟨by exact_mod_cast hvalue, by decide⟩
  rw [htext] at hback hsame
  exact ⟨hvalue, hlt, htext, hback (by decide), hsame⟩

end Reprl.Number
