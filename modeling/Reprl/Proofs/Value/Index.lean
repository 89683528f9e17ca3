import Reprl.Value.Object

/-! Keys that name indices. They are the decimal texts of the numbers below the index
limit, so that an index has one key only. -/

namespace Reprl

open Reprl.Text (isDecimal digitValue? digitsValue)

theorem digitValue?_of_isDecimal {c : Char} (h : isDecimal c) :
    digitValue? c = some (c.toNat - '0'.toNat) := by
  have hc : '0' ≤ c ∧ c ≤ '9' := by
    simpa only [isDecimal, Bool.and_eq_true, decide_eq_true_eq] using h
  rw [digitValue?, if_pos hc]

theorem digitsValue_eq_ofDigitChars {cs : List Char} (h : ∀ c ∈ cs, isDecimal c) :
    digitsValue 10 cs = Nat.ofDigitChars 10 cs 0 := by
  have hfrom : ∀ n, cs.foldl (fun n c => n * 10 + (digitValue? c).getD 0) n = Nat.ofDigitChars 10 cs n := by
    induction cs with
    | nil => exact fun n => Nat.ofDigitChars_nil.symm
    | cons c cs ih =>
      intro n
      have hc := digitValue?_of_isDecimal (h c List.mem_cons_self)
      rw [List.foldl_cons, Nat.ofDigitChars_cons, hc, Option.getD_some, Nat.mul_comm]
      exact ih (fun d hd => h d (List.mem_cons_of_mem c hd)) _
  exact hfrom 0

theorem digitChar_of_isDecimal {c : Char} (h : isDecimal c) :
    c.toNat - '0'.toNat < 10 ∧ Nat.digitChar (c.toNat - '0'.toNat) = c := by
  have hc : '0'.toNat ≤ c.toNat ∧ c.toNat ≤ '9'.toNat := by
    simp only [isDecimal, Bool.and_eq_true, decide_eq_true_eq, Char.le_def,
      UInt32.le_iff_toNat_le] at h
    exact h
  have hlow : '0'.toNat = 48 := rfl
  have hhigh : '9'.toNat = 57 := rfl
  have hlt : c.toNat - '0'.toNat < 10 := by omega
  refine ⟨hlt, Char.toNat_inj.mp ?_⟩
  rw [Nat.toNat_digitChar_of_lt_ten hlt]
  omega

/-- Digits after those of a positive number are digits of the number that they go on. -/
theorem toDigits_ofDigitChars_of_pos {n : Nat} (hn : 0 < n) {cs : List Char}
    (h : ∀ c ∈ cs, isDecimal c) :
    Nat.toDigits 10 (Nat.ofDigitChars 10 cs n) = Nat.toDigits 10 n ++ cs := by
  induction cs generalizing n with
  | nil => rw [Nat.ofDigitChars_nil, List.append_nil]
  | cons c cs ih =>
    obtain ⟨hlt, hchar⟩ := digitChar_of_isDecimal (h c List.mem_cons_self)
    have hone := Nat.toDigits_append_toDigits (b := 10) (by decide) hn hlt
    rw [Nat.toDigits_of_lt_base hlt, hchar] at hone
    have hpos : 0 < 10 * n + (c.toNat - '0'.toNat) := by omega
    rw [Nat.ofDigitChars_cons, ih hpos fun d hd => h d (List.mem_cons_of_mem c hd), ← hone,
      List.append_assoc, List.singleton_append]

theorem toDigits_ofDigitChars {cs : List Char} (hne : cs ≠ []) (h : ∀ c ∈ cs, isDecimal c)
    (hz : cs.head? = some '0' → cs.length = 1) :
    Nat.toDigits 10 (Nat.ofDigitChars 10 cs 0) = cs := by
  cases cs with
  | nil => exact absurd rfl hne
  | cons c cs =>
    obtain ⟨hlt, hchar⟩ := digitChar_of_isDecimal (h c List.mem_cons_self)
    have hfirst := Nat.toDigits_of_lt_base hlt
    rw [hchar] at hfirst
    rw [Nat.ofDigitChars_cons, Nat.mul_zero, Nat.zero_add]
    by_cases hc : c = '0'
    · have hlen := hz (congrArg some hc)
      have hnil : cs = [] := List.length_eq_zero_iff.mp (Nat.succ.inj hlen)
      rw [hnil, Nat.ofDigitChars_nil, hfirst]
    · have hpos : 0 < c.toNat - '0'.toNat := by
        refine Nat.pos_of_ne_zero fun hzero => hc ?_
        rw [← hchar, hzero]
        rfl
      rw [toDigits_ofDigitChars_of_pos hpos fun d hd => h d (List.mem_cons_of_mem c hd), hfirst,
        List.singleton_append]

theorem isDecimal_of_mem_toDigits {n : Nat} {c : Char} (h : c ∈ Nat.toDigits 10 n) : isDecimal c :=
  Nat.isDigit_of_mem_toDigits (by decide) (by decide) h

theorem length_toDigits_of_head_zero {n : Nat} (h : (Nat.toDigits 10 n).head? = some '0') :
    (Nat.toDigits 10 n).length = 1 := by
  induction n using Nat.base_induction 10 (by decide) with
  | single m hm => rw [Nat.toDigits_of_lt_base hm, List.length_singleton]
  | digit m k hk hm ih =>
    -- the number before the last digit begins with the same digit, so it is zero
    rw [← Nat.toDigits_append_toDigits (by decide) hm hk, List.head?_append,
      List.head?_eq_some_head Nat.toDigits_ne_nil, Option.some_or] at h
    have hhead := (List.head?_eq_some_head Nat.toDigits_ne_nil).trans h
    have hlow : m < 10 := by
      have hone := Nat.length_toDigits_le_iff (b := 10) (n := m) (by decide) Nat.one_pos
      simpa using hone.mp (Nat.le_of_eq (ih hhead))
    rw [Nat.toDigits_of_lt_base hlow, List.head?_singleton, Option.some.injEq,
      Nat.digitChar_eq_zero] at hhead
    exact absurd hhead (Nat.ne_of_gt hm)

theorem arrayIndex?_eq_some {key : String} {index : Nat} :
    arrayIndex? key = some index ↔
      (key.toList ≠ [] ∧ ∀ c ∈ key.toList, isDecimal c) ∧
      (key.toList.head? = some '0' → key.toList.length = 1) ∧
      digitsValue 10 key.toList = index ∧ index < indexLimit := by
  simp only [arrayIndex?]
  grind

/-- A key names an index exactly if it is the decimal text of a number below the limit. -/
theorem arrayIndex?_eq_some_iff {key : String} {index : Nat} :
    arrayIndex? key = some index ↔ index < indexLimit ∧ key = Number.decimalText index := by
  rw [arrayIndex?_eq_some]
  constructor
  · rintro ⟨⟨hne, hall⟩, hz, hvalue, hlimit⟩
    refine ⟨hlimit, ?_⟩
    rw [Number.decimalText, ← hvalue, digitsValue_eq_ofDigitChars hall,
      toDigits_ofDigitChars hne hall hz, String.ofList_toList]
  · rintro ⟨hlimit, rfl⟩
    have hall : ∀ c ∈ Nat.toDigits 10 index, isDecimal c := fun c => isDecimal_of_mem_toDigits
    have hvalue : digitsValue 10 (Nat.toDigits 10 index) = index :=
      (digitsValue_eq_ofDigitChars hall).trans Nat.ofDigitChars_ten_toDigits
    rw [Number.decimalText, String.toList_ofList]
    exact ⟨⟨Nat.toDigits_ne_nil, hall⟩, length_toDigits_of_head_zero, hvalue, hlimit⟩

end Reprl
