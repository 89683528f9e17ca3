import Mathlib.Data.List.DropRight
import Mathlib.Tactic.Ring
import Reprl.Text.Character
import Reprl.Proofs.Text.Escape
import Reprl.Proofs.Value.Index

/-! What trimming leaves of a text, and positional notation with the readers of digits. -/

namespace Reprl.Text

theorem span_append {p : Char → Bool} {left rest : List Char} (hleft : ∀ c ∈ left, p c)
    (hrest : ∀ c ∈ rest.head?, ¬p c) :
    (left ++ rest).takeWhile p = left ∧ (left ++ rest).dropWhile p = rest := by
  rw [List.takeWhile_append_of_pos hleft, List.dropWhile_append_of_pos hleft]
  cases rest with
  | nil => exact ⟨List.append_nil left, rfl⟩
  | cons c rest =>
    have hc := hrest c rfl
    rw [List.takeWhile_cons_of_neg hc, List.dropWhile_cons_of_neg hc, List.append_nil]
    exact ⟨rfl, rfl⟩

/-- The text between the blanks at the ends. It neither begins nor ends with a blank itself. -/
structure Trimmed (cs text : List Char) : Prop where
  between : ∃ left right, cs = left ++ (text ++ right) ∧ (∀ c ∈ left, isBlank c) ∧
    ∀ c ∈ right, isBlank c
  first : ∀ c ∈ text.head?, ¬isBlank c
  last : ∀ c ∈ text.getLast?, ¬isBlank c

theorem trim_eq (cs : List Char) : trim cs = (cs.dropWhile isBlank).rdropWhile isBlank := rfl

theorem trimmed_trim (cs : List Char) : Trimmed cs (trim cs) := by
  rw [trim_eq]
  refine ⟨⟨cs.takeWhile isBlank, (cs.dropWhile isBlank).rtakeWhile isBlank, ?_, ?_, ?_⟩, ?_, ?_⟩
  · rw [List.rdropWhile_append_rtakeWhile, List.takeWhile_append_dropWhile]
  · exact fun c hc => List.mem_takeWhile_imp hc
  · exact fun c hc => List.mem_rtakeWhile_imp hc
  · intro c hc
    have hhead := List.head?_dropWhile_not isBlank cs
    obtain ⟨blanks, hprefix⟩ := List.rdropWhile_prefix isBlank (cs.dropWhile isBlank)
    rw [← hprefix, List.head?_append, Option.mem_def.mp hc] at hhead
    exact Bool.eq_false_iff.mp hhead
  · intro c hc
    obtain ⟨hne, rfl⟩ := List.mem_getLast?_eq_getLast hc
    exact List.rdropWhile_last_not isBlank _ hne

theorem Trimmed.eq_trim {cs text : List Char} (h : Trimmed cs text) : text = trim cs := by
  obtain ⟨left, right, rfl, hleft, hright⟩ := h.between
  rw [trim_eq]
  by_cases hne : text = []
  · subst hne
    have hall : ∀ c ∈ left ++ ([] ++ right), isBlank c := by
      rw [List.nil_append]
      exact List.forall_mem_append.mpr ⟨hleft, hright⟩
    rw [List.dropWhile_eq_nil_iff.mpr hall]
    rfl
  · have hfirst : ∀ c ∈ (text ++ right).head?, ¬isBlank c := by
      rw [List.head?_append_of_ne_nil _ hne]
      exact h.first
    have hlast : ∀ c ∈ text.reverse.head?, ¬isBlank c := by
      rw [List.head?_reverse]
      exact h.last
    have hblanks : ∀ c ∈ right.reverse, isBlank c := fun c hc => hright c (List.mem_reverse.mp hc)
    rw [(span_append hleft hfirst).2, List.rdropWhile, List.reverse_append,
      (span_append hblanks hlast).2, List.reverse_reverse]

theorem trimmed_iff {cs text : List Char} : Trimmed cs text ↔ text = trim cs := by
  constructor
  · exact Trimmed.eq_trim
  · rintro rfl
    exact trimmed_trim cs

/-- The digits of a number, the greatest place first. Letters are digits in either case. -/
inductive Digits (base : Nat) : List Char → Nat → Prop
  | nil : Digits base [] 0
  | cons {c : Char} {d n : Nat} {cs : List Char} (hd : d < base)
      (hc : c.toLower = Nat.digitChar d) (rest : Digits base cs n) :
      Digits base (c :: cs) (d * base ^ cs.length + n)

theorem digitValue?_table :
    ∀ k < 128, ∀ d < 16, digitValue? (Char.ofNat k) = some d ↔
      (Char.ofNat k).toLower = Nat.digitChar d := by decide +kernel

theorem lt_of_digitValue? {c : Char} {d : Nat} (h : digitValue? c = some d) : c.toNat < 128 := by
  simp only [digitValue?, Char.le_def, UInt32.le_iff_toNat_le] at h
  have hnine : '9'.val.toNat = 57 := rfl
  have hf : 'f'.val.toNat = 102 := rfl
  have hF : 'F'.val.toNat = 70 := rfl
  have hc : c.toNat = c.val.toNat := rfl
  grind

theorem digitChar_lt : ∀ d < 16, (Nat.digitChar d).toNat < 128 := by decide

theorem lt_of_toLower {c : Char} (h : c.toLower.toNat < 128) : c.toNat < 128 := by
  unfold Char.toLower at h
  split at h
  next hupper =>
    have hZ : 'Z'.val.toNat = 90 := rfl
    have hle : c.val.toNat ≤ 'Z'.val.toNat := hupper.2
    have hc : c.toNat = c.val.toNat := rfl
    omega
  next => exact h

theorem digitValue?_eq_some_iff {c : Char} {d : Nat} :
    digitValue? c = some d ↔ d < 16 ∧ c.toLower = Nat.digitChar d := by
  constructor
  · intro h
    have hd := digitValue?_lt h
    have htable := digitValue?_table c.toNat (lt_of_digitValue? h) d hd
    rw [Char.ofNat_toNat] at htable
    exact ⟨hd, htable.mp h⟩
  · rintro ⟨hd, hc⟩
    have hlt := digitChar_lt d hd
    rw [← hc] at hlt
    have htable := digitValue?_table c.toNat (lt_of_toLower hlt) d hd
    rw [Char.ofNat_toNat] at htable
    exact htable.mpr hc

theorem isDigitOf_iff {base : Nat} {c : Char} :
    isDigitOf base c ↔ ∃ d, digitValue? c = some d ∧ d < base := by
  cases hc : digitValue? c with
  | none => simp [isDigitOf, hc]
  | some d => simp [isDigitOf, hc]

theorem isDigitOf_ten (c : Char) : isDigitOf 10 c = isDecimal c := by
  by_cases hc : isDecimal c = true
  · obtain ⟨hlt, -⟩ := digitChar_of_isDecimal hc
    rw [isDigitOf, digitValue?_of_isDecimal hc, hc]
    exact decide_eq_true hlt
  · rw [Bool.eq_false_iff.mpr hc, isDigitOf]
    simp only [isDecimal, Bool.and_eq_true, decide_eq_true_eq] at hc
    rw [digitValue?, if_neg hc]
    split
    · simp
    · split
      · simp
      · rfl

theorem foldl_digits (base : Nat) (digits : List Char) (n : Nat) :
    digits.foldl (fun n c => n * base + (digitValue? c).getD 0) n =
      n * base ^ digits.length + digitsValue base digits := by
  induction digits generalizing n with
  | nil => simp [digitsValue]
  | cons c digits ih =>
    rw [digitsValue, List.foldl_cons, List.foldl_cons, ih, ih, List.length_cons, Nat.pow_succ']
    ring

theorem digitsValue_cons (base : Nat) (c : Char) (digits : List Char) :
    digitsValue base (c :: digits) =
      (digitValue? c).getD 0 * base ^ digits.length + digitsValue base digits := by
  rw [digitsValue, List.foldl_cons, foldl_digits, Nat.zero_mul, Nat.zero_add]

theorem digits_iff {base : Nat} (hbase : base ≤ 16) {cs : List Char} {n : Nat} :
    Digits base cs n ↔ (∀ c ∈ cs, isDigitOf base c) ∧ digitsValue base cs = n := by
  constructor
  · intro h
    induction h with
    | nil => exact ⟨nofun, rfl⟩
    | @cons c d n cs hd hc rest ih =>
      have hvalue : digitValue? c = some d := digitValue?_eq_some_iff.mpr ⟨by omega, hc⟩
      have hdigit : isDigitOf base c := isDigitOf_iff.mpr ⟨d, hvalue, hd⟩
      rw [digitsValue_cons, hvalue, ih.2]
      exact ⟨List.forall_mem_cons.mpr ⟨hdigit, ih.1⟩, rfl⟩
  · rintro ⟨hall, rfl⟩
    induction cs with
    | nil => exact .nil
    | cons c cs ih =>
      obtain ⟨hdigit, hrest⟩ := List.forall_mem_cons.mp hall
      obtain ⟨d, hvalue, hd⟩ := isDigitOf_iff.mp hdigit
      rw [digitsValue_cons, hvalue]
      exact .cons hd (digitValue?_eq_some_iff.mp hvalue).2 (ih hrest)

theorem decimals_iff {cs : List Char} {n : Nat} :
    Digits 10 cs n ↔ (∀ c ∈ cs, isDecimal c) ∧ digitsValue 10 cs = n := by
  simpa only [isDigitOf_ten] using @digits_iff 10 (by decide) cs n

theorem hexadecimals_iff {cs : List Char} {n : Nat} :
    Digits 16 cs n ↔ (∀ c ∈ cs, isHex c) ∧ digitsValue 16 cs = n := by
  simpa only [isDigitOf_sixteen] using @digits_iff 16 (by decide) cs n

end Reprl.Text
