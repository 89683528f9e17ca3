import Mathlib.Data.Rat.Defs
import Reprl.Number.Reading
import Reprl.Proofs.Text.Character

/-! Numerals and what they denote: nothing at all, infinity, hexadecimal digits after a mark, and
decimals with a fraction and an exponent. The reader of decimals reads what spells one. -/

namespace Reprl.Number

open Reprl.Text

inductive Sign where
  | none
  | plus
  | minus

namespace Sign

def text : Sign → List Char
  | none => []
  | plus => ['+']
  | minus => ['-']

def isNegative : Sign → Bool
  | minus => true
  | _ => false

def apply (sign : Sign) (n : Nat) : Int := if sign.isNegative then -(n : Int) else n

end Sign

/-- The point and the digits after it, or nothing. -/
inductive Fraction : List Char → List Char → Prop
  | none : Fraction [] []
  | point {digits : List Char} (hdigits : ∀ c ∈ digits, isDecimal c) : Fraction ('.' :: digits) digits

inductive Exponent : List Char → Int → Prop
  | none : Exponent [] 0
  | marked {mark : Char} (sign : Sign) {digits : List Char} {n : Nat}
      (hmark : mark = 'e' ∨ mark = 'E') (hne : digits ≠ []) (hdigits : Digits 10 digits n) :
      Exponent (mark :: (sign.text ++ digits)) (sign.apply n)

/-- Digits with at most one point and at least one digit, then an exponent. -/
inductive Unsigned : List Char → List Char → Int → Prop
  | mk {whole point fraction tail : List Char} {e : Int} (hwhole : ∀ c ∈ whole, isDecimal c)
      (hfraction : Fraction point fraction) (hsome : whole ≠ [] ∨ fraction ≠ [])
      (hexponent : Exponent tail e) :
      Unsigned (whole ++ (point ++ tail)) (whole ++ fraction) (e - fraction.length)

inductive Spells : List Char → Decimal → Prop
  | mk (sign : Sign) {text digits : List Char} {scale : Int} (h : Unsigned text digits scale) :
      Spells (sign.text ++ text) ⟨sign.isNegative, digits, scale⟩

/-- A sign is no part of hexadecimal numerals, but it is read after the mark. -/
inductive Hexadecimal (sign : Sign) : List Char → Nat → Prop
  | mk {mark : Char} {digits : List Char} {n : Nat} (hmark : mark = 'x' ∨ mark = 'X')
      (hne : digits ≠ []) (hdigits : Digits 16 digits n) :
      Hexadecimal sign ('0' :: mark :: (sign.text ++ digits)) n

/-- One or more digits of a base, after a sign. -/
inductive Signed (base : Nat) (sign : Sign) : List Char → Nat → Prop
  | mk {digits : List Char} {n : Nat} (hne : digits ≠ []) (hdigits : Digits base digits n) :
      Signed base sign (sign.text ++ digits) n

inductive Quantity where
  | infinite (negative : Bool)
  /-- The value is `q`, or `-q` when `negative` holds. Zero has both signs. -/
  | exact (negative : Bool) (q : ℚ)

inductive Denotes : List Char → Quantity → Prop
  | blank : Denotes [] (.exact false 0)
  | infinity (sign : Sign) : Denotes (sign.text ++ "Infinity".toList) (.infinite sign.isNegative)
  | hexadecimal {cs : List Char} {n : Nat} (h : Hexadecimal .none cs n) : Denotes cs (.exact false n)
  | decimal {cs : List Char} {d : Decimal} {n : Nat} (h : Spells cs d)
      (hdigits : Digits 10 d.digits n) : Denotes cs (.exact d.negative (n * 10 ^ d.scale))

theorem unsigned?_of_digits {base : Nat} (hbase : base ≤ 16) {sign : Sign}
    (hsign : sign.isNegative = false) {cs : List Char} {n : Nat} (h : Signed base sign cs n) :
    unsigned? base cs = some n := by
  obtain ⟨hne, hdigits⟩ := h
  obtain ⟨hall, rfl⟩ := (digits_iff hbase).mp hdigits
  have hread : ∀ digits : List Char, digits ≠ [] → (∀ c ∈ digits, isDigitOf base c) →
      (digits.isEmpty || !digits.all (isDigitOf base)) = false := by
    intro digits hne hall
    simpa [hne] using hall
  cases sign with
  | minus => cases hsign
  | plus =>
    refine if_neg (Bool.eq_false_iff.mp ?_)
    exact hread _ hne hall
  | none =>
    have hhead : List.head? (Sign.none.text ++ _) ≠ some '+' := fun hplus =>
      absurd (hall '+' (List.mem_of_mem_head? hplus)) Bool.false_ne_true
    rw [unsigned?_of_head hhead]
    refine if_neg (Bool.eq_false_iff.mp ?_)
    exact hread _ hne hall

theorem unsigned?_eq_some_iff {base : Nat} (hbase : base ≤ 16) {cs : List Char} {n : Nat} :
    unsigned? base cs = some n ↔ Signed base .none cs n ∨ Signed base .plus cs n := by
  constructor
  · intro h
    by_cases hhead : cs.head? = some '+'
    · obtain ⟨digits, rfl⟩ : ∃ digits, cs = '+' :: digits := List.head?_eq_some_iff.mp hhead
      simp only [unsigned?, Option.ite_none_left_eq_some, Option.some.injEq, Bool.or_eq_true,
        not_or, List.isEmpty_iff, Bool.not_eq_true', Bool.not_eq_false, List.all_eq_true] at h
      obtain ⟨⟨hne, hall⟩, rfl⟩ := h
      exact .inr (.mk hne ((digits_iff hbase).mpr ⟨hall, rfl⟩))
    · simp only [unsigned?_of_head hhead, Option.ite_none_left_eq_some, Option.some.injEq,
        Bool.or_eq_true, not_or, List.isEmpty_iff, Bool.not_eq_true', Bool.not_eq_false,
        List.all_eq_true] at h
      obtain ⟨⟨hne, hall⟩, rfl⟩ := h
      exact .inl (.mk hne ((digits_iff hbase).mpr ⟨hall, rfl⟩))
  · rintro (h | h)
    · exact unsigned?_of_digits hbase rfl h
    · exact unsigned?_of_digits hbase rfl h

/-- Text that a sign may stand before has no sign of its own. -/
def Unsignable (cs : List Char) : Prop := cs.head? ≠ some '+' ∧ cs.head? ≠ some '-'

theorem takeSign_text (sign : Sign) {cs : List Char} (h : Unsignable cs) :
    takeSign (sign.text ++ cs) = (sign.isNegative, cs) := by
  cases sign with
  | plus => rfl
  | minus => rfl
  | none =>
    show takeSign cs = (false, cs)
    unfold takeSign
    split
    · exact absurd rfl h.2
    · exact absurd rfl h.1
    · rfl

theorem takeSign_eq (cs : List Char) :
    ∃ sign : Sign, cs = sign.text ++ (takeSign cs).2 ∧ (takeSign cs).1 = sign.isNegative := by
  unfold takeSign
  split
  · exact ⟨.minus, rfl, rfl⟩
  · exact ⟨.plus, rfl, rfl⟩
  · exact ⟨.none, rfl, rfl⟩

theorem unsignable_of_digits {digits rest : List Char} (hne : digits ≠ [])
    (h : ∀ c ∈ digits, isDecimal c) : Unsignable (digits ++ rest) := by
  cases digits with
  | nil => exact absurd rfl hne
  | cons c digits =>
    have hc := h c List.mem_cons_self
    constructor
    · intro hplus
      cases hplus
      cases hc
    · intro hminus
      cases hminus
      cases hc

theorem exponent?_eq_some_iff {cs : List Char} {e : Int} : exponent? cs = some e ↔ Exponent cs e := by
  constructor
  · intro h
    cases cs with
    | nil =>
      cases h
      exact .none
    | cons mark rest =>
      simp only [exponent?, Option.ite_none_right_eq_some, Option.ite_none_left_eq_some,
        Option.some.injEq, Bool.or_eq_true, not_or, List.isEmpty_iff, Bool.not_eq_true',
        Bool.not_eq_false, List.all_eq_true] at h
      obtain ⟨hmark, ⟨hne, hdigits⟩, rfl⟩ := h
      obtain ⟨sign, hrest, hsign⟩ := takeSign_eq rest
      have hmarked := Exponent.marked sign hmark hne (decimals_iff.mpr ⟨hdigits, rfl⟩)
      rw [← hrest, Sign.apply, ← hsign] at hmarked
      exact hmarked
  · intro h
    cases h with
    | none => rfl
    | @marked mark sign digits n hmark hne hdigits =>
      obtain ⟨hdecimals, rfl⟩ := decimals_iff.mp hdigits
      have hunsigned : Unsignable (digits ++ []) := unsignable_of_digits hne hdecimals
      rw [List.append_nil] at hunsigned
      have hall : (digits.isEmpty || !digits.all isDecimal) = false := by
        simpa [hne] using hdecimals
      simp only [exponent?, if_pos hmark, takeSign_text sign hunsigned, hall]
      rfl

theorem Exponent.stops {tail : List Char} {e : Int} (h : Exponent tail e) :
    (∀ rest, tail ≠ '.' :: rest) ∧ ∀ c ∈ tail.head?, ¬isDecimal c := by
  cases h with
  | none => simp
  | marked sign hmark hne hdigits =>
    rcases hmark with rfl | rfl
    · simp [isDecimal]
    · simp [isDecimal]

/-- The digits after a point that the text begins with, and what follows them. -/
def takeFraction (cs : List Char) : List Char × List Char :=
  match cs with
  | '.' :: after => (after.takeWhile isDecimal, after.dropWhile isDecimal)
  | _ => ([], cs)

theorem takeFraction_eq (cs : List Char) :
    ∃ point, cs = point ++ (takeFraction cs).2 ∧ Fraction point (takeFraction cs).1 := by
  unfold takeFraction
  split
  next after =>
    refine ⟨'.' :: after.takeWhile isDecimal, ?_, .point fun c hc => ?_⟩
    · rw [List.cons_append, List.takeWhile_append_dropWhile]
    · exact List.mem_takeWhile_imp hc
  next => exact ⟨[], rfl, .none⟩

theorem takeFraction_append {point fraction tail : List Char} (h : Fraction point fraction)
    (hpoint : ∀ rest, tail ≠ '.' :: rest) (hstop : ∀ c ∈ tail.head?, ¬isDecimal c) :
    takeFraction (point ++ tail) = (fraction, tail) := by
  cases h with
  | none =>
    rw [List.nil_append]
    unfold takeFraction
    split
    next after => exact absurd rfl (hpoint after)
    next => rfl
  | point hdigits =>
    obtain ⟨htake, hdrop⟩ := span_append hdigits hstop
    show (List.takeWhile isDecimal (fraction ++ tail), List.dropWhile isDecimal (fraction ++ tail)) = _
    rw [htake, hdrop]

theorem unsignedDecimal?_eq (cs : List Char) :
    unsignedDecimal? cs =
      if (cs.takeWhile isDecimal).isEmpty && (takeFraction (cs.dropWhile isDecimal)).1.isEmpty then none
      else (exponent? (takeFraction (cs.dropWhile isDecimal)).2).map fun (e : Int) =>
        (cs.takeWhile isDecimal ++ (takeFraction (cs.dropWhile isDecimal)).1,
          e - (takeFraction (cs.dropWhile isDecimal)).1.length) := rfl

theorem unsignedDecimal?_eq_some_iff {cs digits : List Char} {scale : Int} :
    unsignedDecimal? cs = some (digits, scale) ↔ Unsigned cs digits scale := by
  rw [unsignedDecimal?_eq]
  constructor
  · intro h
    have hwhole : ∀ c ∈ cs.takeWhile isDecimal, isDecimal c := fun c => List.mem_takeWhile_imp
    obtain ⟨point, hrest, hfraction⟩ := takeFraction_eq (cs.dropWhile isDecimal)
    simp only [Option.ite_none_left_eq_some, Option.map_eq_some_iff, Prod.mk.injEq,
      Bool.and_eq_true, List.isEmpty_iff] at h
    obtain ⟨hsome, e, he, rfl, rfl⟩ := h
    have hunsigned := Unsigned.mk hwhole hfraction (not_and_or.mp hsome) (exponent?_eq_some_iff.mp he)
    rwa [← hrest, List.takeWhile_append_dropWhile] at hunsigned
  · rintro @⟨whole, point, fraction, tail, e, hwhole, hfraction, hsome, hexponent⟩
    obtain ⟨hpoint, hstop⟩ := hexponent.stops
    have hafter : ∀ c ∈ (point ++ tail).head?, ¬isDecimal c := by
      cases hfraction with
      | none => exact hstop
      | point hdigits => simp [isDecimal]
    obtain ⟨htake, hdrop⟩ := span_append hwhole hafter
    have hnone : (whole.isEmpty && fraction.isEmpty) = false := by
      simpa [Decidable.or_iff_not_imp_left] using hsome
    rw [htake, hdrop, takeFraction_append hfraction hpoint hstop]
    simp only [hnone, exponent?_eq_some_iff.mpr hexponent]
    rfl

theorem Unsigned.unsignable {cs digits : List Char} {scale : Int} (h : Unsigned cs digits scale) :
    Unsignable cs := by
  obtain @⟨whole, point, fraction, tail, e, hwhole, hfraction, hsome, hexponent⟩ := h
  by_cases hne : whole = []
  · subst hne
    cases hfraction with
    | none => exact absurd rfl (hsome.resolve_left (not_not.mpr rfl))
    | point hdigits => exact ⟨by simp, by simp⟩
  · exact unsignable_of_digits hne hwhole

theorem decimal?_eq_some_iff {cs : List Char} {d : Decimal} : decimal? cs = some d ↔ Spells cs d := by
  have hdecimal : decimal? cs = (unsignedDecimal? (takeSign cs).2).map fun parts =>
      ⟨(takeSign cs).1, parts.1, parts.2⟩ := rfl
  rw [hdecimal, Option.map_eq_some_iff]
  constructor
  · rintro ⟨⟨digits, scale⟩, hunsigned, rfl⟩
    obtain ⟨sign, htext, hsign⟩ := takeSign_eq cs
    have hspells := Spells.mk sign (unsignedDecimal?_eq_some_iff.mp hunsigned)
    rwa [← htext, ← hsign] at hspells
  · rintro ⟨sign, hunsigned⟩
    rw [takeSign_text sign hunsigned.unsignable]
    exact ⟨_, unsignedDecimal?_eq_some_iff.mpr hunsigned, rfl⟩

end Reprl.Number
