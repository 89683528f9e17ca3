import Reprl.Proofs.Number.Decimal
import Reprl.Proofs.Number.Numeral

/-! Text read as a number is rounded from what it denotes. -/

namespace Reprl.Number

open Reprl.Text

theorem isNaN_notANumber : notANumber.isNaN = true := by decide +kernel

theorem IsNearest.not_nan {negative : Bool} {q : ℚ} {x : Float} (h : IsNearest negative q x) :
    x.isNaN = false := by
  rw [Bool.eq_false_iff, Ne, isNaN_iff]
  intro hnan
  cases h with
  | infinite hparts =>
    rw [hnan] at hparts
    cases hparts
  | finite hparts =>
    rw [hnan] at hparts
    cases hparts

theorem ofChars_cases (cs : List Char) :
    (trim cs = [] ∧ ofChars cs = 0.0) ∨
    (∃ mark rest, (mark = 'x' ∨ mark = 'X') ∧ trim cs = '0' :: mark :: rest ∧
      ofChars cs = hexadecimal rest) ∨
    (∃ sign : Sign, trim cs = sign.text ++ "Infinity".toList ∧
      ofChars cs = infinity sign.isNegative) ∨
    ofChars cs = ((decimal? (trim cs)).map Decimal.value).getD notANumber := by
  unfold ofChars
  split
  next hblank => exact .inl ⟨hblank, rfl⟩
  next rest hmarked => exact .inr (.inl ⟨'x', rest, .inl rfl, hmarked, rfl⟩)
  next rest hmarked => exact .inr (.inl ⟨'X', rest, .inr rfl, hmarked, rfl⟩)
  next =>
    refine .inr (.inr ?_)
    by_cases hpositive : trim cs = "Infinity".toList ∨ trim cs = "+Infinity".toList
    · rw [if_pos hpositive]
      rcases hpositive with htrim | htrim
      · exact .inl ⟨.none, htrim, rfl⟩
      · exact .inl ⟨.plus, htrim.trans rfl, rfl⟩
    · rw [if_neg hpositive]
      by_cases hnegative : trim cs = "-Infinity".toList
      · rw [if_pos hnegative]
        exact .inl ⟨.minus, hnegative.trans rfl, rfl⟩
      · rw [if_neg hnegative]
        right
        cases decimal? (trim cs) with
        | none => rfl
        | some d => rfl

theorem ofChars_infinity {cs : List Char} {sign : Sign}
    (h : trim cs = sign.text ++ "Infinity".toList) : ofChars cs = infinity sign.isNegative := by
  rw [ofChars, h]
  cases sign with
  | none => rfl
  | plus => rfl
  | minus => rfl

theorem ofChars_marked {cs rest : List Char} {mark : Char} (hmark : mark = 'x' ∨ mark = 'X')
    (h : trim cs = '0' :: mark :: rest) : ofChars cs = hexadecimal rest := by
  rw [ofChars, h]
  rcases hmark with rfl | rfl
  · rfl
  · rfl

theorem decimal?_of_marked {mark : Char} {rest : List Char} (hmark : mark = 'x' ∨ mark = 'X') :
    decimal? ('0' :: mark :: rest) = none := by
  rcases hmark with rfl | rfl
  · rfl
  · rfl

theorem decimal?_of_infinity (sign : Sign) : decimal? (sign.text ++ "Infinity".toList) = none := by
  cases sign with
  | none => rfl
  | plus => rfl
  | minus => rfl

theorem ofChars_decimal {cs : List Char} {d : Decimal} (h : decimal? (trim cs) = some d) :
    ofChars cs = d.value := by
  rcases ofChars_cases cs with
    ⟨hblank, -⟩ | ⟨mark, rest, hmark, hmarked, -⟩ | ⟨sign, hinfinity, -⟩ | hdecimal
  · rw [hblank] at h
    cases h
  · rw [hmarked, decimal?_of_marked hmark] at h
    cases h
  · rw [hinfinity, decimal?_of_infinity] at h
    cases h
  · rw [hdecimal, h]
    rfl

theorem hexadecimal_iff_signed {sign : Sign} {mark : Char} {rest : List Char} {n : Nat}
    (hmark : mark = 'x' ∨ mark = 'X') :
    Hexadecimal sign ('0' :: mark :: rest) n ↔ Signed 16 sign rest n := by
  constructor
  · rintro ⟨-, hne, hdigits⟩
    exact .mk hne hdigits
  · rintro ⟨hne, hdigits⟩
    exact .mk hmark hne hdigits

theorem unsigned?_sixteen_iff {mark : Char} {rest : List Char} {n : Nat}
    (hmark : mark = 'x' ∨ mark = 'X') :
    unsigned? 16 rest = some n ↔
      Hexadecimal .none ('0' :: mark :: rest) n ∨ Hexadecimal .plus ('0' :: mark :: rest) n := by
  rw [unsigned?_eq_some_iff (by decide), hexadecimal_iff_signed hmark, hexadecimal_iff_signed hmark]

theorem hexadecimal_isNearest {rest : List Char} {n : Nat} (h : unsigned? 16 rest = some n)
    (hn : n < 2 ^ 64) : IsNearest false n (hexadecimal rest) := by
  have hnearest := nearest_isNearest false n Nat.one_pos
  rw [Nat.cast_one, div_one] at hnearest
  rw [hexadecimal, h]
  show IsNearest false n (if n < 2 ^ 64 then nearest false n 1 else notANumber)
  rwa [if_pos hn]

theorem unsigned?_of_not_nan {rest : List Char} (h : (hexadecimal rest).isNaN = false) :
    ∃ n, unsigned? 16 rest = some n ∧ n < 2 ^ 64 := by
  rw [hexadecimal] at h
  split at h
  next n hn =>
    refine ⟨n, hn, ?_⟩
    by_contra hwide
    have hnot : ¬n < 0x10000000000000000 := hwide
    rw [if_neg hnot, isNaN_notANumber] at h
    cases h
  next =>
    rw [isNaN_notANumber] at h
    cases h

/-- The double is the value itself, or the one nearest to it. -/
def Quantity.Gives : Quantity → Float → Prop
  | infinite negative, x => Parts.ofFloat x = .infinite negative
  | exact negative q, x => IsNearest negative q x

def Narrow (cs : List Char) : Prop := ∀ n, Hexadecimal .none cs n → n < 2 ^ 64

theorem Spells.decimals {cs : List Char} {d : Decimal} (h : Spells cs d) :
    ∀ c ∈ d.digits, isDecimal c := by
  obtain ⟨sign, ⟨hwhole, hfraction, hsome, hexponent⟩⟩ := h
  intro c hc
  rcases List.mem_append.mp hc with hc | hc
  · exact hwhole c hc
  · cases hfraction with
    | none => cases hc
    | point hdigits => exact hdigits c hc

theorem zero_isNearest : IsNearest false 0 0.0 := by
  have hzero : (0.0 : Float) = withSign false 0 := by decide +kernel
  rw [hzero]
  exact isNearest_zero false le_rfl (by positivity)

/-- Text is read as what it denotes, if hexadecimal numerals are narrow. -/
theorem Denotes.gives {cs : List Char} {v : Quantity} (h : Denotes (trim cs) v)
    (hnarrow : Narrow (trim cs)) : v.Gives (ofChars cs) := by
  generalize htrim : trim cs = text at h
  cases h with
  | blank =>
    rw [ofChars, htrim]
    exact zero_isNearest
  | infinity sign =>
    rw [ofChars_infinity htrim]
    exact ofFloat_withSign sign.isNegative le_rfl
  | hexadecimal h =>
    rw [htrim] at hnarrow
    have hlt := hnarrow _ h
    cases h with
    | mk hmark hne hdigits =>
      rw [ofChars_marked hmark htrim]
      exact hexadecimal_isNearest (unsigned?_of_digits (by decide) rfl (.mk hne hdigits)) hlt
  | @decimal _ d n h hdigits =>
    obtain ⟨hdecimals, rfl⟩ := decimals_iff.mp hdigits
    rw [ofChars_decimal (decimal?_eq_some_iff.mpr (htrim ▸ h))]
    exact d.value_isNearest hdecimals

theorem Hexadecimal.isNearest {cs : List Char} {n : Nat} (h : Hexadecimal .plus (trim cs) n)
    (hn : n < 2 ^ 64) : IsNearest false n (ofChars cs) := by
  generalize htrim : trim cs = text at h
  cases h with
  | mk hmark hne hdigits =>
    rw [ofChars_marked hmark htrim]
    exact hexadecimal_isNearest (unsigned?_of_digits (by decide) rfl (.mk hne hdigits)) hn

theorem narrow_of_decimal {cs : List Char} {d : Decimal} (h : decimal? cs = some d) : Narrow cs := by
  rintro n ⟨hmark, -, -⟩
  rw [decimal?_of_marked hmark] at h
  cases h

theorem narrow_of_infinity (sign : Sign) : Narrow (sign.text ++ "Infinity".toList) := by
  intro n h
  generalize htext : sign.text ++ "Infinity".toList = text at h
  cases h
  cases sign with
  | none => cases htext
  | plus => cases htext
  | minus => cases htext

theorem denotes_of_not_nan {cs : List Char} (h : (ofChars cs).isNaN = false) :
    (∃ v, Denotes (trim cs) v ∧ Narrow (trim cs)) ∨
      ∃ n, Hexadecimal .plus (trim cs) n ∧ n < 2 ^ 64 := by
  rcases ofChars_cases cs with
    ⟨hblank, -⟩ | ⟨mark, rest, hmark, hmarked, hread⟩ | ⟨sign, hinfinity, -⟩ | hdecimal
  · rw [hblank]
    exact .inl ⟨_, .blank, nofun⟩
  · rw [hread] at h
    obtain ⟨n, hn, hlt⟩ := unsigned?_of_not_nan h
    rw [hmarked]
    rcases (unsigned?_sixteen_iff hmark).mp hn with hhex | hhex
    · refine .inl ⟨_, .hexadecimal hhex, fun other hother => ?_⟩
      rw [(unsigned?_sixteen_iff hmark).mpr (.inl hother)] at hn
      rwa [Option.some.inj hn]
    · exact .inr ⟨n, hhex, hlt⟩
  · rw [hinfinity]
    exact .inl ⟨_, .infinity sign, narrow_of_infinity sign⟩
  · cases hd : decimal? (trim cs) with
    | none =>
      rw [hdecimal, hd] at h
      exact absurd isNaN_notANumber (Bool.eq_false_iff.mp h)
    | some d =>
      have hspells := decimal?_eq_some_iff.mp hd
      have hdigits := decimals_iff.mpr ⟨hspells.decimals, rfl⟩
      exact .inl ⟨_, .decimal hspells hdigits, narrow_of_decimal hd⟩

theorem Quantity.Gives.not_nan {v : Quantity} {x : Float} (h : v.Gives x) : x.isNaN = false := by
  cases v with
  | infinite negative =>
    rw [Bool.eq_false_iff, Ne, isNaN_iff]
    intro hnan
    cases hnan.symm.trans h
  | exact negative q => exact IsNearest.not_nan h

/-- Text is read as what it denotes, and all other text as no number, except that hexadecimal
numerals have at most 64 bits and may have a plus sign after their mark. -/
theorem text_reads_as_denoted (s : String) :
    ∃ text, (∀ other, Trimmed s.toList other ↔ other = text) ∧
      (∀ v, Denotes text v → Narrow text → v.Gives (ofText s)) ∧
      (∀ n, Hexadecimal .plus text n → n < 2 ^ 64 → IsNearest false n (ofText s)) ∧
      ((ofText s).isNaN = false ↔
        (∃ v, Denotes text v ∧ Narrow text) ∨ ∃ n, Hexadecimal .plus text n ∧ n < 2 ^ 64) := by
  have hnarrow : ∀ v, Denotes (trim s.toList) v → Narrow (trim s.toList) → v.Gives (ofText s) :=
    fun v h => h.gives
  have hplus : ∀ n, Hexadecimal .plus (trim s.toList) n → n < 2 ^ 64 →
      IsNearest false n (ofText s) := fun n h => h.isNearest
  refine ⟨trim s.toList, fun other => trimmed_iff, hnarrow, hplus, denotes_of_not_nan, ?_⟩
  rintro (⟨v, hv, hn⟩ | ⟨n, hn, hlt⟩)
  · exact (hnarrow v hv hn).not_nan
  · exact (hplus n hn hlt).not_nan

theorem minusFifteen_is_read :
    Trimmed " -1.5e1\n".toList "-1.5e1".toList ∧ Denotes "-1.5e1".toList (.exact true 15) ∧
    Narrow "-1.5e1".toList ∧ Quantity.Gives (.exact true 15) (ofText " -1.5e1\n") ∧
    Hexadecimal .plus "0x+1".toList 1 ∧ IsNearest false 1 (ofText "0x+1") := by
  have htrimmed : Trimmed " -1.5e1\n".toList "-1.5e1".toList := trimmed_iff.mpr rfl
  have hdecimal : decimal? "-1.5e1".toList = some ⟨true, ['1', '5'], 0⟩ := rfl
  have hdigits : Digits 10 ['1', '5'] 15 := decimals_iff.mpr ⟨List.all_eq_true.mp rfl, rfl⟩
  have hdenotes := Denotes.decimal (decimal?_eq_some_iff.mp hdecimal) hdigits
  rw [zpow_zero, mul_one, Nat.cast_ofNat] at hdenotes
  have hhex : Hexadecimal .plus "0x+1".toList 1 :=
    @Hexadecimal.mk .plus 'x' ['1'] 1 (.inl rfl) (List.cons_ne_nil _ _)
      (hexadecimals_iff.mpr ⟨List.all_eq_true.mp rfl, rfl⟩)
  obtain ⟨text, hunique, hgives, -⟩ := text_reads_as_denoted " -1.5e1\n"
  obtain ⟨marked, hmarked, -, hplus, -⟩ := text_reads_as_denoted "0x+1"
  have htext := (hunique _).mp htrimmed
  have hmark : "0x+1".toList = marked := (hmarked _).mp (trimmed_iff.mpr rfl)
  subst htext hmark
  have hone := hplus 1 hhex (by decide)
  rw [Nat.cast_one] at hone
  have hnarrow := narrow_of_decimal hdecimal
  exact ⟨htrimmed, hdenotes, hnarrow, hgives _ hdenotes hnarrow, hhex, hone⟩

/-- Text with a plus sign after its mark denotes nothing and is read all the same. A numeral of
more than 64 bits denotes a number and is not read. -/
theorem plus_is_read_and_width_is_not :
    (ofText "0x+1").isNaN = false ∧ (∀ v, ¬Denotes "0x+1".toList v) ∧
    (ofText "0x10000000000000000").isNaN = true ∧
    Denotes "0x10000000000000000".toList (.exact false (2 ^ 64)) := by
  refine ⟨by decide +kernel, ?_, by decide +kernel, ?_⟩
  · intro v h
    generalize htext : "0x+1".toList = text at h
    have hmarked : text = '0' :: 'x' :: ['+', '1'] := htext.symm
    cases h with
    | blank => cases hmarked
    | infinity sign =>
      cases sign with
      | none => cases hmarked
      | plus => cases hmarked
      | minus => cases hmarked
    | hexadecimal h =>
      cases h with
      | @mk mark digits n hmark hne hdigits =>
        have hplus : digits = ['+', '1'] := (List.cons.inj (List.cons.inj hmarked).2).2
        obtain ⟨hall, -⟩ := hexadecimals_iff.mp hdigits
        rw [hplus] at hall
        cases hall '+' List.mem_cons_self
    | decimal h hdigits =>
      rw [hmarked, ← decimal?_eq_some_iff, decimal?_of_marked (.inl rfl)] at h
      cases h
  · have hdigits : Digits 16 ('1' :: List.replicate 16 '0') (2 ^ 64) :=
      hexadecimals_iff.mpr ⟨List.all_eq_true.mp rfl, rfl⟩
    have hhex := @Hexadecimal.mk .none 'x' _ _ (.inl rfl) (List.cons_ne_nil _ _) hdigits
    have hdenotes := Denotes.hexadecimal hhex
    rwa [Nat.cast_pow, Nat.cast_ofNat] at hdenotes

end Reprl.Number
