import Mathlib.Data.List.Count
import Reprl.Machine.Property
import Reprl.Proofs.Number.Numeral
import Reprl.Proofs.Value.ArrayObject

/-! Strings by position. Arrays know an index by its decimal text alone. Strings take every
spelling of it, and they count the characters that their length counts in units. -/

namespace Reprl

open Number (Signed)

/-- Digits of an index below the limit, also behind a plus sign or zeros. -/
def SpellsIndex (key : String) (n : Nat) : Prop :=
  (Signed 10 .none key.toList n ∨ Signed 10 .plus key.toList n) ∧ n < indexLimit

theorem spellsIndex_iff {key : String} {n : Nat} :
    SpellsIndex key n ↔ Text.unsigned? 10 key.toList = some n ∧ n < indexLimit := by
  rw [SpellsIndex, Number.unsigned?_eq_some_iff (by decide)]

theorem spellsIndex_of_arrayIndex? {key : String} {n : Nat} (h : arrayIndex? key = some n) :
    SpellsIndex key n := by
  obtain ⟨⟨hne, hdigits⟩, -, hvalue, hlt⟩ := arrayIndex?_eq_some.mp h
  exact ⟨.inl (.mk hne (Text.decimals_iff.mpr ⟨hdigits, hvalue⟩)), hlt⟩

/-- Of the spellings of an index arrays know one. -/
theorem SpellsIndex.arrayIndex?_eq_some_iff {key : String} {n : Nat} (h : SpellsIndex key n) :
    arrayIndex? key = some n ↔ key = Number.decimalText n := by
  rw [Reprl.arrayIndex?_eq_some_iff, and_iff_right h.2]

theorem charAt?_of_spells {key : String} {n : Nat} (h : SpellsIndex key n) (s : String) :
    charAt? s key = s.toList[n]? := by
  obtain ⟨hread, hlt⟩ := spellsIndex_iff.mp h
  simp only [charAt?, hread, if_pos hlt]

theorem charAt?_of_spells_none {key : String} (h : ∀ n, ¬SpellsIndex key n) (s : String) :
    charAt? s key = none := by
  unfold charAt?
  split
  next n hread => exact if_neg fun hlt => h n (spellsIndex_iff.mpr ⟨hread, hlt⟩)
  next => rfl

theorem charAt?_eq_some_iff {s key : String} {c : Char} :
    charAt? s key = some c ↔ ∃ n, SpellsIndex key n ∧ s.toList[n]? = some c := by
  constructor
  · intro h
    by_cases hspells : ∃ n, SpellsIndex key n
    · obtain ⟨n, hn⟩ := hspells
      exact ⟨n, hn, (charAt?_of_spells hn s).symm.trans h⟩
    · rw [charAt?_of_spells_none (not_exists.mp hspells)] at h
      cases h
  · rintro ⟨n, hn, hc⟩
    rw [charAt?_of_spells hn, hc]

theorem charAt?_eq_none_iff {s key : String} :
    charAt? s key = none ↔ ∀ n, SpellsIndex key n → s.toList.length ≤ n := by
  constructor
  · intro h n hn
    rw [charAt?_of_spells hn] at h
    exact List.getElem?_eq_none_iff.mp h
  · intro h
    refine Option.eq_none_iff_forall_ne_some.mpr fun c hc => ?_
    obtain ⟨n, hn, hat⟩ := charAt?_eq_some_iff.mp hc
    obtain ⟨hlt, -⟩ := List.getElem?_eq_some_iff.mp hat
    exact Nat.not_lt.mpr (h n hn) hlt

/-- A character that two units encode. -/
def isPaired (c : Char) : Bool := 0x10000 ≤ c.toNat

theorem unitCount_eq (s : String) :
    unitCount s = s.toList.length + s.toList.countP isPaired := by
  have hfrom : ∀ (cs : List Char) (n : Nat),
      cs.foldl (fun n c => n + if c.toNat < 0x10000 then 1 else 2) n =
        n + (cs.length + cs.countP isPaired) := by
    intro cs
    induction cs with
    | nil => simp
    | cons c cs ih =>
      intro n
      rw [List.foldl_cons, ih, List.length_cons, List.countP_cons]
      by_cases hc : c.toNat < 0x10000
      · have hsingle : isPaired c = false := decide_eq_false (Nat.not_le.mpr hc)
        rw [if_pos hc, hsingle, if_neg Bool.false_ne_true]
        omega
      · have hpaired : isPaired c = true := decide_eq_true (Nat.not_lt.mp hc)
        rw [if_neg hc, hpaired, if_pos rfl]
        omega
  rw [unitCount, String.foldl_eq_foldl_toList, hfrom, Nat.zero_add]

theorem stringProperty_of_ne {s key : String} (hkey : key ≠ "length") :
    stringProperty s key =
      match charAt? s key with
      | some c => .string c.toString
      | none => .undefined := if_neg hkey

theorem stringProperty_eq_character_iff {s key : String} (hkey : key ≠ "length") {c : Char} :
    stringProperty s key = .string c.toString ↔ ∃ n, SpellsIndex key n ∧ s.toList[n]? = some c := by
  rw [stringProperty_of_ne hkey, ← charAt?_eq_some_iff]
  cases charAt? s key with
  | none => simp
  | some d => simp [Char.toString, String.singleton_inj]

theorem stringProperty_eq_undefined_iff {s key : String} (hkey : key ≠ "length") :
    stringProperty s key = .undefined ↔ ∀ n, SpellsIndex key n → s.toList.length ≤ n := by
  rw [stringProperty_of_ne hkey, ← charAt?_eq_none_iff]
  cases charAt? s key with
  | none => simp
  | some d => simp

/-- The characters of a string as the elements of an array. -/
def characters (s : String) : ArrayObject :=
  .ofElements (s.toList.map fun c => Value.string c.toString).toArray

theorem stringProperty_of_arrayIndex? {key : String} {n : Nat} (h : arrayIndex? key = some n)
    (s : String) : stringProperty s key = ((characters s).get? key).getD .undefined := by
  have hkey := ArrayObject.ne_length_of_index h
  have hempty : (characters s).extra.get? key = none := rfl
  rw [stringProperty_of_ne hkey, charAt?_of_spells (spellsIndex_of_arrayIndex? h),
    ArrayObject.get?_of_ne hkey, h, hempty]
  simp only [characters, ArrayObject.ofElements, Option.bind_some, List.getElem?_toArray,
    List.getElem?_map]
  cases s.toList[n]? with
  | none => rfl
  | some c => rfl

/-- Every spelling of an index gives the character at it, and nothing else does but the length.
Under an index of arrays a string reads as the array of its characters does. -/
theorem characters_are_found_by_spelled_indices (s key : String) :
    Run.getProperty (.string s) key = pure (stringProperty s key) ∧
    stringProperty s "length" =
      .number (lengthNumber (s.toList.length + s.toList.countP isPaired)) ∧
    (key ≠ "length" →
      (∀ c : Char, stringProperty s key = .string c.toString ↔
        ∃ n, SpellsIndex key n ∧ s.toList[n]? = some c) ∧
      (stringProperty s key = .undefined ↔ ∀ n, SpellsIndex key n → s.toList.length ≤ n)) ∧
    (∀ n, arrayIndex? key = some n → SpellsIndex key n ∧
      stringProperty s key = ((characters s).get? key).getD .undefined) ∧
    ∀ n, SpellsIndex key n → (arrayIndex? key = some n ↔ key = Number.decimalText n) := by
  refine ⟨rfl, ?_, fun hkey => ⟨fun c => ?_, ?_⟩, fun n h => ⟨?_, ?_⟩, fun n h => ?_⟩
  · rw [stringProperty, if_pos rfl, unitCount_eq]
  · exact stringProperty_eq_character_iff hkey
  · exact stringProperty_eq_undefined_iff hkey
  · exact spellsIndex_of_arrayIndex? h
  · exact stringProperty_of_arrayIndex? h s
  · exact h.arrayIndex?_eq_some_iff

theorem secondCharacter_is_found :
    "+01" ≠ "length" ∧ SpellsIndex "+01" 1 ∧ stringProperty "ab" "+01" = .string "b" ∧
    arrayIndex? "+01" ≠ some 1 := by
  have hkey : "+01" ≠ "length" := by decide
  have hspells : SpellsIndex "+01" 1 := spellsIndex_iff.mpr ⟨rfl, by decide⟩
  obtain ⟨-, -, hreads, -, hspelling⟩ := characters_are_found_by_spelled_indices "ab" "+01"
  have hb := ((hreads hkey).1 'b').mpr ⟨1, hspells, rfl⟩
  exact ⟨hkey, hspells, hb, mt (hspelling 1 hspells).mp (by decide +kernel)⟩

/-- Keys that are no index of an array find characters, and a position below the length has
none. -/
theorem spelled_keys_are_read_and_units_are_not :
    (arrayIndex? "+1" = none ∧ stringProperty "ab" "+1" = .string "b") ∧
    (arrayIndex? "01" = none ∧ stringProperty "ab" "01" = .string "b") ∧
    arrayIndex? "1" = some 1 ∧ 1 < unitCount "😀" ∧ stringProperty "😀" "1" = .undefined := by
  refine ⟨⟨?_, rfl⟩, ⟨?_, rfl⟩, ?_, ?_, ?_⟩
  · decide +kernel
  · decide +kernel
  · decide +kernel
  · rw [unitCount_eq]
    decide +kernel
  · rfl

end Reprl
