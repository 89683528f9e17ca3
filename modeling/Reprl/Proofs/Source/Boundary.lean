import Reprl.Proofs.Source.Sequence

/-! Borders of characters. A skip that jumps over an escaped byte may stand inside a character,
but it ends in front of a byte below 0x80 or behind one, or at the end of the text, and such bytes
are characters of their own. So every lexical piece begins and ends between two characters. -/

namespace Reprl.Source

open Reprl.Text

/-- The rest of a source text begins between two of its characters. -/
def Splits (source : String) (rest : List UInt8) : Prop :=
  ∃ before after : List Char, source.toList = before ++ after ∧
    rest = after.flatMap String.utf8EncodeChar

/-- The rest of a source text begins between two of its characters or inside one. -/
def Ragged (source : String) (rest : List UInt8) : Prop :=
  ∃ begun whole, rest = begun ++ whole ∧ Splits source whole ∧ ∀ b ∈ begun, (0x80 : UInt8) ≤ b

theorem le_continuation (n : Nat) : (0x80 : UInt8) ≤ UInt8.ofNat (n % 64 + 0x80) := by
  rw [UInt8.le_iff_toNat_le, toNat_low]
  exact Nat.le_add_left _ _

/-- A character is one byte below 0x80, or it has bytes from 0x80 on only. -/
theorem utf8EncodeChar_cases (c : Char) :
    ∃ first others, String.utf8EncodeChar c = first :: others ∧
      (first < 0x80 → others = []) ∧ ∀ b ∈ others, (0x80 : UInt8) ≤ b := by
  have hlead {n : Nat} (hfrom : 0x80 ≤ n) (hto : n < 0x100) : ¬UInt8.ofNat n < 0x80 := by
    rw [UInt8.lt_iff_toNat_lt, UInt8.toNat_ofNat', Nat.mod_eq_of_lt hto]
    exact Nat.not_lt.mpr hfrom
  have hnone : ∀ b ∈ ([] : List UInt8), (0x80 : UInt8) ≤ b := fun _ hmem => absurd hmem List.not_mem_nil
  have hone (n : Nat) {bytes : List UInt8} (h : ∀ b ∈ bytes, (0x80 : UInt8) ≤ b) :
      ∀ b ∈ UInt8.ofNat (n % 64 + 0x80) :: bytes, (0x80 : UInt8) ≤ b :=
    List.forall_mem_cons.mpr ⟨le_continuation n, h⟩
  rw [String.utf8EncodeChar]
  split
  · exact ⟨_, [], rfl, fun _ => rfl, hnone⟩
  · split
    · exact ⟨_, _, rfl, fun hb => absurd hb (hlead (by omega) (by omega)), hone _ hnone⟩
    · split
      · exact ⟨_, _, rfl, fun hb => absurd hb (hlead (by omega) (by omega)), hone _ (hone _ hnone)⟩
      · exact ⟨_, _, rfl, fun hb => absurd hb (hlead (by omega) (by omega)),
          hone _ (hone _ (hone _ hnone))⟩

namespace Splits

variable {source : String} {b : UInt8} {rest : List UInt8}

theorem start (source : String) : Splits source (encode source) :=
  ⟨[], source.toList, rfl, encode_eq source⟩

theorem fin (source : String) : Splits source [] := ⟨source.toList, [], (List.append_nil _).symm, rfl⟩

/-- The bytes up to there are those of some characters, so the place is one between characters. -/
theorem isValid (h : Splits source rest) :
    String.Pos.Raw.IsValid source ⟨(encode source).length - rest.length⟩ := by
  obtain ⟨before, after, hsource, rfl⟩ := h
  rw [String.Pos.Raw.isValid_iff_exists_append]
  refine ⟨String.ofList before, String.ofList after, String.toList_injective (by simp [hsource]), ?_⟩
  have hlength : (encode (String.ofList before)).length = (String.ofList before).utf8ByteSize := by
    rw [encode, String.toUTF8_eq_toByteArray, Array.length_toList, ByteArray.size_data]
    exact String.size_toByteArray
  have hbefore := encode_eq (String.ofList before)
  rw [String.toList_ofList] at hbefore
  rw [encode_eq, hsource, List.flatMap_append, List.length_append, Nat.add_sub_cancel, ← hbefore, hlength]
  rfl

theorem ragged (h : Splits source rest) : Ragged source rest :=
  ⟨[], rest, rfl, h, fun _ hmem => absurd hmem List.not_mem_nil⟩

end Splits

namespace Ragged

variable {source : String} {b : UInt8} {rest : List UInt8}

theorem tail (h : Ragged source (b :: rest)) : Ragged source rest := by
  obtain ⟨begun, whole, hrest, hwhole, hbegun⟩ := h
  cases begun with
  | cons first begun =>
    obtain ⟨rfl, rfl⟩ := List.cons.inj hrest
    exact ⟨begun, whole, rfl, hwhole, fun t ht => hbegun t (List.mem_cons_of_mem _ ht)⟩
  | nil =>
    obtain ⟨before, after, hsource, hafter⟩ := hwhole
    obtain rfl : b :: rest = whole := hrest
    cases after with
    | nil => cases hafter
    | cons c after =>
      obtain ⟨first, others, hc, -, hothers⟩ := utf8EncodeChar_cases c
      rw [List.flatMap_cons, hc, List.cons_append] at hafter
      refine ⟨others, after.flatMap String.utf8EncodeChar, (List.cons.inj hafter).2, ?_, hothers⟩
      exact ⟨before ++ [c], after, by simp [hsource], rfl⟩

/-- A byte below 0x80 is never inside a character. -/
theorem splits (h : Ragged source (b :: rest)) (hb : b < 0x80) :
    Splits source (b :: rest) ∧ Splits source rest := by
  obtain ⟨begun, whole, hrest, hwhole, hbegun⟩ := h
  cases begun with
  | cons first begun =>
    obtain ⟨rfl, rfl⟩ := List.cons.inj hrest
    exact absurd hb (UInt8.not_lt.mpr (hbegun b List.mem_cons_self))
  | nil =>
    obtain rfl : b :: rest = whole := hrest
    refine ⟨hwhole, ?_⟩
    obtain ⟨before, after, hsource, hafter⟩ := hwhole
    cases after with
    | nil => cases hafter
    | cons c after =>
      obtain ⟨first, others, hc, hlow, -⟩ := utf8EncodeChar_cases c
      rw [List.flatMap_cons, hc, List.cons_append] at hafter
      obtain ⟨rfl, -⟩ := List.cons.inj hafter
      rw [hlow hb, List.nil_append] at hafter
      exact ⟨before ++ [c], after, by simp [hsource], List.tail_eq_of_cons_eq hafter⟩

theorem skipString (h : Ragged source rest) {quote : UInt8} (hquote : quote < 0x80) :
    Splits source (skipString quote rest) := by
  have hfeed : lineFeed < 0x80 := by decide
  fun_induction Source.skipString quote rest with
  | case1 => exact .fin source
  | case2 => exact .fin source
  | case3 b after ih => exact ih h.tail.tail
  | case4 rest _ => exact (h.splits hfeed).1
  | case5 rest _ _ => exact (h.splits hquote).2
  | case6 b rest _ _ _ ih => exact ih h.tail

theorem skipTemplate (h : Ragged source rest) : Splits source (skipTemplate rest).1 := by
  have hquote : backquote < 0x80 := by decide
  have hbrace : openBrace < 0x80 := by decide
  fun_induction Source.skipTemplate rest with
  | case1 => exact .fin source
  | case2 => exact .fin source
  | case3 b after ih => exact ih h.tail.tail
  | case4 rest _ => exact (h.splits hquote).2
  | case5 => exact .fin source
  | case6 b next after _ _ hsub =>
    obtain ⟨-, rfl⟩ := hsub
    exact (h.tail.splits hbrace).2
  | case7 b next after _ _ _ ih => exact ih h.tail

theorem skipLine (h : Ragged source rest) : Splits source (skipLine rest) := by
  have hfeed : lineFeed < 0x80 := by decide
  fun_induction Source.skipLine rest with
  | case1 => exact .fin source
  | case2 rest => exact (h.splits hfeed).2
  | case3 b rest _ ih => exact ih h.tail

theorem skipBlock (h : Ragged source rest) : Splits source (skipBlock rest) := by
  have hslash : slash < 0x80 := by decide
  fun_induction Source.skipBlock rest with
  | case1 => exact .fin source
  | case2 => exact .fin source
  | case3 b next after hend =>
    obtain ⟨-, rfl⟩ := hend
    exact (h.tail.splits hslash).2
  | case4 b next after _ ih => exact ih h.tail

/-- A run of bytes ends between characters if all bytes from 0x80 on belong to it. -/
theorem dropWhile (h : Ragged source rest) {keep : UInt8 → Bool}
    (hkeep : ∀ b, (0x80 : UInt8) ≤ b → keep b = true) : Splits source (rest.dropWhile keep) := by
  induction rest with
  | nil => exact .fin source
  | cons b rest ih =>
    by_cases hb : keep b = true
    · rw [List.dropWhile_cons_of_pos hb]
      exact ih h.tail
    · rw [List.dropWhile_cons_of_neg hb]
      exact (h.splits (UInt8.not_le.mp fun hle => hb (hkeep b hle))).1

end Ragged

/-- A run of bytes below 0x80 ends between characters. -/
theorem Splits.dropWhile {source : String} {rest : List UInt8} (h : Splits source rest)
    {keep : UInt8 → Bool} (hkeep : ∀ b, keep b = true → b < 0x80) :
    Splits source (rest.dropWhile keep) := by
  induction rest with
  | nil => exact .fin source
  | cons b rest ih =>
    by_cases hb : keep b = true
    · rw [List.dropWhile_cons_of_pos hb]
      exact ih (h.ragged.splits (hkeep b hb)).2
    · rw [List.dropWhile_cons_of_neg hb]
      exact h

theorem isWordByte_of_high {b : UInt8} (hb : (0x80 : UInt8) ≤ b) : isWordByte b = true := by
  simp [isWordByte, hb]

theorem low_of_isAlphanumericByte {b : UInt8} (h : isAlphanumericByte b = true) : b < 0x80 := by
  have hz : byte 'z' < 0x80 := by decide
  have hZ : byte 'Z' < 0x80 := by decide
  have hnine : byte '9' < 0x80 := by decide
  simp only [isAlphanumericByte, isDigitByte, Bool.or_eq_true, Bool.and_eq_true, decide_eq_true_eq] at h
  rcases h with (⟨-, h⟩ | ⟨-, h⟩) | ⟨-, h⟩
  · exact UInt8.lt_of_le_of_lt h hnine
  · exact UInt8.lt_of_le_of_lt h hz
  · exact UInt8.lt_of_le_of_lt h hZ

theorem low_of_isNumberByte {b : UInt8} (h : isNumberByte b = true) : b < 0x80 := by
  simp only [isNumberByte, Bool.or_eq_true, decide_eq_true_eq] at h
  rcases h with (h | rfl) | rfl
  · exact low_of_isAlphanumericByte h
  · decide
  · decide

namespace Nesting

variable {source : String} {b : UInt8} {rest : List UInt8}

theorem low_of_mark {b : UInt8} (h : b ∈ quotes ++ openers ++ closers ++ separators ++ operators) :
    b < 0x80 := by
  have hall : (quotes ++ openers ++ closers ++ separators ++ operators).all (· < 0x80) = true := by
    decide
  exact of_decide_eq_true (List.all_eq_true.mp hall b h)

/-- Bytes from 0x80 on belong to words. -/
theorem low_of_pieceOf {next : Option UInt8} (h : pieceOf b next ≠ .word) : b < 0x80 := by
  by_contra hb
  have hmarks := mt low_of_mark hb
  simp only [List.mem_append, not_or] at hmarks
  obtain ⟨⟨⟨⟨hquotes, hopeners⟩, hclosers⟩, hseparators⟩, hoperators⟩ := hmarks
  have hquote : b ≠ backquote := fun he => hb (he ▸ by decide)
  have hslash : b ≠ slash := fun he => hb (he ▸ by decide)
  have hdigit : isDigitByte b = false := by
    by_contra hd
    rw [Bool.not_eq_false] at hd
    exact hb (low_of_isAlphanumericByte (by simp [isAlphanumericByte, hd]))
  have hword := isWordByte_of_high (UInt8.not_lt.mp hb)
  simp [pieceOf, *] at h

theorem splits_template (s : Nesting) (h : Ragged source rest) : Splits source (s.template rest).2 :=
  h.skipTemplate

/-- A piece that begins between two characters ends between two characters. -/
theorem splits_step (s : Nesting) (h : Splits source (b :: rest)) : Splits source (s.step b rest).2 := by
  rw [step_eq_take]
  by_cases hword : pieceOf b rest.head? = .word
  · rw [hword]
    exact h.ragged.tail.dropWhile fun _ => isWordByte_of_high
  · have hb := low_of_pieceOf hword
    have hrest : Splits source rest := (h.ragged.splits hb).2
    have hdrop : Ragged source (rest.drop 1) := by
      cases rest with
      | nil => exact hrest.ragged
      | cons _ _ => exact hrest.ragged.tail
    cases hpiece : pieceOf b rest.head? with
    | quoted => exact hrest.ragged.skipString hb
    | template => exact s.splits_template hrest.ragged
    | lineComment => exact hdrop.skipLine
    | blockComment => exact hdrop.skipBlock
    | closer =>
      simp only [take, closed]
      split
      · split
        · exact splits_template _ hrest.ragged
        · exact hrest
      · exact hrest
    | number => exact hrest.dropWhile fun _ => low_of_isNumberByte
    | word => exact absurd hpiece hword
    | opener | separator | operator | other => exact hrest

end Nesting

end Reprl.Source
