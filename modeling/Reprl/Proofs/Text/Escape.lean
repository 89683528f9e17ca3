import Reprl.Text.Escape

/-! Raw texts as lists of pieces. A piece is a character or an escape that stands for some
characters; what may follow it is part of what it is. Cooking takes each piece as a whole
and leaves the next one alone, so the value of a text is that of its pieces in order. -/

namespace Reprl.Text

structure Piece where
  text : List Char
  value : List Char

namespace Piece

structure Hex (digits : List Char) (n : Nat) : Prop where
  isHex : ∀ c ∈ digits, isHex c = true
  value : digitsValue 16 digits = n

def IsSurrogate (n : Nat) : Prop := 0xD800 ≤ n ∧ n < 0xE000
deriving Decidable

def IsLeading (n : Nat) : Prop := 0xD800 ≤ n ∧ n < 0xDC00
deriving Decidable

def IsTrailing (n : Nat) : Prop := 0xDC00 ≤ n ∧ n < 0xE000
deriving Decidable

/-- The character beyond the first 0x10000 with these two units in UTF-16. -/
def ofUnits (leading trailing : Nat) : Char :=
  Char.ofNat (0x10000 + (leading - 0xD800) * 0x400 + (trailing - 0xDC00))

/-- An escape of four digits for a trailing surrogate stands at the head of the text. -/
def StartsTrailing (after : List Char) : Prop :=
  ∃ digits rest n, after = '\\' :: 'u' :: digits ++ rest ∧ digits.length = 4 ∧ Hex digits n ∧
    IsTrailing n

def StartsDecimal (after : List Char) : Prop := ∃ digit ∈ after.head?, isDecimal digit

/-- Letters that stand for control characters when they are escaped. -/
def controls : List (Char × Char) :=
  [('n', '\n'), ('t', '\t'), ('r', '\r'), ('b', '\x08'), ('f', '\x0c'), ('v', '\x0b')]

/-- What does not stand for itself after a backslash, apart from a zero. -/
def marked : List Char := controls.map (·.1) ++ ['x', 'u', '\n', '\r', '\u2028', '\u2029']

/-- The pieces that may stand before the text `after`. -/
inductive Fits (after : List Char) : Piece → Prop where
  | plain {c : Char} (h : c ≠ '\\') : Fits after ⟨[c], [c]⟩
  | control {letter c : Char} (h : (letter, c) ∈ controls) : Fits after ⟨['\\', letter], [c]⟩
  | null (h : ¬StartsDecimal after) : Fits after ⟨['\\', '0'], ['\x00']⟩
  | byte {digits : List Char} {n : Nat} (h : Hex digits n) (hl : digits.length = 2) :
    Fits after ⟨'\\' :: 'x' :: digits, [Char.ofNat n]⟩
  | unit {digits : List Char} {n : Nat} (h : Hex digits n) (hl : digits.length = 4)
    (hn : ¬IsSurrogate n) : Fits after ⟨'\\' :: 'u' :: digits, [Char.ofNat n]⟩
  | pair {first second : List Char} {leading trailing : Nat} (h : Hex first leading)
    (hl : first.length = 4) (hn : IsLeading leading) (h' : Hex second trailing)
    (hl' : second.length = 4) (hn' : IsTrailing trailing) :
    Fits after ⟨'\\' :: 'u' :: first ++ '\\' :: 'u' :: second, [ofUnits leading trailing]⟩
  | braced {digits : List Char} {n : Nat} (h : Hex digits n) (hne : digits ≠ [])
    (hn : n.isValidChar) : Fits after ⟨'\\' :: 'u' :: '\x7b' :: digits ++ ['\x7d'], [Char.ofNat n]⟩
  /-- A surrogate on its own; a leading one has no trailing one after it. -/
  | loneUnit {digits : List Char} {n : Nat} (h : Hex digits n) (hl : digits.length = 4)
    (hn : IsSurrogate n) (ha : IsLeading n → ¬StartsTrailing after) :
    Fits after ⟨'\\' :: 'u' :: digits, ['\uFFFD']⟩
  | loneBraced {digits : List Char} {n : Nat} (h : Hex digits n) (hn : IsSurrogate n) :
    Fits after ⟨'\\' :: 'u' :: '\x7b' :: digits ++ ['\x7d'], ['\uFFFD']⟩
  | lineFeed : Fits after ⟨['\\', '\n'], []⟩
  | lineBreak : Fits after ⟨['\\', '\r', '\n'], []⟩
  | carriageReturn (h : after.head? ≠ some '\n') : Fits after ⟨['\\', '\r'], []⟩
  | lineSeparator : Fits after ⟨['\\', '\u2028'], []⟩
  | paragraphSeparator : Fits after ⟨['\\', '\u2029'], []⟩
  /-- A zero stands for itself before a digit. -/
  | other {c : Char} (h : c ∉ marked) (hz : c = '0' → StartsDecimal after) :
    Fits after ⟨['\\', c], [c]⟩

def texts (pieces : List Piece) : List Char := pieces.flatMap text

def values (pieces : List Piece) : List Char := pieces.flatMap value

/-- Each piece may stand before the texts of those after it. -/
inductive AllFit : List Piece → Prop where
  | nil : AllFit []
  | cons {piece : Piece} {rest : List Piece} (h : Fits (texts rest) piece) (hr : AllFit rest) :
    AllFit (piece :: rest)

end Piece

open Piece

theorem isLeading_iff {n : Nat} : isLeading n = true ↔ IsLeading n := by
  simp [isLeading, IsLeading]

theorem isTrailing_iff {n : Nat} : isTrailing n = true ↔ IsTrailing n := by
  simp [isTrailing, IsTrailing]

theorem startsWithDecimal_iff {after : List Char} :
    startsWithDecimal after = true ↔ StartsDecimal after := by
  cases after <;> simp [startsWithDecimal, StartsDecimal]

theorem digitValue?_lt {c : Char} {d : Nat} (h : digitValue? c = some d) : d < 16 := by
  simp only [digitValue?, Char.le_def, UInt32.le_iff_toNat_le] at h
  have hnine : '9'.val.toNat = 57 := rfl
  have hf : 'f'.val.toNat = 102 := rfl
  have hF : 'F'.val.toNat = 70 := rfl
  have hzero : '0'.toNat = 48 := rfl
  have ha : 'a'.toNat = 97 := rfl
  have hA : 'A'.toNat = 65 := rfl
  have hc : c.toNat = c.val.toNat := rfl
  grind

theorem isDigitOf_sixteen (c : Char) : isDigitOf 16 c = isHex c := by
  rw [isDigitOf, isHex]
  cases h : digitValue? c with
  | none => rfl
  | some d => simp [digitValue?_lt h]

theorem digitsValue_lt (ds : List Char) : digitsValue 16 ds < Nat.pow 16 ds.length := by
  have hfrom : ∀ n, ds.foldl (fun n c => n * 16 + (digitValue? c).getD 0) n <
      (n + 1) * Nat.pow 16 ds.length := by
    induction ds with
    | nil => intro n; exact Nat.lt_of_lt_of_eq (Nat.lt_succ_self n) (Nat.mul_one _).symm
    | cons c ds ih =>
      intro n
      have hd : (digitValue? c).getD 0 < 16 := by
        cases h : digitValue? c with
        | none => exact Nat.zero_lt_succ _
        | some d => exact digitValue?_lt h
      rw [List.foldl_cons]
      refine Nat.lt_of_lt_of_le (ih _) ?_
      have hpow : Nat.pow 16 (c :: ds).length = 16 * Nat.pow 16 ds.length := Nat.pow_succ'
      rw [hpow, ← Nat.mul_assoc]
      exact Nat.mul_le_mul_right _ (by omega)
  simpa [digitsValue] using hfrom 0

theorem unsigned?_of_head {base : Nat} {cs : List Char} (h : cs.head? ≠ some '+') :
    unsigned? base cs =
      if cs.isEmpty || !cs.all (isDigitOf base) then none else some (digitsValue base cs) := by
  cases cs with
  | nil => rfl
  | cons c rest =>
    have hc : c ≠ '+' := fun hplus => h (congrArg some hplus)
    simp [unsigned?, hc]

theorem codeNumber?_of_hex {ds : List Char} {n : Nat} (h : Hex ds n) (hne : ds ≠ [])
    (hn : n < 0x100000000) : codeNumber? ds = some n := by
  obtain ⟨hall, rfl⟩ := h
  have hhead : ds.head? ≠ some '+' := by
    intro hplus
    exact absurd (hall '+' (List.mem_of_mem_head? hplus)) (by decide)
  have hdigits : ds.all (isDigitOf 16) = true := by
    rw [List.all_eq_true]
    intro c hc
    rw [isDigitOf_sixteen]
    exact hall c hc
  have hempty : ds.isEmpty = false := by simpa using hne
  simp [codeNumber?, unsigned?_of_head hhead, hempty, hdigits, hn]

theorem le_length_of_digitsValue {ds : List Char} {k : Nat} (h : Nat.pow 16 k ≤ digitsValue 16 ds) :
    k < ds.length := by
  refine Nat.lt_of_not_le fun hle => ?_
  have hlt := digitsValue_lt ds
  have hpow : Nat.pow 16 ds.length ≤ Nat.pow 16 k := Nat.pow_le_pow_right (by decide) hle
  omega

/-- A number that takes four digits is written with four digits, and without a sign. -/
theorem hex_of_codeNumber? {ds : List Char} {n : Nat} (h : codeNumber? ds = some n)
    (hl : ds.length ≤ 4) (hn : 0x1000 ≤ n) : ds.length = 4 ∧ Hex ds n := by
  obtain ⟨hu, -⟩ := Option.filter_eq_some_iff.mp h
  by_cases hhead : ds.head? = some '+'
  · obtain ⟨rest, rfl⟩ : ∃ rest, ds = '+' :: rest := List.head?_eq_some_iff.mp hhead
    simp only [unsigned?, Option.ite_none_left_eq_some, Option.some.injEq] at hu
    have hlong : 3 < rest.length := le_length_of_digitsValue (by rw [hu.2]; exact hn)
    simp only [List.length_cons] at hl
    omega
  · rw [unsigned?_of_head hhead, Option.ite_none_left_eq_some] at hu
    have hv : digitsValue 16 ds = n := Option.some.inj hu.2
    have hlong : 3 < ds.length := le_length_of_digitsValue (by rw [hv]; exact hn)
    have hall : ds.all (isDigitOf 16) = true := by
      cases he : ds.all (isDigitOf 16) with
      | true => rfl
      | false => simp [he] at hu
    refine ⟨Nat.le_antisymm hl hlong, fun c hc => ?_, hv⟩
    rw [← isDigitOf_sixteen]
    exact List.all_eq_true.mp hall c hc

theorem trailingEscape?_of_startsTrailing {digits rest : List Char} {n : Nat} (h : Hex digits n)
    (hl : digits.length = 4) (hn : IsTrailing n) :
    trailingEscape? ('\\' :: 'u' :: digits ++ rest) = some (n, rest) := by
  have hne : digits ≠ [] := List.ne_nil_of_length_eq_add_one hl
  have hnumber : codeNumber? digits = some n :=
    codeNumber?_of_hex h hne (Nat.lt_trans hn.2 (by decide))
  have htrailing : isTrailing n = true := isTrailing_iff.mpr hn
  simp only [List.cons_append, trailingEscape?, List.take_left' hl, List.drop_left' hl, hnumber,
    htrailing, if_true]

theorem trailingEscape?_eq_none {after : List Char} (h : ¬StartsTrailing after) :
    trailingEscape? after = none := by
  unfold trailingEscape?
  split
  · rename_i rest
    split
    · rename_i n hnumber
      refine if_neg fun htrailing => h ?_
      have hn : IsTrailing n := isTrailing_iff.mp htrailing
      have hlow : 0x1000 ≤ n := Nat.le_trans (by decide) hn.1
      obtain ⟨hl, hhex⟩ := hex_of_codeNumber? hnumber (List.length_take_le 4 rest) hlow
      exact ⟨rest.take 4, rest.drop 4, n, by simp, hl, hhex, hn⟩
    · rfl
  · rfl

section Escapes

variable {digits after : List Char} {n : Nat}

theorem scalar_of_valid (hn : n.isValidChar) : scalar (some n) = Char.ofNat n := if_pos hn

theorem lt_of_isValidChar (hn : n.isValidChar) : n < 0x110000 := by
  simp only [Nat.isValidChar] at hn
  omega

theorem scalar_of_surrogate (hn : IsSurrogate n) : scalar (some n) = '\uFFFD' := by
  refine if_neg fun hvalid => ?_
  simp only [IsSurrogate, Nat.isValidChar] at hn hvalid
  omega

theorem Piece.Hex.lt (h : Hex digits n) {k : Nat} (hl : digits.length = k) : n < Nat.pow 16 k := by
  have hlt := digitsValue_lt digits
  rwa [h.value, hl] at hlt

theorem codeNumber?_four (h : Hex digits n) (hl : digits.length = 4) :
    codeNumber? digits = some n :=
  codeNumber?_of_hex h (List.ne_nil_of_length_eq_add_one hl) (Nat.lt_trans (h.lt hl) (by decide))

theorem isValidChar_four (h : Hex digits n) (hl : digits.length = 4) (hn : ¬IsSurrogate n) :
    n.isValidChar := by
  have hlt : n < 0x10000 := h.lt hl
  simp only [IsSurrogate, Nat.isValidChar] at hn ⊢
  omega

theorem fourDigitEscape_single (h : Hex digits n) (hl : digits.length = 4)
    (ha : IsLeading n → ¬StartsTrailing after) :
    fourDigitEscape (digits ++ after) = (scalar (some n), after) := by
  simp only [fourDigitEscape, List.take_left' hl, List.drop_left' hl, codeNumber?_four h hl]
  by_cases hleading : IsLeading n
  · have hsurrogate : IsSurrogate n := ⟨hleading.1, Nat.lt_trans hleading.2 (by decide)⟩
    rw [if_pos (isLeading_iff.mpr hleading), trailingEscape?_eq_none (ha hleading),
      scalar_of_surrogate hsurrogate, replacement]
  · rw [if_neg (mt isLeading_iff.mp hleading)]

theorem joinSurrogates_valid {leading trailing : Nat} (h : IsLeading leading)
    (h' : IsTrailing trailing) : (joinSurrogates leading trailing).isValidChar := by
  obtain ⟨hlow, hhigh⟩ := h
  obtain ⟨hlow', hhigh'⟩ := h'
  have hpast : 0xDFFF < joinSurrogates leading trailing := by unfold joinSurrogates; omega
  have hlast : joinSurrogates leading trailing < 0x110000 := by unfold joinSurrogates; omega
  exact Or.inr ⟨hpast, hlast⟩

theorem fourDigitEscape_pair {second : List Char} {trailing : Nat} (h : Hex digits n)
    (hl : digits.length = 4) (hn : IsLeading n) (h' : Hex second trailing)
    (hl' : second.length = 4) (hn' : IsTrailing trailing) :
    fourDigitEscape (digits ++ ('\\' :: 'u' :: second ++ after)) =
      (ofUnits n trailing, after) := by
  have hscalar : scalar (some (joinSurrogates n trailing)) = ofUnits n trailing :=
    scalar_of_valid (joinSurrogates_valid hn hn')
  simp only [fourDigitEscape, List.take_left' hl, List.drop_left' hl, codeNumber?_four h hl,
    isLeading_iff.mpr hn, trailingEscape?_of_startsTrailing h' hl' hn', hscalar, if_true]

theorem bracedEscape_of_hex (h : Hex digits n) (hne : digits ≠ []) (hn : n < 0x110000) :
    bracedEscape (digits ++ '\x7d' :: after) = (scalar (some n), after) := by
  have hinside : ∀ c ∈ digits, (!decide (c = '\x7d')) = true := by
    intro c hc
    have hbrace : c ≠ '\x7d' := fun heq => absurd (heq ▸ h.isHex c hc) (by decide)
    simpa using hbrace
  have hnumber : codeNumber? digits = some n :=
    codeNumber?_of_hex h hne (Nat.lt_trans hn (by decide))
  simp [bracedEscape, List.takeWhile_append_of_pos hinside, List.dropWhile_append_of_pos hinside,
    hnumber]

theorem cookChars_plain {c : Char} (h : c ≠ '\\') :
    cookChars (c :: after) = c :: cookChars after := by
  rw [cookChars, if_neg h]

theorem cookChars_escape {text : List Char} {value : Option Char}
    (h : escape text = (value, after)) :
    cookChars ('\\' :: text) = value.toList ++ cookChars after := by
  rw [cookChars, if_pos rfl]
  cases value <;> split <;> simp_all

theorem escape_control {letter c : Char} (h : (letter, c) ∈ controls) :
    escape (letter :: after) = (some c, after) := by
  simp only [controls, List.mem_cons, Prod.mk.injEq, List.not_mem_nil, or_false] at h
  rcases h with ⟨rfl, rfl⟩ | ⟨rfl, rfl⟩ | ⟨rfl, rfl⟩ | ⟨rfl, rfl⟩ | ⟨rfl, rfl⟩ | ⟨rfl, rfl⟩ <;> rfl

theorem escape_unit (hb : digits.head? ≠ some '\x7b') {c : Char}
    (h : fourDigitEscape digits = (c, after)) : escape ('u' :: digits) = (some c, after) := by
  rw [escape, h]
  rintro rest rfl
  exact hb rfl

theorem escape_null (h : ¬StartsDecimal after) : escape ('0' :: after) = (some '\x00', after) := by
  rw [escape, if_neg (mt startsWithDecimal_iff.mp h)]

theorem escape_byte (h : Hex digits n) (hl : digits.length = 2) :
    escape ('x' :: digits ++ after) = (some (Char.ofNat n), after) := by
  have hlt : n < 0x100 := h.lt hl
  have hnumber : codeNumber? digits = some n :=
    codeNumber?_of_hex h (List.ne_nil_of_length_eq_add_one hl) (Nat.lt_trans hlt (by decide))
  have hvalid : n.isValidChar := Or.inl (Nat.lt_trans hlt (by decide))
  simp only [List.cons_append, escape, List.take_left' hl, List.drop_left' hl, hnumber,
    scalar_of_valid hvalid]

theorem escape_carriageReturn (h : after.head? ≠ some '\n') :
    escape ('\r' :: after) = (none, after) := by
  rw [escape]
  rintro rest rfl
  exact h rfl

theorem escape_other {c : Char} (h : c ∉ marked) (hz : c = '0' → StartsDecimal after) :
    escape (c :: after) = (some c, after) := by
  by_cases hzero : c = '0'
  · subst hzero
    rw [escape, if_pos (startsWithDecimal_iff.mpr (hz rfl))]
  · simp only [marked, controls, List.map_cons, List.map_nil, List.cons_append, List.nil_append,
      List.mem_cons, List.not_mem_nil, not_or] at h
    rw [escape] <;> simp_all

theorem escape_braced {text : List Char} {c : Char} (h : bracedEscape text = (c, after)) :
    escape ('u' :: '\x7b' :: text) = (some c, after) := by
  rw [escape, h]

theorem text_append_braced (digits after : List Char) :
    '\\' :: 'u' :: '\x7b' :: digits ++ ['\x7d'] ++ after =
      '\\' :: 'u' :: '\x7b' :: (digits ++ '\x7d' :: after) := by
  simp only [List.cons_append, List.append_assoc, List.nil_append]

theorem ne_nil_of_isSurrogate (h : Hex digits n) (hn : IsSurrogate n) : digits ≠ [] := by
  rintro rfl
  obtain rfl : 0 = n := h.value
  exact absurd hn.1 (by decide)

theorem head?_append_of_hex (h : Hex digits n) (hne : digits ≠ []) :
    (digits ++ after).head? ≠ some '\x7b' := by
  obtain ⟨c, rest, rfl⟩ := List.exists_cons_of_ne_nil hne
  intro heq
  obtain rfl : c = '\x7b' := Option.some.inj heq
  exact absurd (h.isHex '\x7b' List.mem_cons_self) (by decide)

/-- A piece is read whole, and what follows it is read as if it stood alone. -/
theorem cookChars_piece {piece : Piece} (h : Fits after piece) :
    cookChars (piece.text ++ after) = piece.value ++ cookChars after := by
  cases h with
  | plain h => exact cookChars_plain h
  | control h => exact cookChars_escape (escape_control h)
  | null h => exact cookChars_escape (escape_null h)
  | byte h hl => exact cookChars_escape (escape_byte h hl)
  | @unit digits n h hl hn =>
    have hread : fourDigitEscape (digits ++ after) = (scalar (some n), after) :=
      fourDigitEscape_single h hl fun hleading =>
        absurd ⟨hleading.1, Nat.lt_trans hleading.2 (by decide)⟩ hn
    rw [scalar_of_valid (isValidChar_four h hl hn)] at hread
    have hhead : (digits ++ after).head? ≠ some '\x7b' :=
      head?_append_of_hex h (List.ne_nil_of_length_eq_add_one hl)
    exact cookChars_escape (escape_unit hhead hread)
  | @pair first second leading trailing h hl hn h' hl' hn' =>
    have hread : fourDigitEscape (first ++ ('\\' :: 'u' :: second ++ after)) =
        (ofUnits leading trailing, after) := fourDigitEscape_pair h hl hn h' hl' hn'
    have hhead : (first ++ ('\\' :: 'u' :: second ++ after)).head? ≠ some '\x7b' :=
      head?_append_of_hex h (List.ne_nil_of_length_eq_add_one hl)
    rw [← List.append_assoc] at hread hhead
    exact cookChars_escape (escape_unit hhead hread)
  | @braced digits n h hne hn =>
    have hread : bracedEscape (digits ++ '\x7d' :: after) = (scalar (some n), after) :=
      bracedEscape_of_hex h hne (lt_of_isValidChar hn)
    rw [scalar_of_valid hn] at hread
    rw [text_append_braced]
    exact cookChars_escape (escape_braced hread)
  | @loneUnit digits n h hl hn ha =>
    have hread : fourDigitEscape (digits ++ after) = (scalar (some n), after) :=
      fourDigitEscape_single h hl ha
    rw [scalar_of_surrogate hn] at hread
    have hhead : (digits ++ after).head? ≠ some '\x7b' :=
      head?_append_of_hex h (List.ne_nil_of_length_eq_add_one hl)
    exact cookChars_escape (escape_unit hhead hread)
  | @loneBraced digits n h hn =>
    have hread : bracedEscape (digits ++ '\x7d' :: after) = (scalar (some n), after) :=
      bracedEscape_of_hex h (ne_nil_of_isSurrogate h hn) (Nat.lt_trans hn.2 (by decide))
    rw [scalar_of_surrogate hn] at hread
    rw [text_append_braced]
    exact cookChars_escape (escape_braced hread)
  | lineFeed => exact cookChars_escape rfl
  | lineBreak => exact cookChars_escape rfl
  | carriageReturn h => exact cookChars_escape (escape_carriageReturn h)
  | lineSeparator => exact cookChars_escape rfl
  | paragraphSeparator => exact cookChars_escape rfl
  | other h hz => exact cookChars_escape (escape_other h hz)

end Escapes

theorem cookChars_texts {pieces : List Piece} (h : AllFit pieces) :
    cookChars (texts pieces) = values pieces := by
  induction h with
  | nil => exact cookChars.eq_1
  | @cons piece rest hfits _ ih =>
    calc cookChars (texts (piece :: rest))
      _ = cookChars (piece.text ++ texts rest) := by rw [texts, texts, List.flatMap_cons]
      _ = piece.value ++ cookChars (texts rest) := cookChars_piece hfits
      _ = values (piece :: rest) := by rw [ih, values, values, List.flatMap_cons]

theorem values_of_map {cs : List Char} {pieces : List Piece}
    (h : pieces.map Piece.value = cs.map fun c => [c]) : values pieces = cs := by
  rw [values, List.flatMap_def, h, ← List.flatMap_def, List.flatMap_singleton']

theorem toNat_ofNat {n : Nat} (h : n.isValidChar) : (Char.ofNat n).toNat = n := by
  rw [Char.ofNat, dif_pos h]
  rfl

theorem toNat_ofUnits {leading trailing : Nat} (h : IsLeading leading) (h' : IsTrailing trailing) :
    (ofUnits leading trailing).toNat = joinSurrogates leading trailing :=
  toNat_ofNat (joinSurrogates_valid h h')

/-- The units of a number in UTF-16. -/
theorem exists_joinSurrogates {n : Nat} (hlow : 0x10000 ≤ n) (hhigh : n < 0x110000) :
    ∃ leading trailing, IsLeading leading ∧ IsTrailing trailing ∧
      joinSurrogates leading trailing = n := by
  obtain ⟨k, rfl⟩ := Nat.exists_eq_add_of_le hlow
  have hk : k / 0x400 < 0x400 := Nat.div_lt_of_lt_mul (by omega)
  have hmod : k % 0x400 < 0x400 := Nat.mod_lt _ (by decide)
  refine ⟨0xD800 + k / 0x400, 0xDC00 + k % 0x400, ⟨?_, ?_⟩, ⟨?_, ?_⟩, ?_⟩
  · exact Nat.le_add_right _ _
  · omega
  · exact Nat.le_add_right _ _
  · omega
  · unfold joinSurrogates
    rw [Nat.add_sub_cancel_left, Nat.add_sub_cancel_left, Nat.add_assoc, Nat.div_add_mod']

/-- Pairs stand for the characters past the first 0x10000, and for all of them. -/
theorem exists_ofUnits_iff {c : Char} :
    (∃ leading trailing, IsLeading leading ∧ IsTrailing trailing ∧ ofUnits leading trailing = c) ↔
      0x10000 ≤ c.toNat := by
  constructor
  · rintro ⟨leading, trailing, h, h', rfl⟩
    rw [toNat_ofUnits h h']
    unfold joinSurrogates
    omega
  · intro hc
    obtain ⟨leading, trailing, h, h', heq⟩ := exists_joinSurrogates hc (lt_of_isValidChar c.valid)
    refine ⟨leading, trailing, h, h', ?_⟩
    rw [← Char.ofNat_toNat c, ← heq]
    unfold ofUnits joinSurrogates
    rfl

/-- The value of a text is that of its pieces, so a string written character by character, each
as itself or as an escape, is read back. -/
theorem cook_pieces {pieces : List Piece} (h : AllFit pieces) :
    cook (String.ofList (texts pieces)) = String.ofList (values pieces) ∧
      (∀ s : String, pieces.map Piece.value = s.toList.map (fun c => [c]) →
        cook (String.ofList (texts pieces)) = s) ∧
      ∀ c : Char, 0x10000 ≤ c.toNat ↔ ∃ leading trailing, IsLeading leading ∧
        IsTrailing trailing ∧ ofUnits leading trailing = c := by
  have hcook : cook (String.ofList (texts pieces)) = String.ofList (values pieces) := by
    rw [cook, String.toList_ofList, cookChars_texts h]
  refine ⟨hcook, fun s hs => ?_, fun c => exists_ofUnits_iff.symm⟩
  rw [hcook, values_of_map hs, String.ofList_toList]

/-- Both kinds of pair, a leading surrogate that no trailing one follows, a zero before a digit
and a carriage return that no line feed follows. -/
def mixed : List Piece :=
  [⟨['\\', 'u', 'D', '8', '3', 'd'] ++ ['\\', 'u', 'D', 'E', '0', '0'], [ofUnits 0xD83D 0xDE00]⟩,
    ⟨['\\', 'u', '\x7b', '1', 'F', '6', '0', '0', '\x7d'], ['😀']⟩,
    ⟨['\\', 'u', 'D', '8', '3', 'D'], ['\uFFFD']⟩, ⟨['\\', 'x', '4', '1'], ['A']⟩,
    ⟨['\\', '0'], ['0']⟩, ⟨['7'], ['7']⟩, ⟨['\\', '0'], ['\x00']⟩, ⟨['\\', '\r'], []⟩,
    ⟨['\\', 'q'], ['q']⟩]

theorem mixed_allFit : AllFit mixed := by
  have hleading : Hex ['D', '8', '3', 'd'] 0xD83D := ⟨List.all_eq_true.mp rfl, rfl⟩
  have htrailing : Hex ['D', 'E', '0', '0'] 0xDE00 := ⟨List.all_eq_true.mp rfl, rfl⟩
  have hlone : Hex ['D', '8', '3', 'D'] 0xD83D := ⟨List.all_eq_true.mp rfl, rfl⟩
  have hbraced : Hex ['1', 'F', '6', '0', '0'] 0x1F600 := ⟨List.all_eq_true.mp rfl, rfl⟩
  have hbyte : Hex ['4', '1'] 0x41 := ⟨List.all_eq_true.mp rfl, rfl⟩
  refine .cons (.pair hleading rfl (by decide) htrailing rfl (by decide)) ?_
  refine .cons (.braced hbraced (by decide) (by decide)) ?_
  refine .cons (.loneUnit hlone rfl (by decide) fun _ => ?_) ?_
  · rintro ⟨digits, rest, n, heq, -⟩
    exact absurd (List.cons.inj (List.cons.inj heq).2).1 (by decide)
  refine .cons (.byte hbyte rfl) (.cons (.other (by decide) fun _ => ⟨'7', rfl, rfl⟩) ?_)
  refine .cons (.plain (by decide)) (.cons (.null ?_) ?_)
  · rintro ⟨digit, hdigit, hdecimal⟩
    obtain rfl : '\\' = digit := Option.some.inj hdigit
    exact absurd hdecimal (by decide)
  refine .cons (.carriageReturn (by decide)) (.cons (.other (by decide) fun hzero => ?_) .nil)
  exact absurd hzero (by decide)

theorem cook_mixed :
    AllFit mixed ∧ cook "\\uD83d\\uDE00\\u\x7b1F600\x7d\\uD83D\\x41\\07\\0\\\r\\q" =
      "😀😀\uFFFDA07\x00q" :=
  ⟨mixed_allFit, (cook_pieces mixed_allFit).1.trans (by decide)⟩

end Reprl.Text
