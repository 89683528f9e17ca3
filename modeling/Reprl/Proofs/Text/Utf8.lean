import Reprl.Text.Utf8

/-! Every text is encoded to bytes that decode to it. -/

namespace Reprl.Text

theorem between_iff {low b high : UInt8} :
    (low ≤ b && b ≤ high) = true ↔ low.toNat ≤ b.toNat ∧ b.toNat ≤ high.toNat := by
  simp [UInt8.le_iff_toNat_le]

theorem lead?_two {b : UInt8} (hl : 0xC2 ≤ b.toNat) (hh : b.toNat ≤ 0xDF) :
    lead? b = some ⟨b.toNat - 0xC0, 0x80, 0xBF, 0⟩ := by
  have h : (0xC2 ≤ b && b ≤ 0xDF) = true := between_iff.mpr ⟨hl, hh⟩
  simp only [lead?, h, if_true]

theorem lead?_three {b : UInt8} (hl : 0xE0 ≤ b.toNat) (hh : b.toNat ≤ 0xEF) :
    ∃ low high : UInt8, lead? b = some ⟨b.toNat - 0xE0, low, high, 1⟩ ∧
      low.toNat = (if b.toNat = 0xE0 then 0xA0 else 0x80) ∧
      high.toNat = (if b.toNat = 0xED then 0x9F else 0xBF) := by
  by_cases he : b = 0xE0
  · subst he
    exact ⟨0xA0, 0xBF, rfl, rfl, rfl⟩
  by_cases hd : b = 0xED
  · subst hd
    exact ⟨0x80, 0x9F, rfl, rfl, rfl⟩
  have htwo : ¬ (0xC2 ≤ b && b ≤ 0xDF) = true := fun h => by
    have hb : b.toNat ≤ 0xDF := (between_iff.mp h).2
    omega
  have hn : b.toNat ≠ 0xE0 := fun h => he (UInt8.toNat_inj.mp h)
  have hthree : (0xE1 ≤ b && b ≤ 0xEF) = true :=
    between_iff.mpr ⟨show 0xE1 ≤ b.toNat by omega, hh⟩
  have hm : b.toNat ≠ 0xED := fun h => hd (UInt8.toNat_inj.mp h)
  refine ⟨0x80, 0xBF, ?_, ?_, ?_⟩
  · rw [lead?, if_neg htwo, if_neg he, if_neg hd, if_pos hthree]
  · rw [if_neg hn]
    rfl
  · rw [if_neg hm]
    rfl

theorem lead?_four {b : UInt8} (hl : 0xF0 ≤ b.toNat) (hh : b.toNat ≤ 0xF4) :
    ∃ low high : UInt8, lead? b = some ⟨b.toNat - 0xF0, low, high, 2⟩ ∧
      low.toNat = (if b.toNat = 0xF0 then 0x90 else 0x80) ∧
      high.toNat = (if b.toNat = 0xF4 then 0x8F else 0xBF) := by
  have hcases : b = 0xF0 ∨ b = 0xF1 ∨ b = 0xF2 ∨ b = 0xF3 ∨ b = 0xF4 := by
    simp only [← UInt8.toNat_inj, UInt8.reduceToNat]
    omega
  rcases hcases with rfl | rfl | rfl | rfl | rfl
  · exact ⟨0x90, 0xBF, rfl, rfl, rfl⟩
  · exact ⟨0x80, 0xBF, rfl, rfl, rfl⟩
  · exact ⟨0x80, 0xBF, rfl, rfl, rfl⟩
  · exact ⟨0x80, 0xBF, rfl, rfl, rfl⟩
  · exact ⟨0x80, 0x8F, rfl, rfl, rfl⟩

theorem toNat_low (n : Nat) : (UInt8.ofNat (n % 64 + 0x80)).toNat = n % 64 + 0x80 := by
  rw [UInt8.toNat_ofNat']
  omega

theorem continuation_low (bits seen more n : Nat) (rest : Bytes) :
    continuation bits seen (more + 1) (UInt8.ofNat (n % 64 + 0x80) :: rest) =
      continuation (bits * 64 + n % 64) (seen + 1) more rest := by
  have hb : (0x80 ≤ UInt8.ofNat (n % 64 + 0x80) && UInt8.ofNat (n % 64 + 0x80) ≤ 0xBF) = true :=
    between_iff.mpr (by
      rw [toNat_low]
      exact ⟨Nat.le_add_left _ _, show n % 64 + 0x80 ≤ 0xBF by omega⟩)
  simp only [continuation, hb, if_true, toNat_low, Nat.add_sub_cancel]

theorem decodeChar_of_lead {first : UInt8} {lead : Lead} {n : Nat} (hf : 0x80 ≤ first.toNat)
    (hlead : lead? first = some lead) (hl : lead.low.toNat ≤ n % 64 + 0x80)
    (hh : n % 64 + 0x80 ≤ lead.high.toNat) (rest : Bytes) :
    decodeChar first (UInt8.ofNat (n % 64 + 0x80) :: rest) =
      continuation (lead.bits * 64 + n % 64) 2 lead.more rest := by
  have hascii : ¬ first < 0x80 := fun h => by
    have hb : first.toNat < 0x80 := UInt8.lt_iff_toNat_lt.mp h
    omega
  have hsecond : (lead.low ≤ UInt8.ofNat (n % 64 + 0x80) &&
      UInt8.ofNat (n % 64 + 0x80) ≤ lead.high) = true :=
    between_iff.mpr (by rw [toNat_low]; exact ⟨hl, hh⟩)
  simp only [decodeChar, hascii, if_false, hlead, hsecond, if_true, toNat_low, Nat.add_sub_cancel]

theorem decodeChar_one {n : Nat} (hh : n ≤ 0x7F) (rest : Bytes) :
    decodeChar (UInt8.ofNat n) rest = .ok (n, rest) := by
  have hn : (UInt8.ofNat n).toNat = n := by
    rw [UInt8.toNat_ofNat']
    omega
  have ha : UInt8.ofNat n < 0x80 :=
    UInt8.lt_iff_toNat_lt.mpr (by rw [hn]; exact show n < 0x80 by omega)
  simp only [decodeChar, ha, if_true, hn]

theorem decodeChar_two {n : Nat} (hl : 0x80 ≤ n) (hh : n ≤ 0x7FF) (rest : Bytes) :
    decodeChar (UInt8.ofNat (n / 64 % 0x20 + 0xC0)) (UInt8.ofNat (n % 64 + 0x80) :: rest) =
      .ok (n, rest) := by
  have hf : (UInt8.ofNat (n / 64 % 0x20 + 0xC0)).toNat = n / 64 % 0x20 + 0xC0 := by
    rw [UInt8.toNat_ofNat']
    omega
  have hlead := lead?_two (b := UInt8.ofNat (n / 64 % 0x20 + 0xC0)) (by omega) (by omega)
  have hn : (n / 64 % 0x20 + 0xC0 - 0xC0) * 64 + n % 64 = n := by omega
  rw [decodeChar_of_lead (by omega) hlead (Nat.le_add_left _ _) (show n % 64 + 0x80 ≤ 0xBF by omega)]
  simp only [continuation, hf, hn]

theorem decodeChar_three {n : Nat} (hl : 0x800 ≤ n) (hh : n ≤ 0xFFFF)
    (hs : n < 0xD800 ∨ 0xDFFF < n) (rest : Bytes) :
    decodeChar (UInt8.ofNat (n / 4096 % 0x10 + 0xE0))
        (UInt8.ofNat (n / 64 % 64 + 0x80) :: UInt8.ofNat (n % 64 + 0x80) :: rest) = .ok (n, rest) := by
  have hf : (UInt8.ofNat (n / 4096 % 0x10 + 0xE0)).toNat = n / 4096 % 0x10 + 0xE0 := by
    rw [UInt8.toNat_ofNat']
    omega
  obtain ⟨low, high, hlead, hlow, hhigh⟩ :=
    lead?_three (b := UInt8.ofNat (n / 4096 % 0x10 + 0xE0)) (by omega) (by omega)
  -- the first byte says how low and how high the second one may be
  have hfrom : low.toNat ≤ n / 64 % 64 + 0x80 := by split at hlow <;> omega
  have hto : n / 64 % 64 + 0x80 ≤ high.toNat := by split at hhigh <;> omega
  have hn : ((n / 4096 % 0x10 + 0xE0 - 0xE0) * 64 + n / 64 % 64) * 64 + n % 64 = n := by omega
  rw [decodeChar_of_lead (by omega) hlead hfrom hto, continuation_low]
  simp only [continuation, hf, hn]

theorem decodeChar_four {n : Nat} (hl : 0x10000 ≤ n) (hh : n < 0x110000) (rest : Bytes) :
    decodeChar (UInt8.ofNat (n / 262144 % 0x08 + 0xF0)) (UInt8.ofNat (n / 4096 % 64 + 0x80) ::
        UInt8.ofNat (n / 64 % 64 + 0x80) :: UInt8.ofNat (n % 64 + 0x80) :: rest) = .ok (n, rest) := by
  have hf : (UInt8.ofNat (n / 262144 % 0x08 + 0xF0)).toNat = n / 262144 % 0x08 + 0xF0 := by
    rw [UInt8.toNat_ofNat']
    omega
  obtain ⟨low, high, hlead, hlow, hhigh⟩ :=
    lead?_four (b := UInt8.ofNat (n / 262144 % 0x08 + 0xF0)) (by omega) (by omega)
  have hfrom : low.toNat ≤ n / 4096 % 64 + 0x80 := by split at hlow <;> omega
  have hto : n / 4096 % 64 + 0x80 ≤ high.toNat := by split at hhigh <;> omega
  have hn : (((n / 262144 % 0x08 + 0xF0 - 0xF0) * 64 + n / 4096 % 64) * 64 + n / 64 % 64) * 64 +
      n % 64 = n := by omega
  rw [decodeChar_of_lead (by omega) hlead hfrom hto, continuation_low, continuation_low]
  simp only [continuation, hf, hn]

theorem decodeChar_encodeChar (c : Char) (rest : Bytes) :
    ∃ first tail, String.utf8EncodeChar c = first :: tail ∧
      decodeChar first (tail ++ rest) = .ok (c.toNat, rest) := by
  have hvalid : c.toNat < 0xD800 ∨ 0xDFFF < c.toNat ∧ c.toNat < 0x110000 := c.valid
  rw [String.utf8EncodeChar, show c.val.toNat = c.toNat from rfl]
  by_cases hone : c.toNat ≤ 0x7F
  · rw [if_pos hone]
    exact ⟨_, [], rfl, decodeChar_one hone rest⟩
  by_cases htwo : c.toNat ≤ 0x7FF
  · rw [if_neg hone, if_pos htwo]
    exact ⟨_, [_], rfl, decodeChar_two (by omega) htwo rest⟩
  by_cases hthree : c.toNat ≤ 0xFFFF
  · rw [if_neg hone, if_neg htwo, if_pos hthree]
    exact ⟨_, [_, _], rfl, decodeChar_three (by omega) hthree (by omega) rest⟩
  · rw [if_neg hone, if_neg htwo, if_neg hthree]
    exact ⟨_, [_, _, _], rfl, decodeChar_four (by omega) (by omega) rest⟩

theorem decodeFrom_encode (text : String) (chars : List Char) {count : Nat}
    (hc : chars.length ≤ count) :
    decodeFrom text count (chars.flatMap String.utf8EncodeChar) = .ok (text ++ String.ofList chars) := by
  induction chars generalizing text count with
  | nil => simp [decodeFrom]
  | cons c rest ih =>
    obtain ⟨more, rfl⟩ : ∃ more, count = more + 1 := ⟨count - 1, by simp at hc; omega⟩
    obtain ⟨first, tail, he, hd⟩ := decodeChar_encodeChar c (rest.flatMap String.utf8EncodeChar)
    rw [List.flatMap_cons, he, List.cons_append, decodeFrom, hd]
    have hh := ih (text.push c) (show rest.length ≤ more by simpa using hc)
    have ht : text.push c ++ String.ofList rest = text ++ String.ofList (c :: rest) :=
      String.toList_injective (by simp)
    simp only [Char.ofNat_toNat, hh, ht]

theorem encode_eq (s : String) : encode s = s.toList.flatMap String.utf8EncodeChar := by
  rw [encode, String.toUTF8_eq_toByteArray, ← String.utf8Encode_toList, List.utf8Encode,
    List.toList_data_toByteArray]

theorem length_le_length_flatMap (chars : List Char) :
    chars.length ≤ (chars.flatMap String.utf8EncodeChar).length := by
  induction chars with
  | nil => exact Nat.le_refl 0
  | cons c rest ih =>
    have hc : 0 < (String.utf8EncodeChar c).length := List.length_pos_iff.mpr String.utf8EncodeChar_ne_nil
    rw [List.flatMap_cons, List.length_append, List.length_cons]
    omega

theorem decode_encode (s : String) : decode (encode s) = .ok s := by
  rw [decode, encode_eq, decodeFrom_encode "" s.toList (length_le_length_flatMap s.toList)]
  exact congrArg Except.ok (String.toList_injective (by simp))

theorem toList_loop (bytes : ByteArray) (i : Nat) (read : List UInt8) :
    ByteArray.toList.loop bytes i read = read.reverse ++ bytes.data.toList.drop i := by
  fun_induction ByteArray.toList.loop bytes i read with
  | case1 i read h ih =>
    have hi : i < bytes.data.toList.length := by simpa using h
    have hget : bytes.get! i = bytes.data.toList[i] := by
      rw [Array.getElem_toList]
      exact getElem!_pos bytes.data i h
    rw [ih, List.reverse_cons, List.append_assoc, List.drop_eq_getElem_cons hi, hget]
    rfl
  | case2 i read h =>
    have hend : bytes.data.toList.drop i = [] := List.drop_eq_nil_of_le (by simpa using h)
    rw [hend, List.append_nil]

theorem toList_toUTF8 (s : String) : s.toUTF8.toList = encode s := toList_loop s.toUTF8 0 []

theorem encode_append (s t : String) : encode (s ++ t) = encode s ++ encode t := by
  simp only [encode_eq, String.toList_append, List.flatMap_append]

end Reprl.Text
