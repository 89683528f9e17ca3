import Mathlib.Data.List.Induction
import Reprl.Proofs.Value.Index

/-! Arrays as maps from keys to values. Elements move from the named to the dense part as the
dense part grows; no reading tells where one is kept, except that an element that is not
there may read as undefined afterwards. -/

namespace Reprl.ArrayObject

/-- What the reading of a key may turn into while other keys are written. -/
inductive Settles (key : String) : Option Value → Option Value → Prop where
  | same (reading : Option Value) : Settles key reading reading
  | filled (h : (arrayIndex? key).isSome) : Settles key none (some .undefined)

theorem Settles.trans {key : String} {first second third : Option Value}
    (h : Settles key first second) (h' : Settles key second third) : Settles key first third := by
  cases h with
  | same => exact h'
  | filled hkey =>
    cases h'
    exact .filled hkey

theorem ne_length_of_index {key : String} {index : Nat} (h : arrayIndex? key = some index) :
    key ≠ "length" := by
  rintro rfl
  have hname : arrayIndex? "length" = none := by decide +kernel
  rw [hname] at h
  cases h

theorem get?_of_ne {key : String} (h : key ≠ "length") (a : ArrayObject) :
    a.get? key = ((arrayIndex? key).bind (a.elements[·]?)).or (a.extra.get? key) := by
  rw [get?, if_neg h]
  cases (arrayIndex? key).bind (a.elements[·]?) <;> rfl

theorem size_absorb (a : ArrayObject) (index : Nat) :
    (a.absorb index).elements.size = a.elements.size + 1 :=
  Array.size_push _

theorem size_absorbMany (a : ArrayObject) (count : Nat) :
    (a.absorbMany count).elements.size = a.elements.size + count := by
  induction count generalizing a with
  | zero => rfl
  | succ count ih =>
    rw [absorbMany, ih, size_absorb]
    omega

/-- A dense element at the end takes the place of the named one. -/
theorem get?_push_of_ne {a : ArrayObject} {key : String} (h : key ≠ "length")
    (hkey : key ≠ Number.decimalText a.elements.size) (value : Value) :
    get? { a with
      elements := a.elements.push value
      extra := a.extra.erase (Number.decimalText a.elements.size) } key = a.get? key := by
  rw [get?_of_ne h, get?_of_ne h, Table.get?_erase_of_ne _ hkey]
  cases hi : arrayIndex? key with
  | none => rfl
  | some index =>
    have hne : index ≠ a.elements.size := by
      rintro rfl
      exact hkey (arrayIndex?_eq_some_iff.mp hi).2
    simp only [Option.bind_some, Array.getElem?_push, if_neg hne]

theorem get?_push_self {a : ArrayObject} (hs : a.elements.size < indexLimit) (value : Value)
    (extra : Table Value) :
    get? { a with elements := a.elements.push value, extra } (Number.decimalText a.elements.size) =
      some value := by
  have hi := arrayIndex?_eq_some_iff.mpr ⟨hs, rfl⟩
  rw [get?_of_ne (ne_length_of_index hi), hi, Option.bind_some, Array.getElem?_push, if_pos rfl,
    Option.some_or]

theorem settles_absorb {a : ArrayObject} (hs : a.elements.size < indexLimit) {key : String}
    (h : key ≠ "length") : Settles key (a.get? key) ((a.absorb a.elements.size).get? key) := by
  by_cases hkey : key = Number.decimalText a.elements.size
  · have hi : arrayIndex? key = some a.elements.size := arrayIndex?_eq_some_iff.mpr ⟨hs, hkey⟩
    have hbefore : a.get? key = a.extra.get? key := by
      rw [get?_of_ne h, hi, Option.bind_some, Array.getElem?_eq_none (Nat.le_refl _), Option.none_or]
    rw [hbefore, hkey, absorb, get?_push_self hs]
    cases a.extra.get? (Number.decimalText a.elements.size) with
    | none => exact .filled (by rw [← hkey, hi]; rfl)
    | some value => exact .same _
  · rw [absorb, get?_push_of_ne h hkey]
    exact .same _

theorem settles_absorbMany {a : ArrayObject} {count : Nat} (hs : a.elements.size + count ≤ indexLimit)
    {key : String} (h : key ≠ "length") :
    Settles key (a.get? key) ((a.absorbMany count).get? key) := by
  induction count generalizing a with
  | zero => exact .same _
  | succ count ih =>
    refine (settles_absorb (by omega) h).trans (ih ?_)
    rw [size_absorb]
    omega

theorem get?_setIndex_self {a : ArrayObject} {key : String} {index : Nat}
    (hi : arrayIndex? key = some index) (value : Value) :
    (a.setIndex index key value).get? key = some value := by
  obtain ⟨hlimit, hkey⟩ := arrayIndex?_eq_some_iff.mp hi
  have h := ne_length_of_index hi
  simp only [setIndex]
  split
  · rename_i hdense
    rw [get?_of_ne h, hi, Option.bind_some, Array.getElem?_setIfInBounds_self_of_lt hdense,
      Option.some_or]
  · rename_i hdense
    split
    · have hsize : (a.absorbMany (index - a.elements.size)).elements.size = index := by
        rw [size_absorbMany]
        omega
      generalize a.absorbMany (index - a.elements.size) = b at hsize
      subst hsize hkey
      exact get?_push_self hlimit value _
    · rw [get?_of_ne h, hi, Option.bind_some, Array.getElem?_eq_none (Nat.le_of_not_lt hdense),
        Option.none_or, Table.get?_set_self]

theorem settles_setIndex {a : ArrayObject} {key other : String} {index : Nat}
    (hi : arrayIndex? key = some index) (value : Value) (h : other ≠ "length") (hne : other ≠ key) :
    Settles other (a.get? other) ((a.setIndex index key value).get? other) := by
  obtain ⟨hlimit, hkey⟩ := arrayIndex?_eq_some_iff.mp hi
  simp only [setIndex]
  split
  · have hother : ∀ at', arrayIndex? other = some at' → index ≠ at' := by
      rintro at' ho rfl
      exact hne ((arrayIndex?_eq_some_iff.mp ho).2.trans hkey.symm)
    rw [get?_of_ne h, get?_of_ne h]
    cases ho : arrayIndex? other with
    | none => exact .same _
    | some place =>
      simp only [Option.bind_some, Array.getElem?_setIfInBounds_ne (hother place ho)]
      exact .same _
  · split
    · rename_i hdense hnear
      have hsize : (a.absorbMany (index - a.elements.size)).elements.size = index := by
        rw [size_absorbMany]
        omega
      have habsorb : Settles other (a.get? other)
          ((a.absorbMany (index - a.elements.size)).get? other) := settles_absorbMany (by omega) h
      generalize a.absorbMany (index - a.elements.size) = b at hsize habsorb
      subst hsize hkey
      rw [get?_push_of_ne h hne]
      exact habsorb
    · rw [get?_of_ne h, get?_of_ne h, Table.get?_set_of_ne _ hne]
      exact .same _

theorem length_absorbMany (a : ArrayObject) (count : Nat) : (a.absorbMany count).length = a.length := by
  induction count generalizing a with
  | zero => rfl
  | succ count ih => exact ih _

theorem length_setIndex (a : ArrayObject) (index : Nat) (key : String) (value : Value) :
    (a.setIndex index key value).length = a.length := by
  simp only [setIndex]
  split
  · rfl
  · split
    · exact length_absorbMany a _
    · rfl

theorem get?_withLength {key : String} (h : key ≠ "length") (a : ArrayObject) (length : Nat) :
    get? { a with length } key = a.get? key := by
  rw [get?_of_ne h, get?_of_ne h]

theorem set_of_name {key : String} (hi : arrayIndex? key = none) (a : ArrayObject) (value : Value) :
    a.set key value = { a with extra := a.extra.set key value } := by
  rw [set, hi]

theorem set_of_index {key : String} {index : Nat} (hi : arrayIndex? key = some index)
    (a : ArrayObject) (value : Value) :
    a.set key value =
      { a.setIndex index key value with length := max a.length (min (index + 1) (indexLimit - 1)) } := by
  rw [set, hi]
  simp only [length_setIndex]

theorem get?_set_self (a : ArrayObject) {key : String} (h : key ≠ "length") (value : Value) :
    (a.set key value).get? key = some value := by
  cases hi : arrayIndex? key with
  | none => rw [set_of_name hi, get?_of_ne h, hi, Option.bind_none, Option.none_or, Table.get?_set_self]
  | some index => rw [set_of_index hi, get?_withLength h, get?_setIndex_self hi]

theorem settles_set (a : ArrayObject) {key other : String} (value : Value) (h : other ≠ "length")
    (hne : other ≠ key) : Settles other (a.get? other) ((a.set key value).get? other) := by
  cases hi : arrayIndex? key with
  | none =>
    rw [set_of_name hi, get?_of_ne h, get?_of_ne h, Table.get?_set_of_ne _ hne]
    exact .same _
  | some index =>
    rw [set_of_index hi, get?_withLength h (a.setIndex index key value)]
    exact settles_setIndex hi value h hne

/-- Arrays that differ in named properties only, and in what is kept by name under indices of
dense elements, which nothing reads. -/
structure Alike (a b : ArrayObject) : Prop where
  elements : a.elements = b.elements
  length : a.length = b.length
  extra {key : String} {index : Nat} : arrayIndex? key = some index → a.elements.size ≤ index →
    a.extra.get? key = b.extra.get? key

namespace Alike

theorem get?_eq {a b : ArrayObject} (h : Alike a b) {key : String} {index : Nat}
    (hi : arrayIndex? key = some index) : a.get? key = b.get? key := by
  have hl := ne_length_of_index hi
  rw [get?_of_ne hl, get?_of_ne hl, hi, Option.bind_some, Option.bind_some, ← h.elements]
  by_cases hdense : index < a.elements.size
  · rw [Array.getElem?_eq_getElem hdense, Option.some_or, Option.some_or]
  · rw [h.extra hi (Nat.le_of_not_lt hdense)]

theorem push {a b : ArrayObject} (h : Alike a b) (hs : a.elements.size < indexLimit) (value : Value) :
    let key := Number.decimalText a.elements.size
    Alike { a with elements := a.elements.push value, extra := a.extra.erase key }
      { b with elements := b.elements.push value, extra := b.extra.erase key } where
  elements := congrArg (·.push value) h.elements
  length := h.length
  extra {key index} hi hle := by
    have hgt : a.elements.size + 1 ≤ index := by simpa using hle
    have hne : key ≠ Number.decimalText a.elements.size := by
      rintro rfl
      have hsize := arrayIndex?_eq_some_iff.mpr ⟨hs, rfl⟩
      have heq := Option.some.inj (hi.symm.trans hsize)
      omega
    rw [Table.get?_erase_of_ne _ hne, Table.get?_erase_of_ne _ hne]
    exact h.extra hi (Nat.le_of_succ_le hgt)

theorem absorb {a b : ArrayObject} (h : Alike a b) (hs : a.elements.size < indexLimit) :
    Alike (a.absorb a.elements.size) (b.absorb b.elements.size) := by
  have hmoved := h.extra (arrayIndex?_eq_some_iff.mpr ⟨hs, rfl⟩) (Nat.le_refl _)
  rw [ArrayObject.absorb, ArrayObject.absorb, ← h.elements, ← hmoved]
  exact h.elements ▸ h.push hs _

theorem absorbMany {a b : ArrayObject} (h : Alike a b) {count : Nat}
    (hs : a.elements.size + count ≤ indexLimit) : Alike (a.absorbMany count) (b.absorbMany count) := by
  induction count generalizing a b with
  | zero => exact h
  | succ count ih =>
    refine ih (h.absorb (by omega)) ?_
    rw [size_absorb]
    omega

theorem setIndex {a b : ArrayObject} (h : Alike a b) {key : String} {index : Nat}
    (hi : arrayIndex? key = some index) (value : Value) :
    Alike (a.setIndex index key value) (b.setIndex index key value) := by
  obtain ⟨hlimit, hkey⟩ := arrayIndex?_eq_some_iff.mp hi
  simp only [ArrayObject.setIndex, ← h.elements]
  split
  · exact ⟨rfl, h.length, fun hi' hle => h.extra hi' (by simpa using hle)⟩
  · rename_i hdense
    split
    · have hroom : a.elements.size + (index - a.elements.size) ≤ indexLimit := by omega
      have hmany := h.absorbMany hroom
      have hsize : (a.absorbMany (index - a.elements.size)).elements.size = index := by
        rw [size_absorbMany]
        omega
      generalize a.absorbMany (index - a.elements.size) = a' at hmany hsize
      generalize b.absorbMany (index - a.elements.size) = b' at hmany
      subst hsize hkey
      exact hmany.push hlimit value
    · refine ⟨rfl, h.length, fun {other at'} hi' hle => ?_⟩
      by_cases hne : other = key
      · rw [hne, Table.get?_set_self, Table.get?_set_self]
      · rw [Table.get?_set_of_ne _ hne, Table.get?_set_of_ne _ hne]
        exact h.extra hi' hle

theorem set {a b : ArrayObject} (h : Alike a b) {key : String} {index : Nat}
    (hi : arrayIndex? key = some index) (value : Value) : Alike (a.set key value) (b.set key value) := by
  have hset := h.setIndex hi value
  rw [set_of_index hi, set_of_index hi, h.length]
  exact ⟨hset.elements, rfl, hset.extra⟩

theorem set_name {a b : ArrayObject} (h : Alike a b) {key : String} (hi : arrayIndex? key = none)
    (value : Value) : Alike (a.set key value) b := by
  rw [set_of_name hi]
  refine ⟨h.elements, h.length, fun {other index} hi' hle => ?_⟩
  have hne : other ≠ key := by
    rintro rfl
    rw [hi] at hi'
    cases hi'
  rw [Table.get?_set_of_ne _ hne]
  exact h.extra hi' hle

end Alike

/-- Writes values under keys, one after the other. -/
def setAll (a : ArrayObject) (writes : List (String × Value)) : ArrayObject :=
  writes.foldl (fun a write => a.set write.1 write.2) a

/-- What a plain map holds under a key after the same writes: the value that was written last,
or else the element that was there first. -/
def lastWritten (elements : Array Value) (writes : List (String × Value)) (key : String) :
    Option Value :=
  (writes.reverse.lookup key).or ((arrayIndex? key).bind (elements[·]?))

def writtenIndices (writes : List (String × Value)) : List Nat :=
  writes.filterMap fun write => arrayIndex? write.1

theorem setAll_append (a : ArrayObject) (writes : List (String × Value)) (write : String × Value) :
    a.setAll (writes ++ [write]) = (a.setAll writes).set write.1 write.2 :=
  List.foldl_append

theorem settles_setAll (a : ArrayObject) {key : String} (h : key ≠ "length")
    {writes : List (String × Value)} (hne : ∀ write ∈ writes, write.1 ≠ key) :
    Settles key (a.get? key) ((a.setAll writes).get? key) := by
  induction writes generalizing a with
  | nil => exact .same _
  | cons write rest ih =>
    have hfirst := settles_set a write.2 h (hne write List.mem_cons_self).symm
    exact hfirst.trans (ih _ fun later hmem => hne later (List.mem_cons_of_mem write hmem))

theorem lastWritten_append (elements : Array Value) (writes : List (String × Value)) (key other : String)
    (value : Value) :
    lastWritten elements (writes ++ [(key, value)]) other =
      if other = key then some value else lastWritten elements writes other := by
  simp only [lastWritten, List.reverse_append, List.reverse_singleton, List.singleton_append,
    List.lookup_cons]
  by_cases h : other = key
  · simp [h]
  · simp [h, beq_eq_false_iff_ne.mpr h]

theorem settles_lastWritten (elements : Array Value) (writes : List (String × Value)) {key : String}
    (h : key ≠ "length") :
    Settles key (lastWritten elements writes key) (((ofElements elements).setAll writes).get? key) := by
  induction writes using List.reverseRecOn with
  | nil =>
    have hstart : (ofElements elements).get? key = lastWritten elements [] key := by
      rw [get?_of_ne h]
      exact Option.or_none
    rw [← hstart]
    exact .same _
  | append_singleton writes write ih =>
    obtain ⟨written, value⟩ := write
    rw [setAll_append, lastWritten_append]
    by_cases hk : key = written
    · rw [if_pos hk, hk, get?_set_self _ (hk ▸ h)]
      exact .same _
    · rw [if_neg hk]
      exact ih.trans (settles_set _ value h hk)

theorem alike_setAll (a : ArrayObject) (writes : List (String × Value)) :
    Alike (a.setAll writes) (a.setAll (writes.filter fun write => (arrayIndex? write.1).isSome)) := by
  induction writes using List.reverseRecOn with
  | nil => exact ⟨rfl, rfl, fun _ _ => rfl⟩
  | append_singleton writes write ih =>
    rw [setAll_append, List.filter_append]
    cases hi : arrayIndex? write.1 with
    | none =>
      have hout : [write].filter (fun write => (arrayIndex? write.1).isSome) = [] := by simp [hi]
      rw [hout, List.append_nil]
      exact ih.set_name hi write.2
    | some index =>
      have hin : [write].filter (fun write => (arrayIndex? write.1).isSome) = [write] := by simp [hi]
      rw [hin, setAll_append]
      exact ih.set hi write.2

theorem length_setAll (a : ArrayObject) (writes : List (String × Value)) :
    (a.setAll writes).length =
      match (writtenIndices writes).max? with
      | none => a.length
      | some index => max a.length (min (index + 1) (indexLimit - 1)) := by
  induction writes generalizing a with
  | nil => rfl
  | cons write rest ih =>
    have hlater : (a.setAll (write :: rest)).length = ((a.set write.1 write.2).setAll rest).length := rfl
    rw [hlater, ih]
    cases hi : arrayIndex? write.1 with
    | none =>
      have hnone : writtenIndices (write :: rest) = writtenIndices rest := by simp [writtenIndices, hi]
      rw [hnone, set_of_name hi]
    | some index =>
      have hsome : writtenIndices (write :: rest) = index :: writtenIndices rest := by
        simp [writtenIndices, hi]
      rw [hsome, set_of_index hi, List.max?_cons]
      generalize indexLimit - 1 = limit
      cases (writtenIndices rest).max? with
      | none => simp only [Option.elim_none]
      | some largest =>
        simp only [Option.elim_some]
        omega

/-- After any writes an array reads as a plain map from keys to values would, and its length
counts to the largest index written. Keys that are no indices change neither its elements nor
its length. -/
theorem reads_as_plain_map (elements : Array Value) (writes : List (String × Value)) :
    let a := (ofElements elements).setAll writes
    let indexed := (ofElements elements).setAll (writes.filter fun write => (arrayIndex? write.1).isSome)
    (∀ key, key ≠ "length" → Settles key (lastWritten elements writes key) (a.get? key)) ∧
    (∀ key later, key ≠ "length" → (∀ write ∈ later, write.1 ≠ key) →
      Settles key (a.get? key) ((a.setAll later).get? key)) ∧
    (a.length =
      match (writtenIndices writes).max? with
      | none => elements.size
      | some index => max elements.size (min (index + 1) 0xFFFFFFFFFFFFFFFF)) ∧
    a.get? "length" = some (.number (lengthNumber a.length)) ∧
    (a.elements = indexed.elements ∧ a.length = indexed.length ∧
      ∀ key, (arrayIndex? key).isSome → a.get? key = indexed.get? key) ∧
    ∀ key index, arrayIndex? key = some index ↔
      index < 0x10000000000000000 ∧ key = Number.decimalText index := by
  intro a indexed
  have halike : Alike a indexed := alike_setAll (ofElements elements) writes
  refine ⟨fun key h => settles_lastWritten elements writes h,
    fun key later h hne => settles_setAll a h hne, length_setAll (ofElements elements) writes,
    rfl, ⟨halike.elements, halike.length, fun key hkey => ?_⟩,
    fun key index => arrayIndex?_eq_some_iff⟩
  obtain ⟨index, hi⟩ := Option.isSome_iff_exists.mp hkey
  exact halike.get?_eq hi

/-- The first write is far beyond the dense elements, and the fourth one moves it there. -/
def scatteredWrites : List (String × Value) :=
  [("1500", .bool true), ("600", .null), ("01", .string "name"), ("1501", .bool false),
    ("length", .null), ("18446744073709551616", .null)]

theorem readings_of_scatteredWrites :
    ∃ a, a = (ofElements #[.string "first"]).setAll scatteredWrites ∧
      a.get? "0" = some (.string "first") ∧ a.get? "1500" = some (.bool true) ∧
      a.get? "01" = some (.string "name") ∧
      (a.get? "1000" = none ∨ a.get? "1000" = some .undefined) ∧ a.length = 1502 ∧
      (a.setAll [("0", .null)]).get? "1500" = some (.bool true) := by
  obtain ⟨hread, hlater, hlength, -⟩ := reads_as_plain_map #[.string "first"] scatteredWrites
  obtain ⟨a, ha⟩ : ∃ a, a = (ofElements #[.string "first"]).setAll scatteredWrites := ⟨_, rfl⟩
  rw [← ha] at hread hlater hlength
  have hkeeps : ∀ {key : String} {value : Value} {reading : Option Value},
      Settles key (some value) reading → reading = some value := fun h => by
    cases h
    rfl
  have hnear : a.get? "1500" = some (.bool true) := hkeeps (hread "1500" (by decide))
  have hhole : lastWritten #[.string "first"] scatteredWrites "1000" = none := by decide +kernel
  have hempty := hread "1000" (by decide)
  have hkept := hlater "1500" [("0", .null)] (by decide) (by simp)
  rw [hhole] at hempty
  rw [hnear] at hkept
  refine ⟨a, ha, hkeeps (hread "0" (by decide)), hnear, hkeeps (hread "01" (by decide)), ?_,
    hlength.trans (by decide +kernel), hkeeps hkept⟩
  generalize a.get? "1000" = reading at hempty
  cases hempty with
  | same => exact .inl rfl
  | filled => exact .inr rfl

end Reprl.ArrayObject
