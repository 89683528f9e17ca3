import Reprl.Proofs.Value.ArrayObject

/-! The elements of an array in order. Arrays that were made from elements and written to keep
no element by name that lies in the dense part or past the end, so that laying the named ones
out between the dense ones gives what reading each index gives. -/

namespace Reprl

namespace ArrayObject

/-- The element that a script finds at an index. -/
def element (a : ArrayObject) (index : Nat) : Value :=
  (a.get? (Number.decimalText index)).getD .undefined

/-- The elements up to the length, one index after the other. -/
def elementsInOrder (a : ArrayObject) : List Value := (List.range a.length).map a.element

/-- Named elements lie past the dense ones. -/
structure Tidy (a : ArrayObject) : Prop where
  beyond {key : String} {index : Nat} (hi : arrayIndex? key = some index)
    (hk : (a.extra.get? key).isSome) : a.elements.size ≤ index

/-- What holds of arrays that were made from elements and written to. -/
structure Sound (a : ArrayObject) : Prop extends Tidy a where
  covers : min a.elements.size (indexLimit - 1) ≤ a.length
  within {key : String} {index : Nat} (hi : arrayIndex? key = some index)
    (hk : (a.extra.get? key).isSome) : min (index + 1) (indexLimit - 1) ≤ a.length

theorem isSome_of_erase {t : Table Value} {name key : String}
    (hk : ((t.erase name).get? key).isSome) : key ≠ name ∧ (t.get? key).isSome := by
  by_cases hkey : key = name
  · rw [hkey, Table.get?_erase_self] at hk
    cases hk
  · rw [Table.get?_erase_of_ne _ hkey] at hk
    exact ⟨hkey, hk⟩

theorem isSome_of_absorbMany {a : ArrayObject} {count : Nat} {key : String}
    (hk : ((a.absorbMany count).extra.get? key).isSome) : (a.extra.get? key).isSome := by
  induction count generalizing a with
  | zero => exact hk
  | succ count ih => exact (isSome_of_erase (ih hk)).2

theorem isSome_of_setIndex {a : ArrayObject} {key other : String} {index : Nat} {value : Value}
    (hk : ((a.setIndex index key value).extra.get? other).isSome) :
    other = key ∨ (a.extra.get? other).isSome := by
  rw [setIndex] at hk
  split at hk
  · exact .inr hk
  · split at hk
    · exact .inr (isSome_of_absorbMany (isSome_of_erase hk).2)
    · by_cases hother : other = key
      · exact .inl hother
      · rw [Table.get?_set_of_ne _ hother] at hk
        exact .inr hk

namespace Tidy

variable {a : ArrayObject}

/-- A dense element takes the first place past the dense part. -/
theorem push (h : Tidy a) (value : Value) :
    Tidy { a with
      elements := a.elements.push value
      extra := a.extra.erase (Number.decimalText a.elements.size) } where
  beyond {key index} hi hk := by
    obtain ⟨hne, hbefore⟩ := isSome_of_erase hk
    have hle : a.elements.size ≤ index := h.beyond hi hbefore
    have hother : a.elements.size ≠ index := by
      rintro rfl
      exact hne (arrayIndex?_eq_some_iff.mp hi).2
    rw [Array.size_push]
    omega

theorem absorbMany (h : Tidy a) (count : Nat) : Tidy (a.absorbMany count) := by
  induction count generalizing a with
  | zero => exact h
  | succ count ih => exact ih (h.push _)

theorem setIndex (h : Tidy a) {key : String} {index : Nat} (hi : arrayIndex? key = some index)
    (value : Value) : Tidy (a.setIndex index key value) := by
  obtain ⟨-, hkey⟩ := arrayIndex?_eq_some_iff.mp hi
  rw [ArrayObject.setIndex]
  split
  · refine ⟨fun hi' hk => ?_⟩
    rw [Array.size_setIfInBounds]
    exact h.beyond hi' hk
  · rename_i hdense
    split
    · have hsize : (a.absorbMany (index - a.elements.size)).elements.size = index := by
        rw [size_absorbMany]
        omega
      have hpush := (h.absorbMany (index - a.elements.size)).push value
      rw [hsize, ← hkey] at hpush
      exact hpush
    · refine ⟨fun {other place} hi' hk => ?_⟩
      by_cases hother : other = key
      · rw [hother, hi, Option.some.injEq] at hi'
        exact hi' ▸ Nat.le_of_not_lt hdense
      · rw [Table.get?_set_of_ne _ hother] at hk
        exact h.beyond hi' hk

end Tidy

theorem size_setIndex_le (a : ArrayObject) (index : Nat) (key : String) (value : Value) :
    (a.setIndex index key value).elements.size ≤ max a.elements.size (index + 1) := by
  rw [setIndex]
  split
  · rw [Array.size_setIfInBounds]
    exact Nat.le_max_left _ _
  · split
    · rw [Array.size_push, size_absorbMany]
      omega
    · exact Nat.le_max_left _ _

namespace Sound

variable {a : ArrayObject}

theorem ofElements (elements : Array Value) : Sound (ofElements elements) where
  beyond _ hk := by cases hk
  covers := Nat.min_le_left _ _
  within _ hk := by cases hk

theorem set (h : Sound a) (key : String) (value : Value) : Sound (a.set key value) := by
  cases hi : arrayIndex? key with
  | none =>
    rw [set_of_name hi]
    have hother {other : String} {index : Nat} (hi' : arrayIndex? other = some index)
        (hk : ((a.extra.set key value).get? other).isSome) : (a.extra.get? other).isSome := by
      have hne : other ≠ key := by
        rintro rfl
        rw [hi] at hi'
        cases hi'
      rwa [Table.get?_set_of_ne _ hne] at hk
    exact {
      beyond := fun hi' hk => h.beyond hi' (hother hi' hk)
      covers := h.covers
      within := fun hi' hk => h.within hi' (hother hi' hk) }
  | some index =>
    rw [set_of_index hi]
    refine ⟨⟨(h.toTidy.setIndex hi value).beyond⟩, ?_, fun {other place} hi' hk => ?_⟩
    · have hsize : (a.setIndex index key value).elements.size ≤ max a.elements.size (index + 1) :=
        size_setIndex_le a index key value
      have hcovers := h.covers
      simp only
      omega
    · rcases isSome_of_setIndex hk with hother | hbefore
      · rw [hother, hi, Option.some.injEq] at hi'
        exact hi' ▸ Nat.le_max_right _ _
      · exact Nat.le_trans (h.within hi' hbefore) (Nat.le_max_left _ _)

theorem setAll (h : Sound a) (writes : List (String × Value)) : Sound (a.setAll writes) := by
  induction writes generalizing a with
  | nil => exact h
  | cons write rest ih => exact ih (h.set write.1 write.2)

end Sound

/-- The value at a place of what is laid out, undefined past its end. -/
def valueAt (values : Array Value) (i : Nat) : Value := (values[i]?).getD .undefined

theorem size_padTo (values : Array Value) (size : Nat) :
    (padTo values size).size = max values.size size := by
  rw [padTo, Array.size_append, Array.size_replicate]
  omega

theorem valueAt_padTo (values : Array Value) (size i : Nat) :
    valueAt (padTo values size) i = valueAt values i := by
  rw [valueAt, valueAt, padTo, Array.getElem?_append]
  split
  · rfl
  · rename_i hpast
    rw [Array.getElem?_eq_none (Nat.le_of_not_lt hpast), Array.getElem?_replicate]
    split <;> rfl

theorem valueAt_push (values : Array Value) (value : Value) (i : Nat) :
    valueAt (values.push value) i = if i = values.size then value else valueAt values i := by
  rw [valueAt, Array.getElem?_push]
  split <;> rfl

/-- One named element laid out behind what lies before it. -/
def place (values : Array Value) (entry : Nat × Value) : Array Value :=
  (padTo values entry.1).push entry.2

theorem size_place {values : Array Value} {entry : Nat × Value} (h : values.size ≤ entry.1) :
    (place values entry).size = entry.1 + 1 := by
  rw [place, Array.size_push, size_padTo, Nat.max_eq_right h]

theorem valueAt_place {values : Array Value} {entry : Nat × Value} (h : values.size ≤ entry.1)
    (i : Nat) : valueAt (place values entry) i = if i = entry.1 then entry.2 else valueAt values i := by
  rw [place, valueAt_push, size_padTo, Nat.max_eq_right h, valueAt_padTo]

theorem valueAt_foldl_place {entries : List (Nat × Value)} {values : Array Value}
    (hsorted : entries.Pairwise fun x y => x.1 < y.1) (hpast : ∀ entry ∈ entries, values.size ≤ entry.1)
    (i : Nat) :
    valueAt (entries.foldl place values) i = (entries.lookup i).getD (valueAt values i) := by
  induction entries generalizing values with
  | nil => rfl
  | cons entry rest ih =>
    obtain ⟨hfirst, hrest⟩ := List.pairwise_cons.mp hsorted
    have hplace : values.size ≤ entry.1 := hpast entry List.mem_cons_self
    have hlater : ∀ later ∈ rest, (place values entry).size ≤ later.1 := by
      intro later hmem
      rw [size_place hplace]
      exact hfirst later hmem
    rw [List.foldl_cons, ih hrest hlater, valueAt_place hplace, List.lookup_cons]
    by_cases hi : i = entry.1
    · have hnone : rest.lookup i = none := by
        rw [List.lookup_eq_none_iff]
        intro later hmem
        have hlt := hfirst later hmem
        exact bne_iff_ne.mpr (by omega)
      rw [hnone, if_pos hi, hi, beq_self_eq_true]
      rfl
    · rw [if_neg hi, beq_eq_false_iff_ne.mpr hi]

theorem lookup_eq_some_iff_mem {entries : List (Nat × Value)}
    (hsorted : entries.Pairwise fun x y => x.1 < y.1) {i : Nat} {value : Value} :
    entries.lookup i = some value ↔ (i, value) ∈ entries := by
  induction entries with
  | nil => simp
  | cons entry rest ih =>
    obtain ⟨hfirst, hrest⟩ := List.pairwise_cons.mp hsorted
    rw [List.lookup_cons, List.mem_cons]
    by_cases hi : i = entry.1
    · have hlater : (i, value) ∉ rest := fun hmem => Nat.ne_of_gt (hfirst _ hmem) hi
      subst hi
      simp [hlater, Prod.ext_iff, eq_comm]
    · have hother : (i, value) ≠ entry := fun heq => hi (congrArg (·.1) heq)
      simp only [beq_eq_false_iff_ne.mpr hi, hother, false_or]
      exact ih hrest

theorem size_foldl_place_le {entries : List (Nat × Value)} {values : Array Value} {bound : Nat}
    (hsorted : entries.Pairwise fun x y => x.1 < y.1) (hpast : ∀ entry ∈ entries, values.size ≤ entry.1)
    (hs : values.size ≤ bound) (hbound : ∀ entry ∈ entries, entry.1 < bound) :
    (entries.foldl place values).size ≤ bound := by
  induction entries generalizing values with
  | nil => exact hs
  | cons entry rest ih =>
    obtain ⟨hfirst, hrest⟩ := List.pairwise_cons.mp hsorted
    have hsize : (place values entry).size = entry.1 + 1 := size_place (hpast entry List.mem_cons_self)
    refine ih hrest ?_ ?_ fun later hmem => hbound later (List.mem_cons_of_mem entry hmem)
    · intro later hmem
      rw [hsize]
      exact hfirst later hmem
    · rw [hsize]
      exact hbound entry List.mem_cons_self

theorem mem_sparse_iff {a : ArrayObject} {index : Nat} {value : Value} :
    (index, value) ∈ a.sparse ↔
      index < indexLimit ∧ a.extra.get? (Number.decimalText index) = some value := by
  rw [sparse, List.mem_mergeSort, List.mem_filterMap]
  constructor
  · rintro ⟨⟨key, named⟩, hmem, hplace⟩
    obtain ⟨place, hi, heq⟩ := Option.map_eq_some_iff.mp hplace
    cases heq
    obtain ⟨hlimit, rfl⟩ := arrayIndex?_eq_some_iff.mp hi
    exact ⟨hlimit, Table.mem_entries_iff.mp hmem⟩
  · rintro ⟨hlimit, hvalue⟩
    have hi := arrayIndex?_eq_some_iff.mpr ⟨hlimit, rfl⟩
    exact ⟨_, Table.mem_entries_iff.mpr hvalue, Option.map_eq_some_iff.mpr ⟨index, hi, rfl⟩⟩

theorem sparse_sorted (a : ArrayObject) : a.sparse.Pairwise fun x y => x.1 < y.1 := by
  have horder : a.sparse.Pairwise fun x y => decide (x.1 ≤ y.1) = true := by
    apply List.pairwise_mergeSort
    · intro x y z hxy hyz
      simp only [decide_eq_true_eq] at hxy hyz ⊢
      exact Nat.le_trans hxy hyz
    · intro x y
      simp only [Bool.or_eq_true, decide_eq_true_eq]
      exact Nat.le_total x.1 y.1
  have hkeys : a.extra.entries.Pairwise fun x y => x.1 ≠ y.1 := List.pairwise_map.mp a.extra.unique
  have hplaces : a.sparse.Pairwise fun x y => x.1 ≠ y.1 := by
    refine (List.mergeSort_perm _ _).symm.pairwise (List.Pairwise.filterMap _ ?_ hkeys) fun h => h.symm
    rintro x y hne first hx second hy heq
    obtain ⟨i, hi, rfl⟩ := Option.map_eq_some_iff.mp hx
    obtain ⟨j, hj, rfl⟩ := Option.map_eq_some_iff.mp hy
    obtain rfl : i = j := heq
    exact hne ((arrayIndex?_eq_some_iff.mp hi).2.trans (arrayIndex?_eq_some_iff.mp hj).2.symm)
  refine (horder.and hplaces).imp fun hxy => ?_
  exact Nat.lt_of_le_of_ne (of_decide_eq_true hxy.1) hxy.2

theorem lookup_sparse (a : ArrayObject) {index : Nat} (hlimit : index < indexLimit) :
    a.sparse.lookup index = a.extra.get? (Number.decimalText index) := by
  refine Option.ext fun value => ?_
  rw [lookup_eq_some_iff_mem a.sparse_sorted, mem_sparse_iff, and_iff_right hlimit]

theorem toList_eq_map {values : Array Value} {n : Nat} {f : Nat → Value} (hs : values.size = n)
    (hf : ∀ i < n, valueAt values i = f i) : values.toList = (List.range n).map f := by
  refine List.ext_getElem ?_ fun i hi hi' => ?_
  · rw [Array.length_toList, hs, List.length_map, List.length_range]
  · have hlt : i < values.size := hi
    rw [List.getElem_map, List.getElem_range, ← hf i (hs ▸ hlt), valueAt,
      Array.getElem?_eq_getElem hlt, Option.getD_some, Array.getElem_toList]

theorem element_of_dense {a : ArrayObject} {index : Nat} (hlimit : index < indexLimit)
    (hdense : index < a.elements.size) : a.element index = valueAt a.elements index := by
  have hi := arrayIndex?_eq_some_iff.mpr ⟨hlimit, rfl⟩
  rw [element, get?_of_ne (ne_length_of_index hi), hi, Option.bind_some, valueAt,
    Array.getElem?_eq_getElem hdense, Option.some_or]

theorem element_of_named {a : ArrayObject} {index : Nat} (hlimit : index < indexLimit)
    (hdense : a.elements.size ≤ index) :
    a.element index = (a.extra.get? (Number.decimalText index)).getD .undefined := by
  have hi := arrayIndex?_eq_some_iff.mpr ⟨hlimit, rfl⟩
  rw [element, get?_of_ne (ne_length_of_index hi), hi, Option.bind_some,
    Array.getElem?_eq_none hdense, Option.none_or]

namespace Sound

variable {a : ArrayObject}

theorem valueAt_laidOut (h : Sound a) {index : Nat} (hlimit : index < indexLimit) :
    valueAt (a.sparse.foldl place a.elements) index = a.element index := by
  have hpast : ∀ entry ∈ a.sparse, a.elements.size ≤ entry.1 := by
    intro entry hmem
    obtain ⟨hentry, hvalue⟩ := mem_sparse_iff.mp hmem
    exact h.beyond (arrayIndex?_eq_some_iff.mpr ⟨hentry, rfl⟩) (by rw [hvalue]; rfl)
  rw [valueAt_foldl_place a.sparse_sorted hpast, a.lookup_sparse hlimit]
  by_cases hdense : index < a.elements.size
  · have hi := arrayIndex?_eq_some_iff.mpr ⟨hlimit, rfl⟩
    have hnone : a.extra.get? (Number.decimalText index) = none := by
      rw [← Option.not_isSome_iff_eq_none]
      intro hk
      exact Nat.not_lt_of_le (h.beyond hi hk) hdense
    rw [hnone, element_of_dense hlimit hdense]
    rfl
  · have hsize : a.elements.size ≤ index := Nat.le_of_not_lt hdense
    rw [element_of_named hlimit hsize, valueAt, Array.getElem?_eq_none hsize, Option.getD_none]

/-- Laying out the elements gives what reading them one by one gives. -/
theorem toList_values (h : Sound a) (hl : a.length < indexLimit - 1) :
    a.values.toList = a.elementsInOrder := by
  have hcovers := h.covers
  have hlimit : ∀ index < a.length, index < indexLimit := fun index hlt => by omega
  rw [values]
  split
  · have hsize : a.elements.size = a.length := by omega
    refine toList_eq_map hsize fun index hlt => ?_
    rw [element_of_dense (hlimit index hlt) (by omega)]
  · have hpast : ∀ entry ∈ a.sparse, a.elements.size ≤ entry.1 ∧ entry.1 < a.length := by
      intro entry hmem
      obtain ⟨hentry, hvalue⟩ := mem_sparse_iff.mp hmem
      have hi := arrayIndex?_eq_some_iff.mpr ⟨hentry, rfl⟩
      have hk : (a.extra.get? (Number.decimalText entry.1)).isSome := by
        rw [hvalue]
        rfl
      have hwithin := h.within hi hk
      exact ⟨h.beyond hi hk, by omega⟩
    have hfilled : (a.sparse.foldl place a.elements).size ≤ a.length :=
      size_foldl_place_le a.sparse_sorted (fun entry hmem => (hpast entry hmem).1) (by omega)
        fun entry hmem => (hpast entry hmem).2
    have hlaid : (padTo (a.sparse.foldl place a.elements) a.length).size = a.length := by
      rw [size_padTo, Nat.max_eq_right hfilled]
    have hread : ∀ index < a.length,
        valueAt (padTo (a.sparse.foldl place a.elements) a.length) index = a.element index := by
      intro index hlt
      rw [valueAt_padTo, h.valueAt_laidOut (hlimit index hlt)]
    have hwhole : (padTo (a.sparse.foldl place a.elements) a.length).take a.length =
        padTo (a.sparse.foldl place a.elements) a.length :=
      Array.extract_eq_self_of_le (Nat.le_of_eq hlaid)
    exact (congrArg Array.toList hwhole).trans (toList_eq_map hlaid hread)

end Sound

theorem size_set_le (a : ArrayObject) (key : String) (value : Value) :
    a.elements.size ≤ (a.set key value).elements.size ∧
      (a.set key value).elements.size ≤ a.elements.size + denseSlack := by
  cases hi : arrayIndex? key with
  | none =>
    rw [set_of_name hi]
    exact ⟨Nat.le_refl _, Nat.le_add_right _ _⟩
  | some index =>
    rw [set_of_index hi]
    simp only [setIndex]
    split
    · simp
    · split
      · simp only [Array.size_push, size_absorbMany]
        omega
      · simp

theorem getElem?_values {a : ArrayObject} (h : Sound a) (hl : a.length < indexLimit - 1) {i : Nat}
    (hi : i < a.length) : a.values[i]? = some (a.element i) := by
  rw [← Array.getElem?_toList, h.toList_values hl, elementsInOrder, List.getElem?_map,
    List.getElem?_range hi, Option.map_some]

/-- However an array was made and written to, up to the greatest length its dense part lies before
the elements kept by name, and these have different names, all below the length. So the elements
in order are as many as the length says, and each is what reading its index gives. A write lets the
dense part grow by no more than the slack. -/
theorem dense_part_before_named_elements (elements : Array Value) (writes : List (String × Value)) :
    let a := (ofElements elements).setAll writes
    a.extra.keys.Nodup ∧
    (∀ key index, arrayIndex? key = some index → (a.extra.get? key).isSome →
      a.elements.size ≤ index) ∧
    (∀ key value, a.elements.size ≤ (a.set key value).elements.size ∧
      (a.set key value).elements.size ≤ a.elements.size + 1024) ∧
    (a.length < 0xFFFFFFFFFFFFFFFF →
      (∀ key index, arrayIndex? key = some index →
        (a.extra.get? key).isSome ∨ index < a.elements.size → index < a.length) ∧
      a.values.size = a.length ∧
      ∀ i < a.length, a.values[i]? = some ((a.get? (Number.decimalText i)).getD .undefined)) := by
  intro a
  have hsound : Sound a := (Sound.ofElements elements).setAll writes
  refine ⟨a.extra.unique, fun key index => hsound.beyond, a.size_set_le, fun hl => ⟨?_, ?_, ?_⟩⟩
  · have hlimit : indexLimit - 1 = 0xFFFFFFFFFFFFFFFF := rfl
    intro key index hi hstored
    rcases hstored with hnamed | hdense
    · have hwithin := hsound.within hi hnamed
      omega
    · have hcovers := hsound.covers
      omega
  · rw [← Array.length_toList, hsound.toList_values hl, elementsInOrder, List.length_map,
      List.length_range]
  · exact fun i hi => getElem?_values hsound hl hi

theorem setAll_cons (a : ArrayObject) (write : String × Value) (rest : List (String × Value)) :
    a.setAll (write :: rest) = (a.set write.1 write.2).setAll rest := rfl

theorem Settles.eq_of_some {key : String} {value : Value} {reading : Option Value}
    (h : Settles key (some value) reading) : reading = some value := by
  cases h
  rfl

/-- The first write is kept by name, and moves when the last one makes the dense part grow past it. -/
def gapWrites : List (String × Value) :=
  [("1030", .bool true), ("3", .null), ("03", .string "name"), ("1027", .null), ("1031", .null)]

theorem values_of_gapWrites :
    ∃ a, a = (ofElements #[.string "first"]).setAll gapWrites ∧ a.length = 1032 ∧
      a.values.size = 1032 ∧ a.values[1030]? = some (.bool true) := by
  obtain ⟨a, ha⟩ : ∃ a, a = (ofElements #[.string "first"]).setAll gapWrites := ⟨_, rfl⟩
  obtain ⟨-, -, -, hvalues⟩ := dense_part_before_named_elements #[.string "first"] gapWrites
  have hlength : ((ofElements #[.string "first"]).setAll gapWrites).length = 1032 :=
    (length_setAll _ _).trans (by decide +kernel)
  obtain ⟨-, hsize, hread⟩ := hvalues (by omega)
  rw [← ha] at hlength hsize hread
  have hfirst : a = ((ofElements #[.string "first"]).set "1030" (.bool true)).setAll gapWrites.tail :=
    ha.trans (setAll_cons _ _ _)
  have hset : ((ofElements #[.string "first"]).set "1030" (.bool true)).get? "1030" =
      some (.bool true) := get?_set_self _ (by decide) _
  have hlater : Settles "1030" (some (.bool true)) (a.get? "1030") := by
    rw [hfirst, ← hset]
    exact settles_setAll _ (by decide) (by decide)
  have hkey : Number.decimalText 1030 = "1030" := by decide +kernel
  have hplace := hread 1030 (by omega)
  rw [hkey, hlater.eq_of_some] at hplace
  exact ⟨a, ha, hlength, hsize.trans hlength, hplace⟩

end ArrayObject

end Reprl
