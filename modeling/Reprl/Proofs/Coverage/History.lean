import Mathlib.Data.List.Induction
import Mathlib.Data.Nat.Bitwise
import Reprl.Coverage

/-! Histories of a guard table. A reset numbers the guards in use; between two resets each of
them is recorded at most once, and the bit of an edge is set from its first recording on. -/

namespace Reprl

namespace Coverage

theorem getD_number (start count : Nat) (cells : Array UInt32) (j : Nat) :
    (number start count cells).getD j 0 =
      if start ≤ j ∧ j < start + count ∧ j < cells.size then UInt32.ofNat (j - start + 1)
      else cells.getD j 0 := by
  induction count generalizing cells with
  | zero =>
    have hn : ¬ (start ≤ j ∧ j < start + 0 ∧ j < cells.size) := by omega
    simp only [number, hn, if_false]
  | succ count ih =>
    rw [number, ih]
    simp only [Array.size_setIfInBounds, Array.getD_eq_getD_getElem?, Array.getElem?_setIfInBounds]
    by_cases he : start + count = j
    · subst he
      by_cases hs : start + count < cells.size
      · simp [hs]
      · simp [hs]
    · have hi : (start ≤ j ∧ j < start + count ∧ j < cells.size) ↔
          (start ≤ j ∧ j < start + (count + 1) ∧ j < cells.size) := by omega
      simp only [he, if_false, hi]

theorem size_number (start count : Nat) (cells : Array UInt32) :
    (number start count cells).size = cells.size := by
  induction count generalizing cells with
  | zero => rfl
  | succ count ih => rw [number, ih, Array.size_setIfInBounds]

/-- A reset numbers the guards in use, beginning with one, and leaves all other cells alone. -/
theorem cell_reset {c : Coverage} {t : GuardTable} (ht : c.table = some t) (j : Nat) :
    c.reset.cell j =
      if t.start ≤ j ∧ j < t.start + c.used t ∧ j < c.cells.size then UInt32.ofNat (j - t.start + 1)
      else c.cell j := by
  simp only [reset, ht, cell, getD_number]

end Coverage

namespace Region

theorem toNat_bitMask (index : Nat) : (bitMask index).toNat = 2 ^ (index % 8) := by
  have hall : ∀ k : Fin 8, ((1 : UInt8) <<< UInt8.ofNat k.val).toNat = 2 ^ k.val := by decide
  exact hall ⟨index % 8, Nat.mod_lt _ (by decide)⟩

theorem and_bitMask_ne_zero (byte : UInt8) (index : Nat) :
    (byte &&& bitMask index != 0) = byte.toNat.testBit (index % 8) := by
  rw [Bool.eq_iff_iff, bne_iff_ne, ne_eq, ← UInt8.toNat_inj, UInt8.toNat_and, toNat_bitMask,
    Nat.and_two_pow]
  cases byte.toNat.testBit (index % 8) <;> simp

theorem bit_eq_testBit (r : Region) (index : Nat) :
    r.bit index = (r.bitmap[index / 8]?).any (·.toNat.testBit (index % 8)) := by
  simp only [bit, and_bitMask_ne_zero]

theorem getElem?_mark (r : Region) {index : Nat} (h : index < edgeLimit) (place : Nat) :
    (r.mark index h).bitmap[place]? =
      if place = index / 8 then (r.bitmap[place]?).map (· ||| bitMask index) else r.bitmap[place]? := by
  have hplace := byte_lt h
  simp only [mark, Vector.getElem?_set]
  by_cases he : place = index / 8
  · subst he
    simp [hplace]
  · simp [he, Ne.symm he]

theorem bit_mark (r : Region) {index : Nat} (h : index < edgeLimit) (j : Nat) :
    (r.mark index h).bit j = (r.bit j || j == index) := by
  rw [bit_eq_testBit, bit_eq_testBit, getElem?_mark]
  by_cases hp : j / 8 = index / 8
  · have hplace : j / 8 < bitmapSize := hp ▸ byte_lt h
    have hsame : (index % 8 = j % 8) ↔ j = index := by omega
    rw [if_pos hp, Vector.getElem?_eq_getElem hplace, Option.map_some, Option.any_some,
      Option.any_some, UInt8.toNat_or, Nat.testBit_or, toNat_bitMask, Nat.testBit_two_pow, beq_eq_decide]
    simp only [hsame]
  · have hne : (j == index) = false := beq_eq_false_iff_ne.mpr fun he => hp (congrArg (· / 8) he)
    rw [if_neg hp, hne, Bool.or_false]

theorem bit_of_empty {r : Region} (h : r.bitmap = Vector.replicate bitmapSize 0) (index : Nat) :
    r.bit index = false := by
  rw [bit_eq_testBit, h, Vector.getElem?_replicate]
  split
  · simp
  · rfl

end Region

namespace Coverage

/-- What happens to the guards of a table once it is installed. -/
inductive Op where
  | reset
  | record (cell : Nat)
  deriving DecidableEq

def perform (c : Coverage) : Op → Coverage
  | .reset => c.reset
  | .record cell => c.record cell

/-- The cells and the region after some operations. -/
def afterAll (c : Coverage) (ops : List Op) : Coverage := ops.foldl perform c

def RecordedSinceReset (ops : List Op) (cell : Nat) : Prop :=
  ∃ earlier later, ops = earlier ++ .record cell :: later ∧ .reset ∉ later

theorem not_recorded_nil (cell : Nat) : ¬ RecordedSinceReset [] cell := by
  rintro ⟨earlier, later, h, -⟩
  cases earlier <;> cases h

theorem not_recorded_append_reset (ops : List Op) (cell : Nat) :
    ¬ RecordedSinceReset (ops ++ [.reset]) cell := by
  rintro ⟨earlier, later, h, hlater⟩
  cases later using List.reverseRecOn with
  | nil =>
    have hlast := (List.append_inj' h rfl).2
    cases hlast
  | append_singleton later op =>
    rw [← List.cons_append, ← List.append_assoc] at h
    have hlast := (List.append_inj' h rfl).2
    exact hlater (List.mem_append_right _ (List.mem_singleton.mpr (List.head_eq_of_cons_eq hlast)))

theorem recorded_append_record (ops : List Op) (cell other : Nat) :
    RecordedSinceReset (ops ++ [.record other]) cell ↔ cell = other ∨ RecordedSinceReset ops cell := by
  constructor
  · rintro ⟨earlier, later, h, hlater⟩
    cases later using List.reverseRecOn with
    | nil =>
      have hlast := (List.append_inj' h rfl).2
      cases hlast
      exact .inl rfl
    | append_singleton later op =>
      rw [← List.cons_append, ← List.append_assoc] at h
      exact .inr ⟨earlier, later, (List.append_inj' h rfl).1,
        fun hmem => hlater (List.mem_append_left _ hmem)⟩
  · rintro (rfl | ⟨earlier, later, rfl, hlater⟩)
    · exact ⟨ops, [], rfl, List.not_mem_nil⟩
    · refine ⟨earlier, later ++ [.record other], by simp, fun hmem => ?_⟩
      rcases List.mem_append.mp hmem with hmem | hmem
      · exact hlater hmem
      · cases List.mem_singleton.mp hmem

theorem record_of_armed {c : Coverage} {t : GuardTable} (ht : c.table = some t) {i : Nat}
    (hi : t.start ≤ i ∧ i - t.start < c.used t)
    (h : 0 < (c.cell i).toNat ∧ (c.cell i).toNat < edgeLimit) :
    c.record i = { c with
      cells := c.cells.setIfInBounds i 0
      table := some { t with region := t.region.mark (c.cell i).toNat h.2 } } := by
  simp only [record, ht, if_pos hi, dif_pos h]

theorem record_of_zero {c : Coverage} {i : Nat} (h : c.cell i = 0) : c.record i = c := by
  have hzero : ¬ (0 < (c.cell i).toNat ∧ (c.cell i).toNat < edgeLimit) := by
    rw [h]
    exact fun hpos => Nat.lt_irrefl 0 hpos.1
  rw [record]
  cases c.table with
  | none => rfl
  | some t => simp only [dif_neg hzero, ite_self]

theorem record_of_stray {c : Coverage} {t : GuardTable} (ht : c.table = some t) {i : Nat}
    (hi : ¬ (t.start ≤ i ∧ i - t.start < c.used t)) : c.record i = c := by
  simp only [record, ht, if_neg hi]

theorem cell_setIfInBounds {c : Coverage} {i : Nat} (hi : i < c.cells.size) (table : Option GuardTable)
    (j : Nat) : cell { c with cells := c.cells.setIfInBounds i 0, table } j = if j = i then 0 else c.cell j := by
  simp only [cell, Array.getD_eq_getD_getElem?, Array.getElem?_setIfInBounds]
  by_cases hj : j = i
  · simp [hj, hi]
  · simp [hj, Ne.symm hj]

/-- A table of which `width` guards are in use, after a history that began with these cells. -/
structure Placed (cells : Array UInt32) (t : GuardTable) (width : Nat) (ops : List Op) (c : Coverage) :
    Prop where
  size : c.cells.size = cells.size
  used (region : Region) : c.used { t with region } = width
  table : ∃ region : Region, c.table = some { t with region } ∧
    region.edgeCount = t.region.edgeCount ∧
    ∀ j, region.bit j = true ↔ 1 ≤ j ∧ j ≤ width ∧ .record (t.start + (j - 1)) ∈ ops
  others : ∀ j, j < t.start ∨ t.start + width ≤ j → c.cell j = cells.getD j 0

/-- Such a table whose guards tell what was recorded since the last reset. -/
structure Follows (cells : Array UInt32) (t : GuardTable) (width : Nat) (ops : List Op) (c : Coverage) :
    Prop extends Placed cells t width ops c where
  recorded : ∀ i < width, RecordedSinceReset ops (t.start + i) → c.cell (t.start + i) = 0
  armed : ∀ i < width, ¬ RecordedSinceReset ops (t.start + i) →
    (c.cell (t.start + i)).toNat = i + 1

variable {cells : Array UInt32} {t : GuardTable} {width : Nat} {ops : List Op} {c : Coverage}

/-- Numbering the guards begins a part of the history in which none of them is recorded yet. -/
theorem Placed.reset (h : Placed cells t width ops c) (hfit : t.start + width ≤ cells.size)
    (hlimit : width < edgeLimit) {next : List Op} (hnone : ∀ cell, ¬ RecordedSinceReset next cell)
    (hmem : ∀ cell, .record cell ∈ next ↔ .record cell ∈ ops) : Follows cells t width next c.reset := by
  obtain ⟨region, ht, hcount, hbits⟩ := h.table
  have hcell := cell_reset ht
  have hreset : c.reset = { c with cells := number t.start width c.cells } := by
    simp only [Coverage.reset, ht, h.used]
  simp only [h.used, h.size] at hcell
  refine ⟨⟨?_, ?_, ⟨region, ?_, hcount, fun j => ?_⟩, fun j hj => ?_⟩, fun i hi hr => ?_, fun i hi _ => ?_⟩
  · rw [hreset, ← h.size]
    exact size_number t.start width c.cells
  · rw [hreset]
    exact h.used
  · rw [hreset]
    exact ht
  · rw [hbits, hmem]
  · rw [hcell, if_neg (by omega)]
    exact h.others j hj
  · exact absurd hr (hnone _)
  · have hfits : i + 1 < 4294967296 := Nat.lt_of_le_of_lt hi (Nat.lt_trans hlimit (by decide))
    rw [hcell, if_pos (by omega), Nat.add_sub_cancel_left, UInt32.toNat_ofNat']
    exact Nat.mod_eq_of_lt hfits

namespace Follows

theorem record_stray (h : Follows cells t width ops c) {i : Nat}
    (hi : i < t.start ∨ t.start + width ≤ i) : Follows cells t width (ops ++ [.record i]) (c.record i) := by
  obtain ⟨region, ht, hcount, hbits⟩ := h.table
  have hout : ¬ (t.start ≤ i ∧ i - t.start < width) := by omega
  have hsame : c.record i = c := record_of_stray ht (by rw [h.used]; exact hout)
  have hrecorded : ∀ j < width, RecordedSinceReset (ops ++ [.record i]) (t.start + j) ↔
      RecordedSinceReset ops (t.start + j) := by
    intro j hj
    rw [recorded_append_record]
    exact or_iff_right (by omega)
  rw [hsame]
  refine ⟨⟨h.size, h.used, ⟨region, ht, hcount, fun j => ?_⟩, h.others⟩,
    fun j hj hr => ?_, fun j hj hr => ?_⟩
  · rw [hbits, List.mem_append, List.mem_singleton, Op.record.injEq]
    constructor
    · exact fun ⟨hl, hu, hmem⟩ => ⟨hl, hu, .inl hmem⟩
    · exact fun ⟨hl, hu, hmem⟩ => ⟨hl, hu, hmem.resolve_right (by omega)⟩
  · exact h.recorded j hj ((hrecorded j hj).mp hr)
  · exact h.armed j hj fun hr' => hr ((hrecorded j hj).mpr hr')

theorem mem_of_recorded {cell : Nat} (h : RecordedSinceReset ops cell) : .record cell ∈ ops := by
  obtain ⟨earlier, later, rfl, -⟩ := h
  simp

/-- A guard that was recorded since the last reset stays as it is, and its bit is set already. -/
theorem record_again (h : Follows cells t width ops c) {i : Nat} (hi : i < width)
    (hr : RecordedSinceReset ops (t.start + i)) :
    Follows cells t width (ops ++ [.record (t.start + i)]) (c.record (t.start + i)) := by
  obtain ⟨region, ht, hcount, hbits⟩ := h.table
  rw [record_of_zero (h.recorded i hi hr)]
  refine ⟨⟨h.size, h.used, ⟨region, ht, hcount, fun j => ?_⟩, h.others⟩,
    fun j hj hj' => ?_, fun j hj hj' => ?_⟩
  · rw [hbits, List.mem_append, List.mem_singleton, Op.record.injEq]
    constructor
    · exact fun ⟨hl, hu, hmem⟩ => ⟨hl, hu, .inl hmem⟩
    · rintro ⟨hl, hu, hmem | hmem⟩
      · exact ⟨hl, hu, hmem⟩
      · exact ⟨hl, hu, hmem ▸ mem_of_recorded hr⟩
  · rcases (recorded_append_record ops _ _).mp hj' with he | hj'
    · exact he ▸ h.recorded i hi hr
    · exact h.recorded j hj hj'
  · exact h.armed j hj fun hj'' => hj' ((recorded_append_record ops _ _).mpr (.inr hj''))

theorem record_first (h : Follows cells t width ops c) (hfit : t.start + width ≤ cells.size)
    (hlimit : width < edgeLimit) {i : Nat} (hi : i < width)
    (hr : ¬ RecordedSinceReset ops (t.start + i)) :
    Follows cells t width (ops ++ [.record (t.start + i)]) (c.record (t.start + i)) := by
  obtain ⟨region, ht, hcount, hbits⟩ := h.table
  have hnumber := h.armed i hi hr
  have hin : t.start + i < c.cells.size := by rw [h.size]; omega
  have htracked : t.start ≤ t.start + i ∧ t.start + i - t.start < width := by omega
  have hrec := record_of_armed ht (i := t.start + i) (by rw [h.used]; exact htracked)
    ⟨by omega, by omega⟩
  have hcell : ∀ j, (c.record (t.start + i)).cell j = if j = t.start + i then 0 else c.cell j := by
    rw [hrec]
    exact cell_setIfInBounds hin _
  refine ⟨⟨?_, ?_, ⟨region.mark (c.cell (t.start + i)).toNat (by omega), ?_, hcount, fun j => ?_⟩,
    fun j hj => ?_⟩, fun j hj hj' => ?_, fun j hj hj' => ?_⟩
  · rw [hrec, ← h.size]
    exact Array.size_setIfInBounds
  · rw [hrec]
    exact h.used
  · rw [hrec]
  · rw [Region.bit_mark, Bool.or_eq_true, hbits, beq_iff_eq, hnumber, List.mem_append,
      List.mem_singleton, Op.record.injEq]
    constructor
    · rintro (⟨hl, hu, hmem⟩ | rfl)
      · exact ⟨hl, hu, .inl hmem⟩
      · exact ⟨Nat.le_add_left 1 i, hi, .inr rfl⟩
    · rintro ⟨hl, hu, hmem | hmem⟩
      · exact .inl ⟨hl, hu, hmem⟩
      · exact .inr (by omega)
  · rw [hcell, if_neg (by omega)]
    exact h.others j hj
  · rw [hcell]
    split
    · rfl
    · rename_i hne
      exact h.recorded j hj (((recorded_append_record ops _ _).mp hj').resolve_left hne)
  · have hne : t.start + j ≠ t.start + i := fun he =>
      hj' ((recorded_append_record ops _ _).mpr (.inl he))
    rw [hcell, if_neg hne]
    exact h.armed j hj fun hj'' => hj' ((recorded_append_record ops _ _).mpr (.inr hj''))

theorem step (h : Follows cells t width ops c) (hfit : t.start + width ≤ cells.size)
    (hlimit : width < edgeLimit) (op : Op) : Follows cells t width (ops ++ [op]) (c.perform op) := by
  cases op with
  | reset => exact h.reset hfit hlimit (not_recorded_append_reset ops) fun cell => by simp
  | record cell =>
    by_cases hin : t.start ≤ cell ∧ cell - t.start < width
    · obtain ⟨i, rfl⟩ : ∃ i, cell = t.start + i := Nat.exists_eq_add_of_le hin.1
      have hi : i < width := by omega
      by_cases hr : RecordedSinceReset ops (t.start + i)
      · exact h.record_again hi hr
      · exact h.record_first hfit hlimit hi hr
    · exact h.record_stray (by omega)

theorem run (h : Follows cells t width [] c) (hfit : t.start + width ≤ cells.size)
    (hlimit : width < edgeLimit) (ops : List Op) : Follows cells t width ops (c.afterAll ops) := by
  induction ops using List.reverseRecOn with
  | nil => exact h
  | append_singleton ops op ih =>
    rw [afterAll, List.foldl_append]
    exact ih.step hfit hlimit op

end Follows

def bit (c : Coverage) (index : Nat) : Bool := c.table.any (·.region.bit index)

/-- A byte of the region after its header. -/
def byte? (c : Coverage) (place : Nat) : Option UInt8 := c.table.bind (·.region.bitmap[place]?)

theorem Follows.byte_changed (h : Follows cells t width ops c) (hlimit : width < edgeLimit) {op : Op}
    {place : Nat} (hne : (c.perform op).byte? place ≠ c.byte? place) :
    ∃ i < width, op = .record (t.start + i) ∧ place = (i + 1) / 8 := by
  obtain ⟨region, ht, -, -⟩ := h.table
  cases op with
  | reset =>
    refine absurd ?_ hne
    simp only [perform, Coverage.reset, ht, byte?]
  | record cell =>
    by_cases hin : t.start ≤ cell ∧ cell - t.start < width
    · obtain ⟨i, rfl⟩ : ∃ i, cell = t.start + i := Nat.exists_eq_add_of_le hin.1
      have hi : i < width := by omega
      refine ⟨i, hi, rfl, Decidable.of_not_not fun hplace => hne ?_⟩
      by_cases hr : RecordedSinceReset ops (t.start + i)
      · rw [perform, record_of_zero (h.recorded i hi hr)]
      · have hnumber := h.armed i hi hr
        have hrec := record_of_armed ht (i := t.start + i) (by rw [h.used]; exact hin)
          ⟨by omega, by omega⟩
        simp only [perform, hrec, byte?, ht, Option.bind_some, Region.getElem?_mark, hnumber,
          if_neg hplace]
    · refine absurd ?_ hne
      rw [perform, record_of_stray ht (by rw [h.used]; exact hin)]

theorem installed_of_ok {cells : Array UInt32} {cap start stop : Nat} {lines text : List String}
    {region : Region} {installed : Coverage}
    (h : (withCap cells cap).install start stop (lines, .ok region) = (.ok true, text, installed)) :
    installed = reset { withCap cells cap with
      table := some ⟨start, stop, { region with edgeCount := UInt32.ofNat (stop - start) }⟩ } := by
  rw [install] at h
  split at h
  · cases h
  · cases h
    rfl

/-- After any history of an installed table, the guards in use tell what was recorded since the
last reset, the bits tell what was ever recorded, and nothing else has changed. -/
theorem guards_and_bits_after_history (cells : Array UInt32) (cap start stop : Nat)
    {lines text : List String} {region : Region} {installed : Coverage}
    (hfit : start ≤ stop ∧ stop ≤ cells.size)
    (hempty : region.bitmap = Vector.replicate bitmapSize 0)
    (hi : (withCap cells cap).install start stop (lines, .ok region) = (.ok true, text, installed))
    (ops : List Op) :
    let width := min (stop - start) (min cap (edgeLimit - 1))
    let c := installed.afterAll ops
    (∀ i < width, (RecordedSinceReset ops (start + i) → c.cell (start + i) = 0) ∧
      (¬ RecordedSinceReset ops (start + i) → (c.cell (start + i)).toNat = i + 1)) ∧
    (∀ j, j < start ∨ start + width ≤ j → c.cell j = cells.getD j 0) ∧
    (∀ j, c.bit j = true ↔ 1 ≤ j ∧ j ≤ width ∧ .record (start + (j - 1)) ∈ ops) ∧
    (stop - start < 0x100000000 → c.edgeCount? = some (stop - start)) ∧
    ∀ op place, (c.perform op).byte? place ≠ c.byte? place →
      place < regionSize - 4 ∧ ∃ i < width, op = .record (start + i) ∧ place = (i + 1) / 8 := by
  intro width c
  have hlimit : width < edgeLimit := by
    have hpos : 0 < edgeLimit := by decide
    omega
  have hroom : start + width ≤ cells.size := by omega
  let t : GuardTable := ⟨start, stop, { region with edgeCount := UInt32.ofNat (stop - start) }⟩
  have hplaced : Placed cells t width [] { withCap cells cap with table := some t } :=
    ⟨rfl, fun _ => rfl, ⟨t.region, rfl, rfl, fun j => by simp [Region.bit_of_empty (r := t.region) hempty]⟩,
      fun _ _ => rfl⟩
  have hstart : Follows cells t width [] installed := by
    rw [installed_of_ok hi]
    exact hplaced.reset hroom hlimit not_recorded_nil fun _ => Iff.rfl
  have hall : Follows cells t width ops c := hstart.run hroom hlimit ops
  obtain ⟨after, ht, hcount, hbits⟩ := hall.table
  refine ⟨fun i hi => ⟨hall.recorded i hi, hall.armed i hi⟩, hall.others, fun j => ?_, fun hn => ?_,
    fun op place hne => ?_⟩
  · rw [bit, ht]
    exact hbits j
  · rw [edgeCount?, ht, Option.map_some, hcount, UInt32.toNat_ofNat']
    exact congrArg some (Nat.mod_eq_of_lt hn)
  · obtain ⟨i, hi, hop, hplace⟩ := hall.byte_changed hlimit hne
    have hinside : (i + 1) / 8 < bitmapSize := Region.byte_lt (by omega)
    exact ⟨hplace ▸ hinside, i, hi, hop, hplace⟩

/-- Four guards of which three are in use, with a foreign cell before them. -/
def guardedCells : Array UInt32 := #[7, 0, 5, 0, 9]

theorem guards_and_bits_of_guardedCells :
    ∃ text installed, (withCap guardedCells 3).install 1 5 ([], .ok { key := none }) =
        (.ok true, text, installed) ∧
      ∃ c, c = installed.afterAll [.record 1, .record 0, .record 4, .reset, .record 2, .record 2] ∧
        (c.cell 1).toNat = 1 ∧ c.cell 2 = 0 ∧ (c.cell 3).toNat = 3 ∧ c.cell 4 = 9 ∧ c.cell 0 = 7 ∧
        c.bit 1 = true ∧ c.bit 2 = true ∧ c.bit 3 = false ∧ c.edgeCount? = some 4 := by
  obtain ⟨text, installed, hi⟩ : ∃ text installed,
      (withCap guardedCells 3).install 1 5 ([], .ok { key := none }) = (.ok true, text, installed) :=
    ⟨_, _, rfl⟩
  let ops : List Op := [.record 1, .record 0, .record 4, .reset, .record 2, .record 2]
  obtain ⟨hguards, hothers, hbits, hcount, -⟩ :=
    guards_and_bits_after_history guardedCells 3 1 5 (by decide) rfl hi ops
  have hsince : ∀ cell, RecordedSinceReset ops cell ↔ cell = 2 := fun cell => by
    have hops : ops = (([.record 1, .record 0, .record 4] ++ [.reset]) ++ [.record 2]) ++ [.record 2] := rfl
    have hnone := not_recorded_append_reset [.record 1, .record 0, .record 4] cell
    rw [hops, recorded_append_record, recorded_append_record]
    tauto
  refine ⟨text, installed, hi, installed.afterAll ops, rfl, ?_, ?_, ?_, ?_, ?_, ?_, ?_, ?_, ?_⟩
  · exact (hguards 0 (by decide)).2 (by rw [hsince]; decide)
  · exact (hguards 1 (by decide)).1 ((hsince 2).mpr rfl)
  · exact (hguards 2 (by decide)).2 (by rw [hsince]; decide)
  · exact hothers 4 (by decide)
  · exact hothers 0 (by decide)
  · exact (hbits 1).mpr (by decide)
  · exact (hbits 2).mpr (by decide)
  · exact Bool.eq_false_iff.mpr fun h => absurd ((hbits 3).mp h) (by decide)
  · exact hcount (by decide)

end Coverage

end Reprl
