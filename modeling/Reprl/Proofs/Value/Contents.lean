import Reprl.Heap

/-! What objects, arrays and heaps hold. A property of values that holds of all that is put in
holds of all that is found, as long as it holds of lengths and of the undefined value in empty
places. A property of cells stays with a heap as long as new and changed cells have it. -/

namespace Reprl

namespace Value

/-- A value that is nothing but its parts. Code holds all of them from the start. -/
def isPlain : Value → Bool
  | .undefined | .null | .bool _ | .number _ | .string _ => true
  | _ => false

/-- A value whose text is found without a look at the heap. -/
def isFlat : Value → Bool
  | object _ | array _ => false
  | _ => true

def isFunction : Value → Bool
  | function .. => true
  | _ => false

end Value

variable {p : Value → Prop}

namespace Object

def All (p : Value → Prop) (o : Object) : Prop := ∀ e ∈ o.properties.entries, p e.2

namespace All

theorem empty (kind : ObjectClass) : All p { kind } := fun _ he => absurd he List.not_mem_nil

theorem set {o : Object} (h : All p o) (key : String) {value : Value} (hv : p value) :
    All p (o.set key value) := by
  intro e he
  rcases Table.mem_insert he with rfl | hold
  · exact hv
  · exact h e hold

theorem setAll {o : Object} (h : All p o) {named : List (String × Value)} (hn : ∀ e ∈ named, p e.2) :
    All p (named.foldl (fun o e => o.set e.1 e.2) o) := by
  induction named generalizing o with
  | nil => exact h
  | cons first rest ih =>
    obtain ⟨hfirst, hrest⟩ := List.forall_mem_cons.mp hn
    exact ih (h.set first.1 hfirst) hrest

theorem error (hs : ∀ s, p (.string s)) (name message : String) : All p (.error name message) :=
  ((empty .error).set "name" (hs name)).set "message" (hs message)

theorem get? {o : Object} (h : All p o) {key : String} {value : Value}
    (hv : o.get? key = some value) : p value := h _ (Table.mem_of_lookup hv)

end All

end Object

namespace ArrayObject

def All (p : Value → Prop) (a : ArrayObject) : Prop :=
  (∀ value ∈ a.elements, p value) ∧ ∀ e ∈ a.extra.entries, p e.2

/-- A value is among the elements of an array or its other properties. -/
def Stores (a : ArrayObject) (value : Value) : Prop :=
  value ∈ a.elements ∨ ∃ key, (key, value) ∈ a.extra.entries

theorem All.of_stores {a : ArrayObject} (h : All p a) {value : Value} (hv : a.Stores value) : p value := by
  rcases hv with hdense | ⟨key, hextra⟩
  · exact h.1 value hdense
  · exact h.2 _ hextra

namespace All

variable {a : ArrayObject}

theorem ofElements {elements : Array Value} (h : ∀ value ∈ elements, p value) :
    All p (.ofElements elements) := ⟨h, fun _ he => absurd he List.not_mem_nil⟩

theorem push (h : All p a) {value : Value} (hv : p value) (key : String) :
    All p { a with elements := a.elements.push value, extra := a.extra.erase key } := by
  refine ⟨fun v hmem => ?_, fun e he => h.2 e (Table.mem_remove he)⟩
  rcases Array.mem_push.mp hmem with hold | rfl
  · exact h.1 v hold
  · exact hv

theorem absorb (hu : p .undefined) (h : All p a) (index : Nat) : All p (a.absorb index) := by
  refine h.push ?_ _
  cases hmoved : a.extra.get? (Number.decimalText index) with
  | none => exact hu
  | some value => exact h.2 _ (Table.mem_of_lookup hmoved)

theorem absorbMany (hu : p .undefined) (h : All p a) (count : Nat) : All p (a.absorbMany count) := by
  induction count generalizing a with
  | zero => exact h
  | succ count ih => exact ih (h.absorb hu a.elements.size)

theorem setExtra (h : All p a) (key : String) {value : Value} (hv : p value) :
    All p { a with extra := a.extra.set key value } := by
  refine ⟨h.1, fun e he => ?_⟩
  rcases Table.mem_insert he with rfl | hold
  · exact hv
  · exact h.2 e hold

theorem setIndex (hu : p .undefined) (h : All p a) (index : Nat) (key : String) {value : Value}
    (hv : p value) : All p (a.setIndex index key value) := by
  simp only [ArrayObject.setIndex]
  split
  · refine ⟨fun v hmem => ?_, h.2⟩
    rcases Array.mem_or_eq_of_mem_setIfInBounds hmem with hold | rfl
    · exact h.1 v hold
    · exact hv
  · split
    · exact (h.absorbMany hu _).push hv key
    · exact h.setExtra key hv

theorem set (hu : p .undefined) (h : All p a) (key : String) {value : Value} (hv : p value) :
    All p (a.set key value) := by
  simp only [ArrayObject.set]
  split
  · exact h.setExtra key hv
  · exact h.setIndex hu _ key hv

theorem get? (hn : ∀ x, p (.number x)) (h : All p a) {key : String} {value : Value}
    (hv : a.get? key = some value) : p value := by
  simp only [ArrayObject.get?] at hv
  split at hv
  · cases hv
    exact hn _
  · split at hv
    · rename_i found hfound
      obtain ⟨index, -, hindex⟩ := Option.bind_eq_some_iff.mp hfound
      cases hv
      exact h.1 _ (Array.mem_of_getElem? hindex)
    · exact h.2 _ (Table.mem_of_lookup hv)

theorem padTo (hu : p .undefined) {values : Array Value} (h : ∀ value ∈ values, p value) (size : Nat) :
    ∀ value ∈ ArrayObject.padTo values size, p value := by
  intro value hmem
  rcases Array.mem_append.mp hmem with hold | hnew
  · exact h value hold
  · rw [(Array.mem_replicate.mp hnew).2]
    exact hu

theorem sparse (h : All p a) {entry : Nat × Value} (he : entry ∈ a.sparse) : p entry.2 := by
  rw [ArrayObject.sparse, List.mem_mergeSort, List.mem_filterMap] at he
  obtain ⟨stored, hstored, hmap⟩ := he
  obtain ⟨index, -, rfl⟩ := Option.map_eq_some_iff.mp hmap
  exact h.2 stored hstored

theorem place (hu : p .undefined) {entries : List (Nat × Value)} {values : Array Value}
    (he : ∀ entry ∈ entries, p entry.2) (h : ∀ value ∈ values, p value) :
    ∀ value ∈ entries.foldl (fun vs e => (ArrayObject.padTo vs e.1).push e.2) values, p value := by
  induction entries generalizing values with
  | nil => exact h
  | cons entry rest ih =>
    obtain ⟨hentry, hrest⟩ := List.forall_mem_cons.mp he
    refine ih hrest fun value hmem => ?_
    rcases Array.mem_push.mp hmem with hold | rfl
    · exact padTo hu h _ value hold
    · exact hentry

theorem values (hu : p .undefined) (h : All p a) : ∀ value ∈ a.values, p value := by
  rw [ArrayObject.values]
  split
  · exact h.1
  · intro value hmem
    obtain ⟨i, hi, rfl⟩ := Array.mem_extract_iff_getElem.mp hmem
    exact padTo hu (place hu (fun _ => h.sparse) h.1) _ _ (Array.getElem_mem _)

end All

end ArrayObject

namespace Heap

variable {h : Heap} {ofCell : Cell → Prop}

def All (ofCell : Cell → Prop) (h : Heap) : Prop := ∀ cell ∈ h.cells, ofCell cell

namespace All

theorem add (hh : h.All ofCell) {cell : Cell} (hc : ofCell cell) : (h.add cell).All ofCell := by
  intro c hmem
  rcases Array.mem_push.mp hmem with hold | rfl
  · exact hh c hold
  · exact hc

theorem modify (hh : h.All ofCell) (ref : Ref) {f : Cell → Cell}
    (hf : ∀ cell, ofCell cell → ofCell (f cell)) : Heap.All ofCell ⟨h.cells.modify ref f⟩ := by
  intro cell hmem
  obtain ⟨i, hi, rfl⟩ := Array.mem_iff_getElem.mp hmem
  rw [Array.size_modify] at hi
  rw [Array.getElem_modify]
  split
  · exact hf _ (hh _ (Array.getElem_mem hi))
  · exact hh _ (Array.getElem_mem hi)

theorem object (hh : h.All ofCell) (he : ofCell (.object {})) (ref : Ref) :
    ofCell (.object (h.object ref)) := by
  rw [Heap.object]
  split
  · next o ho => exact hh _ (Array.mem_of_getElem? ho)
  · exact he

theorem array (hh : h.All ofCell) (he : ofCell (.array {})) (ref : Ref) :
    ofCell (.array (h.array ref)) := by
  rw [Heap.array]
  split
  · next a ha => exact hh _ (Array.mem_of_getElem? ha)
  · exact he

theorem bindings (hh : h.All ofCell) (he : ofCell (.scope {})) (ref : Ref) :
    ofCell (.scope (h.bindings ref)) := by
  rw [Heap.bindings]
  split
  · next bindings hb => exact hh _ (Array.mem_of_getElem? hb)
  · exact he

end All

end Heap

end Reprl
