import Reprl.Heap

/-! What the cells of a heap bind, and what is left of that when cells are added or changed. -/

namespace Reprl

/-- What a cell binds. Only scopes bind names. -/
def Cell.bindings : Cell → Table Binding
  | .scope bindings => bindings
  | _ => {}

namespace Heap

theorem bindings_of_next_le {h : Heap} {scope : Ref} (hs : h.next ≤ scope) :
    h.bindings scope = {} := by
  rw [Heap.bindings, Array.getElem?_eq_none hs]

@[simp] theorem next_add (h : Heap) (cell : Cell) : (h.add cell).next = h.next + 1 :=
  Array.size_push cell

@[simp] theorem next_modifyScope (h : Heap) (ref : Ref) (f : Table Binding → Table Binding) :
    (h.modifyScope ref f).next = h.next := Array.size_modify

@[simp] theorem next_declare (h : Heap) (scope : Ref) (name : String) (value : Value)
    (mutable : Bool) : (h.declare scope name value mutable).next = h.next := Array.size_modify

@[simp] theorem next_modifyObject (h : Heap) (ref : Ref) (f : Object → Object) :
    (h.modifyObject ref f).next = h.next := Array.size_modify

@[simp] theorem next_modifyArray (h : Heap) (ref : Ref) (f : ArrayObject → ArrayObject) :
    (h.modifyArray ref f).next = h.next := Array.size_modify

theorem bindings_eq (h : Heap) (scope : Ref) :
    h.bindings scope = (h.cells[scope]?.map Cell.bindings).getD {} := by
  rw [bindings]
  rcases h.cells[scope]? with _ | (_ | _ | _) <;> rfl

theorem bindings_add {h : Heap} {scope : Ref} (hs : scope < h.next) (cell : Cell) :
    (h.add cell).bindings scope = h.bindings scope := by
  have hne : scope ≠ h.cells.size := Nat.ne_of_lt hs
  rw [bindings_eq, bindings_eq, Heap.add, Array.getElem?_push, if_neg hne]

theorem bindings_modify (h : Heap) (ref scope : Ref) {f : Cell → Cell}
    (hf : ∀ cell, (f cell).bindings = cell.bindings) :
    Heap.bindings ⟨h.cells.modify ref f⟩ scope = h.bindings scope := by
  rw [bindings_eq, bindings_eq, Array.getElem?_modify]
  by_cases hr : ref = scope
  · have hcomp : Cell.bindings ∘ f = Cell.bindings := funext hf
    rw [if_pos hr, Option.map_map, hcomp]
  · rw [if_neg hr]

theorem bindings_modifyObject (h : Heap) (ref scope : Ref) (f : Object → Object) :
    (h.modifyObject ref f).bindings scope = h.bindings scope :=
  h.bindings_modify ref scope fun cell => by cases cell <;> rfl

theorem bindings_modifyArray (h : Heap) (ref scope : Ref) (f : ArrayObject → ArrayObject) :
    (h.modifyArray ref f).bindings scope = h.bindings scope :=
  h.bindings_modify ref scope fun cell => by cases cell <;> rfl

/-- A declaration in one scope changes nothing but the name there. -/
theorem get?_declare_cases (h : Heap) (target scope : Ref) (name other : String) (value : Value)
    (mutable : Bool) :
    ((h.declare target name value mutable).bindings scope).get? other =
        (h.bindings scope).get? other ∨
      target = scope ∧ name = other ∧
        ((h.declare target name value mutable).bindings scope).get? other = some ⟨value, mutable⟩ := by
  rw [bindings_eq, bindings_eq, declare, modifyScope, Array.getElem?_modify]
  by_cases ht : target = scope
  · rw [if_pos ht]
    rcases h.cells[scope]? with _ | (bindings | _ | _)
    · exact .inl rfl
    · by_cases hn : name = other
      · subst hn
        exact .inr ⟨ht, rfl, Table.get?_set_self bindings name _⟩
      · exact .inl (Table.get?_set_of_ne bindings (Ne.symm hn) _)
    · exact .inl rfl
    · exact .inl rfl
  · rw [if_neg ht]
    exact .inl rfl

/-- A scope that binds a name binds it anew when the name is declared there again. -/
theorem get?_declare_self {h : Heap} {scope : Ref} {name : String} {binding : Binding}
    (hb : (h.bindings scope).get? name = some binding) (value : Value) (mutable : Bool) :
    ((h.declare scope name value mutable).bindings scope).get? name = some ⟨value, mutable⟩ := by
  rw [bindings_eq] at hb ⊢
  rw [declare, modifyScope, Array.getElem?_modify, if_pos rfl]
  rcases hc : h.cells[scope]? with _ | (bindings | _ | _)
  · rw [hc] at hb
    cases hb
  · exact Table.get?_set_self bindings name _
  · rw [hc] at hb
    cases hb
  · rw [hc] at hb
    cases hb

end Heap

end Reprl
