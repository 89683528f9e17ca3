import Reprl.Proofs.Heap
import Reprl.Proofs.Memory.Graph
import Reprl.Proofs.Situation.Contents
import Reprl.Proofs.Situation.Script

/-! The order in which cells are made. Scopes are tracked when they are opened, objects and arrays
when they are written to. A cell that is not tracked still holds what it was made of, and that is
older than it. So references from a cell to a younger one begin at tracked cells. -/

namespace Reprl

theorem Cell.all_emptyScope {p : Value → Prop} : Cell.All p (.scope {}) :=
  fun _ hmem => absurd hmem List.not_mem_nil

theorem Cell.All.of_mem_values {p : Value → Prop} {cell : Cell} {value : Value} (h : cell.All p)
    (hv : value ∈ cell.values) : p value := by
  cases cell with
  | scope bindings =>
    obtain ⟨e, hmem, rfl⟩ := List.mem_map.mp hv
    exact h e hmem
  | object o =>
    obtain ⟨e, hmem, rfl⟩ := List.mem_map.mp hv
    exact h e hmem
  | array a =>
    rcases List.mem_append.mp hv with hdense | hextra
    · exact h.1 value (Array.mem_toList_iff.mp hdense)
    · obtain ⟨e, hmem, rfl⟩ := List.mem_map.mp hextra
      exact h.2 e hmem

namespace Machine

/-- Cells that are cleared at the end if they are live then. -/
def Registers (m : Machine) (ref : Ref) : Prop := ref = globalScope ∨ ref ∈ m.tracked

/-- A scope is younger than the scopes around it. -/
structure Nests (m : Machine) (env : Env) : Prop where
  registered : ∀ scope ∈ env, m.Registers scope
  made : ∀ scope ∈ env, scope < m.heap.next
  older : env.Pairwise (· > ·)

/-- A value refers to what has been made. -/
def Places (m : Machine) : Value → Prop
  | .object ref | .array ref => ref < m.heap.next
  | .function _ (.closure c) => m.Nests c.env
  | _ => True

structure Extends (m m' : Machine) : Prop where
  next_le : m.heap.next ≤ m'.heap.next
  tracked : ∀ ref ∈ m.tracked, ref ∈ m'.tracked

variable {m m' : Machine} {value : Value} {env : Env}

theorem Extends.registers (h : Extends m m') {ref : Ref} (hr : m.Registers ref) : m'.Registers ref :=
  hr.imp_right (h.tracked ref)

theorem Extends.nests (h : Extends m m') (he : m.Nests env) : m'.Nests env where
  registered scope hs := h.registers (he.registered scope hs)
  made scope hs := Nat.lt_of_lt_of_le (he.made scope hs) h.next_le
  older := he.older

theorem Extends.places (h : Extends m m') (hv : m.Places value) : m'.Places value := by
  cases value with
  | object ref | array ref => exact Nat.lt_of_lt_of_le hv h.next_le
  | function identity f =>
    cases f with
    | native => trivial
    | closure c => exact h.nests hv
  | _ => trivial

theorem places_plain (m : Machine) (h : value.isPlain = true) : m.Places value := by
  cases value with
  | object | array | function => cases h
  | _ => trivial

end Machine

/-- A value refers to no cell but older ones. Functions count as older than all objects and arrays. -/
def Value.OlderThan (ref : Ref) : Value → Prop
  | .object other | .array other => other < ref
  | _ => True

theorem Machine.Places.olderThan {m : Machine} {value : Value} (h : m.Places value) :
    value.OlderThan m.heap.next := by
  cases value with
  | object ref | array ref => exact h
  | _ => trivial

namespace Machine

variable {m m' : Machine} {cell : Cell} {ref : Ref}

/-- A cell is registered, or all that it holds is older. -/
def Sorts (m : Machine) (ref : Ref) (cell : Cell) : Prop :=
  m.Registers ref ∨ cell.All (Value.OlderThan ref)

def Sorted (m : Machine) : Prop := ∀ ref cell, m.heap.cells[ref]? = some cell → m.Sorts ref cell

theorem Extends.sorts (h : Extends m m') (hc : m.Sorts ref cell) : m'.Sorts ref cell :=
  hc.imp_left h.registers

theorem Sorted.same (h : m.Sorted) (he : Extends m m') (hm : m'.heap = m.heap) : m'.Sorted := by
  intro ref cell hc
  rw [hm] at hc
  exact he.sorts (h ref cell hc)

theorem Sorted.add (h : m.Sorted) (he : Extends m m') (hm : m'.heap = m.heap.add cell)
    (hnew : m'.Sorts m.heap.next cell) : m'.Sorted := by
  intro ref other hc
  rw [hm, Heap.add, Array.getElem?_push] at hc
  split at hc
  · next hlast =>
    cases hc
    exact hlast ▸ hnew
  · exact he.sorts (h ref other hc)

theorem Sorted.modify (h : m.Sorted) (he : Extends m m') {f : Cell → Cell}
    (hm : m'.heap = ⟨m.heap.cells.modify ref f⟩) (hr : m'.Registers ref) : m'.Sorted := by
  intro other cell hc
  by_cases hsame : ref = other
  · exact .inl (hsame ▸ hr)
  · rw [hm, Array.getElem?_modify, if_neg hsame] at hc
    exact he.sorts (h other cell hc)

end Machine

namespace Situation

variable {s s' : Situation} {value : Value}

/-- What has been made lies in the order in which it was made. -/
structure Ordered (s : Situation) : Prop where
  values : s.All s.machine.Places
  chains : ∀ env, s.chains env → s.machine.Nests env
  cells : s.machine.Sorted

theorem Step.extends (h : Step s s') : s.machine.Extends s'.machine := by
  cases h with
  | object | array => exact ⟨by simp [alloc, gain, onMachine], fun _ hr => hr⟩
  | scope =>
    exact ⟨by simp [alloc, track, enter, onMachine], fun _ hr => Array.mem_push_of_mem _ hr⟩
  | declare | global => exact ⟨by simp [onHeap, onMachine], fun _ hr => hr⟩
  | setObject | setArray =>
    exact ⟨by simp [track, onHeap, onMachine], fun _ hr => Array.mem_push_of_mem _ hr⟩
  | _ => exact ⟨Nat.le_refl _, fun _ hr => hr⟩

theorem Step.all_places (h : Step s s') (hs : s.Ordered) : s'.All s'.machine.Places := by
  have he := h.extends
  have ha : s.All s'.machine.Places := hs.values.mono fun _ => he.places
  have held : ∀ {value}, s.Has value → s'.machine.Places value := fun hv =>
    ha.has (fun _ => Machine.places_plain _) hv
  cases h with
  | native | symbol => exact ha.identify.gain trivial
  | closure c h => exact ha.identify.gain (he.nests (hs.chains _ h))
  | object o h =>
    have hcell : Cell.All _ (.object o) := fun e hmem => held (h e hmem)
    exact (ha.alloc hcell).gain (by simp [Machine.Places, gain, alloc, onMachine])
  | array elements h =>
    have hcell : Cell.All _ (.array (.ofElements elements)) :=
      ArrayObject.All.ofElements fun v hmem => held (h v hmem)
    exact (ha.alloc hcell).gain (by simp [Machine.Places, gain, alloc, onMachine])
  | scope h =>
    exact ((ha.alloc Cell.all_emptyScope).track _).enter _
  | inside h => exact ha.enter _
  | binding h hs hb => exact ha.gain (ha.binding hb)
  | property h hv => exact ha.gain (ha.property hv)
  | element h hv => exact ha.gain (ha.element hv)
  | declare name mutable h hs hv => exact ha.declare _ name (held hv) mutable
  | global name hv => exact ha.declare _ name (held hv) true
  | @setObject ref key value h hv => exact (ha.track ref).setObject ref key (held hv)
  | @setArray ref key value h hv => exact (ha.track ref).setArray trivial ref key (held hv)
  | push h => exact ha.push (held h)
  | pop h => exact ha.pop h
  | levels | output => exact ⟨ha.held, ha.cells, ha.jobs⟩

theorem Step.nests (h : Step s s') (hs : s.Ordered) {env : Env} (henv : s'.chains env) :
    s'.machine.Nests env := by
  have he := h.extends
  have hold : ∀ {env}, s.chains env → s'.machine.Nests env := fun hc => he.nests (hs.chains _ hc)
  cases h with
  | @scope outer h =>
    rcases henv with rfl | henv
    · have hlt : s.machine.heap.next < (s.machine.heap.add (.scope {})).next := by simp
      refine ⟨?_, ?_, ?_⟩
      · exact List.forall_mem_cons.mpr ⟨.inr Array.mem_push_self, (hold h).registered⟩
      · exact List.forall_mem_cons.mpr ⟨hlt, (hold h).made⟩
      · exact List.pairwise_cons.mpr ⟨(hs.chains _ h).made, (hold h).older⟩
    · exact hold henv
  | inside h =>
    rcases henv with rfl | henv
    · exact hs.values.held _ h
    · exact hold henv
  | _ => exact hold henv

theorem Step.sorted (h : Step s s') (hs : s.Ordered) : s'.machine.Sorted := by
  have he := h.extends
  have hc := hs.cells
  have older : ∀ {value}, s.Has value → value.OlderThan s.machine.heap.next := fun hv =>
    (hs.values.has (fun _ => Machine.places_plain _) hv).olderThan
  cases h with
  | object o h =>
    have hcell : Cell.All _ (.object o) := fun e hmem => older (h e hmem)
    exact hc.add he rfl (.inr hcell)
  | array elements h =>
    have hcell : Cell.All _ (.array (.ofElements elements)) :=
      ArrayObject.All.ofElements fun v hmem => older (h v hmem)
    exact hc.add he rfl (.inr hcell)
  | scope h => exact hc.add he rfl (.inl (.inr Array.mem_push_self))
  | declare name mutable h hscope hv =>
    exact hc.modify he rfl (he.registers ((hs.chains _ h).registered _ hscope))
  | global name hv => exact hc.modify he rfl (.inl rfl)
  | setObject | setArray => exact hc.modify he rfl (.inr Array.mem_push_self)
  | _ => exact hc.same he rfl

theorem Step.ordered (h : Step s s') (hs : s.Ordered) : s'.Ordered :=
  ⟨h.all_places hs, fun _ => h.nests hs, h.sorted hs⟩

open Reprl.Stream in
theorem ordered_initial (outlet : Outlet) (fuzz : Sink) (console : Console) :
    (initial outlet fuzz console).Ordered := by
  refine ⟨⟨fun _ hv => hv.elim, ?_, fun _ hmem => absurd hmem List.not_mem_nil⟩, ?_, ?_⟩
  · exact Heap.All.add (fun _ hmem => absurd hmem (Array.not_mem_empty _)) Cell.all_emptyScope
  · rintro env rfl
    exact ⟨by simp [globalEnv, Machine.Registers], by simp [globalEnv, globalScope, initial],
      List.pairwise_singleton _ _⟩
  · have hempty : ({ outlet, fuzz, console } : Machine).Sorted := fun ref _ hc => by simp at hc
    exact hempty.add ⟨Nat.zero_le _, fun _ hr => hr⟩ rfl (.inl (.inl rfl))

theorem Reachable.ordered (h : Reachable s) : s.Ordered := by
  obtain ⟨outlet, fuzz, console, hs⟩ := h
  exact hs.keeps (fun _ _ => Step.ordered) (ordered_initial outlet fuzz console)

end Situation

end Reprl
