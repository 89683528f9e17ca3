import Reprl.Machine.Handles
import Reprl.Proofs.Memory.Order

/-! Handles of what could be part of a cycle. A handle is dropped only when its cell was freed, and
freed cells do not come back, so every live cell that was tracked has its handle. Any cycle of live
nodes leads through such a cell, and when these are cleared references only go down. -/

namespace Reprl

namespace Memory

/-- What the memory may be once these cells were tracked, one after the other. Between any two of
them, any cells may have been freed. -/
inductive Follows : List Ref → Memory → Prop where
  | start : Follows [] {}
  | track {log : List Ref} {m : Memory} (h : Follows log m) (ref : Ref) :
    Follows (log ++ [ref]) (m.track ref)
  | free {log : List Ref} {m : Memory} (h : Follows log m) (ref : Ref) : Follows log (m.free ref)

variable {m : Memory} {log : List Ref} {ref : Ref}

theorem isLive_iff : m.isLive ref = true ↔ ref ∉ m.freed := by simp [isLive]

theorem isLive_track (m : Memory) (new ref : Ref) : (m.track new).isLive ref = m.isLive ref := by
  rw [track]
  split <;> rfl

theorem isLive_of_free {other : Ref} (h : (m.free other).isLive ref = true) : m.isLive ref = true := by
  rw [isLive_iff] at h ⊢
  exact fun hmem => h (List.mem_cons_of_mem _ hmem)

theorem mem_track_self (m : Memory) (new : Ref) : new ∈ (m.track new).handles := by simp [track]

/-- Pruning drops no handle of a live cell. -/
theorem mem_track (h : ref ∈ m.handles) (hl : m.isLive ref = true) (new : Ref) :
    ref ∈ (m.track new).handles := by
  rw [track]
  split
  · exact List.mem_append_left _ (List.mem_filter.mpr ⟨h, hl⟩)
  · exact List.mem_append_left _ h

theorem freed_of_track {new : Ref} (h : ref ∈ m.handles) (hnew : ref ∉ (m.track new).handles) :
    ref ∈ m.freed := by
  by_contra hfreed
  exact hnew (mem_track h (isLive_iff.mpr hfreed) new)

theorem Follows.mem_handles (h : Follows log m) (hr : ref ∈ log) (hl : m.isLive ref = true) :
    ref ∈ m.handles := by
  induction h with
  | start => cases hr
  | @track log m _ new ih =>
    rw [isLive_track] at hl
    rcases List.mem_append.mp hr with hold | hnew
    · exact mem_track (ih hold hl) hl new
    · rw [List.mem_singleton.mp hnew]
      exact mem_track_self m new
  | free _ other ih => exact ih hr (isLive_of_free hl)

/-- Functions need no handles: a cycle through a function leads through a scope as well. -/
def LiveNode (m : Memory) : Node → Prop
  | .cell ref => m.isLive ref = true
  | .closure _ _ => True

/-- The global scope, or a cell that has a handle. -/
def Clears (m : Memory) (node : Node) : Prop :=
  node = .cell globalScope ∨ ∃ ref ∈ m.handles, node = .cell ref

theorem Follows.clears {machine : Machine} (h : Follows machine.tracked.toList m)
    (hr : machine.Registers ref) (hl : m.isLive ref = true) : m.Clears (.cell ref) := by
  rcases hr with rfl | htracked
  · exact .inl rfl
  · exact .inr ⟨ref, h.mem_handles (Array.mem_def.mp htracked) hl, rfl⟩

end Memory

section Clearing

variable {h : Heap} {ref : Ref} {cell : Cell} {value : Value}

@[simp] theorem Cell.values_cleared (cell : Cell) : cell.cleared.values = [] := by
  cases cell <;> rfl

/-- A cell that still holds something was not cleared. -/
theorem Heap.mem_values_clearCell {target : Ref} (hc : (h.clearCell target).cells[ref]? = some cell)
    (hv : value ∈ cell.values) : ref ≠ target ∧ h.cells[ref]? = some cell := by
  rw [clearCell, Array.getElem?_modify] at hc
  by_cases hsame : target = ref
  · rw [if_pos hsame] at hc
    obtain ⟨c, -, rfl⟩ := Option.map_eq_some_iff.mp hc
    simp at hv
  · rw [if_neg hsame] at hc
    exact ⟨Ne.symm hsame, hc⟩

theorem Heap.mem_values_clearCells {targets : List Ref}
    (hc : (targets.foldl Heap.clearCell h).cells[ref]? = some cell) (hv : value ∈ cell.values) :
    ref ∉ targets ∧ h.cells[ref]? = some cell := by
  induction targets generalizing h with
  | nil => exact ⟨List.not_mem_nil, hc⟩
  | cons target rest ih =>
    obtain ⟨hrest, hcleared⟩ := ih hc
    obtain ⟨hne, hold⟩ := Heap.mem_values_clearCell hcleared hv
    exact ⟨List.not_mem_cons_of_ne_of_not_mem hne hrest, hold⟩

theorem Machine.mem_values_tornDown {m : Machine} {memory : Memory}
    (hc : (m.tornDown memory).heap.cells[ref]? = some cell) (hv : value ∈ cell.values) :
    ref ≠ globalScope ∧ ¬(ref ∈ memory.handles ∧ memory.isLive ref = true) ∧
      m.heap.cells[ref]? = some cell := by
  obtain ⟨hhandles, hglobal⟩ := Heap.mem_values_clearCells hc hv
  obtain ⟨hne, hold⟩ := Heap.mem_values_clearCell hglobal hv
  exact ⟨hne, fun hboth => hhandles (List.mem_filter.mpr hboth), hold⟩

end Clearing

instance (m : Machine) (ref : Ref) : Decidable (m.Registers ref) :=
  inferInstanceAs (Decidable (ref = globalScope ∨ ref ∈ m.tracked))

/-- Registered cells come first, then functions, then all other cells. -/
def Machine.rank (m : Machine) : Node → Nat
  | .cell ref => if m.Registers ref then ref else m.heap.next + 1 + ref
  | .closure _ _ => m.heap.next

namespace Machine

variable {m : Machine} {ref : Ref}

theorem rank_registered (h : m.Registers ref) : m.rank (.cell ref) = ref := if_pos h

theorem rank_unregistered (h : ¬m.Registers ref) : m.rank (.cell ref) = m.heap.next + 1 + ref :=
  if_neg h

theorem rank_cell_le (m : Machine) (ref : Ref) : m.rank (.cell ref) ≤ m.heap.next + 1 + ref := by
  by_cases h : m.Registers ref
  · rw [rank_registered h]
    omega
  · rw [rank_unregistered h]

theorem rank_cell_le_limit (m : Machine) (h : ref < m.heap.next) :
    m.rank (.cell ref) ≤ 2 * m.heap.next + 1 := by
  have hle := m.rank_cell_le ref
  have hadd := Nat.add_le_add_left (Nat.le_of_lt h) (m.heap.next + 1)
  omega

end Machine

namespace Situation

variable {s : Situation} {memory : Memory} {a b : Node} {env : Env} {value : Value}

def tornDown (s : Situation) (memory : Memory) : Situation :=
  s.onMachine (s.machine.tornDown memory)

theorem Present.of_tornDown (h : (s.tornDown memory).Present value) : s.Present value := by
  cases h with
  | held h => exact .held h
  | content hc h => exact .content (Machine.mem_values_tornDown hc h).2.2 h
  | job h => exact absurd h List.not_mem_nil

theorem InUse.of_tornDown (h : (s.tornDown memory).InUse env) : s.InUse env := by
  rcases h with hchain | ⟨identity, c, hpresent, he⟩
  · exact .inl hchain
  · exact .inr ⟨identity, c, hpresent.of_tornDown, he⟩

namespace Ordered

theorem places (hs : s.Ordered) (h : s.Present value) : s.machine.Places value := by
  cases h with
  | held h => exact hs.values.held _ h
  | content hc h => exact (hs.values.cells _ (Array.mem_of_getElem? hc)).of_mem_values h
  | job h => exact hs.values.jobs _ h

theorem nests (hs : s.Ordered) (h : s.InUse env) : s.machine.Nests env := by
  rcases h with hchain | ⟨identity, c, hpresent, rfl⟩
  · exact hs.chains env hchain
  · exact hs.places hpresent

/-- A cell that is not registered ranks above all that it refers to, and so does a function. -/
theorem rank_lt (hs : s.Ordered) (h : s.Refers a b)
    (ha : ∀ ref, a = .cell ref → ¬s.machine.Registers ref) : s.machine.rank b < s.machine.rank a := by
  cases h with
  | parent h hsuffix =>
    have hmem := hsuffix.subset List.mem_cons_self
    exact absurd ((hs.nests h).registered _ hmem) (ha _ rfl)
  | @content ref cell value _ hc h hn =>
    have hunregistered := ha ref rfl
    have hcell := (hs.cells ref cell hc).resolve_left hunregistered
    have holder : value.OlderThan ref := hcell.of_mem_values h
    rw [Machine.rank_unregistered hunregistered]
    cases value with
    | object other | array other =>
      cases hn
      exact Nat.lt_of_le_of_lt (s.machine.rank_cell_le other) (Nat.add_lt_add_left holder _)
    | function identity f =>
      cases f with
      | native => cases hn
      | closure c =>
        cases hn
        simp only [Machine.rank]
        omega
    | _ => cases hn
  | captured h hc =>
    have hnests : s.machine.Nests _ := hs.places h
    rw [hc] at hnests
    rw [Machine.rank_registered (hnests.registered _ List.mem_cons_self)]
    exact hnests.made _ List.mem_cons_self

theorem rank_parent_lt (hs : s.Ordered) (h : s.InUse env) {scope around : Ref} {outer : Env}
    (hsuffix : scope :: around :: outer <:+ env) :
    s.machine.rank (.cell around) < s.machine.rank (.cell scope) := by
  have hnests := hs.nests h
  have hscope := hnests.registered scope (hsuffix.subset (by simp))
  have haround := hnests.registered around (hsuffix.subset (by simp))
  rw [Machine.rank_registered hscope, Machine.rank_registered haround]
  have hpairwise := hnests.older.sublist hsuffix.sublist
  exact (List.pairwise_cons.mp hpairwise).1 around List.mem_cons_self

theorem rank_tornDown (hs : s.Ordered) (hm : memory.Follows s.machine.tracked.toList)
    (ha : memory.LiveNode a) (h : (s.tornDown memory).Refers a b) :
    s.machine.rank b < s.machine.rank a ∧ s.machine.rank a ≤ 2 * s.machine.heap.next + 1 := by
  cases h with
  | parent h hsuffix =>
    have hscope := (hs.nests h.of_tornDown).made _ (hsuffix.subset List.mem_cons_self)
    exact ⟨hs.rank_parent_lt h.of_tornDown hsuffix, s.machine.rank_cell_le_limit hscope⟩
  | @content ref cell value _ hc h hn =>
    obtain ⟨hglobal, hhandle, hold⟩ := Machine.mem_values_tornDown hc h
    -- A live cell that is registered was cleared.
    have hunregistered : ¬s.machine.Registers ref := by
      intro hr
      rcases hm.clears hr ha with heq | ⟨_, hmem, heq⟩
      · cases heq
        exact hglobal rfl
      · cases heq
        exact hhandle ⟨hmem, ha⟩
    obtain ⟨hlt, -⟩ := Array.getElem?_eq_some_iff.mp hold
    refine ⟨hs.rank_lt (.content hold h hn) fun _ heq => ?_, s.machine.rank_cell_le_limit hlt⟩
    cases heq
    exact hunregistered
  | captured h hc =>
    refine ⟨hs.rank_lt (.captured h.of_tornDown hc) nofun, ?_⟩
    simp only [Machine.rank]
    omega

/-- A cycle of live nodes leads through a cell that is cleared at the end. -/
theorem exists_clears (hs : s.Ordered) (hm : memory.Follows s.machine.tracked.toList)
    {nodes : List Node} (hc : s.Cycle nodes) (hlive : ∀ node ∈ nodes, memory.LiveNode node) :
    ∃ node ∈ nodes, memory.Clears node := by
  by_contra hnone
  simp only [not_exists, not_and] at hnone
  have hdown : ∀ a b, (memory.LiveNode a ∧ ¬memory.Clears a) → s.Refers a b →
      s.machine.rank b < s.machine.rank a := by
    intro a b ha hab
    refine hs.rank_lt hab fun ref heq hr => ?_
    subst heq
    exact ha.2 (hm.clears hr ha.1)
  obtain ⟨node, hmem, houtside⟩ := hc.exists_of_descent hdown
  exact houtside ⟨hlive node hmem, hnone node hmem⟩

theorem exists_dead (hs : s.Ordered) (hm : memory.Follows s.machine.tracked.toList)
    {nodes : List Node} (hc : (s.tornDown memory).Cycle nodes) :
    ∃ node ∈ nodes, ¬memory.LiveNode node :=
  hc.exists_of_descent fun _ _ ha hab => (hs.rank_tornDown hm ha hab).1

/-- Live nodes are left after the end only where they are held from outside. -/
theorem held_of_outlasts (hs : s.Ordered) (hm : memory.Follows s.machine.tracked.toList)
    {left : Node → Prop} (hl : (s.tornDown memory).Outlasts left)
    (hlive : ∀ node, left node → memory.LiveNode node) {node : Node} (hn : left node) :
    ∃ value root, s.held value ∧ Node.of value = some root ∧
      Relation.ReflTransGen (s.tornDown memory).Refers root node := by
  have hdown : ∀ a b, left a → (s.tornDown memory).Refers a b → s.machine.rank b < s.machine.rank a ∧
      s.machine.rank a ≤ 2 * s.machine.heap.next + 1 := fun a _ ha => hs.rank_tornDown hm (hlive a ha)
  obtain ⟨value, root, hroot, hof, hway⟩ := hl.reached hdown hn
  have hheld : s.held value := hroot.resolve_right List.not_mem_nil
  exact ⟨value, root, hheld, hof, hway⟩

end Ordered

end Situation

end Reprl
