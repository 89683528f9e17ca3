import Reprl.Proofs.Heap
import Reprl.Proofs.Policy.Basic
import Reprl.Proofs.Value.Contents

/-! What permitted changes keep. Code still reaches only what it may hold, and cells stay. -/

namespace Reprl

namespace Policy

variable {P : Policy}

namespace Holds

variable {m : Machine}

theorem object (h : P.Holds m) (ref : Ref) : P.AllowsObject (m.heap.object ref) :=
  Heap.All.object h.cells (Object.All.empty .plain) ref

theorem array (h : P.Holds m) (ref : Ref) : P.AllowsArray (m.heap.array ref) :=
  have hempty : P.AllowsArray {} :=
    ArrayObject.All.ofElements fun _ hv => absurd hv (Array.not_mem_empty _)
  Heap.All.array h.cells hempty ref

theorem binding (h : P.Holds m) {scope : Ref} {name : String} {binding : Binding}
    (hb : (m.heap.bindings scope).get? name = some binding) (hn : P.names name) :
    P.Allows binding.value := by
  have hempty : P.AllowsCell (.scope {}) := fun _ hmem => absurd hmem List.not_mem_nil
  exact Heap.All.bindings h.cells hempty scope _ (Table.mem_of_lookup hb) hn

theorem modify (h : P.Holds m) (ref : Ref) {f : Cell → Cell}
    (hf : ∀ cell, P.AllowsCell cell → P.AllowsCell (f cell)) :
    P.Holds { m with heap := ⟨m.heap.cells.modify ref f⟩ } :=
  ⟨Heap.All.modify h.cells ref hf, h.jobs⟩

theorem declare (h : P.Holds m) (scope : Ref) {name : String} {value : Value}
    (hv : P.names name → P.Allows value) (mutable : Bool) :
    P.Holds { m with heap := m.heap.declare scope name value mutable } := by
  refine h.modify scope fun cell hc => ?_
  cases cell with
  | scope bindings =>
    intro e he hn
    rcases Table.mem_insert he with rfl | hold
    · exact hv hn
    · exact hc e hold hn
  | object o => exact hc
  | array a => exact hc

end Holds

variable {own : Ref → Prop} {m m' : Machine}

theorem Change.holds (hc : P.Change own m m') (h : P.Holds m) : P.Holds m' := by
  cases hc with
  | alloc cell hcell => exact ⟨Heap.All.add h.cells hcell, h.jobs⟩
  -- Under names that code cannot refer to, a scope may hold anything.
  | declare name value mutable hown hv => exact h.declare _ hv mutable
  | assign value hb hm hv => exact h.declare _ (fun _ => hv) true
  | global value he hn hv => exact h.declare _ (fun _ => hv) true
  | setObject ref key value hv =>
    refine h.modify ref fun cell hc => ?_
    cases cell with
    | object o => exact Object.All.set hc key hv
    | scope bindings => exact hc
    | array a => exact hc
  | setArray ref key value hv =>
    refine h.modify ref fun cell hc => ?_
    cases cell with
    | array a => exact ArrayObject.All.set (p := P.Allows) trivial hc key hv
    | scope bindings => exact hc
    | object o => exact hc
  | push job hv =>
    refine ⟨h.cells, fun j hmem => ?_⟩
    rw [Queue.toList_push] at hmem
    rcases List.mem_append.mp hmem with hold | hnew
    · exact h.jobs j hold
    · rw [List.mem_singleton.mp hnew]
      exact hv
  | pop hpop =>
    refine ⟨h.cells, fun j hmem => h.jobs j ?_⟩
    rw [Queue.toList_of_pop? hpop]
    exact List.mem_cons_of_mem _ hmem
  | identity | track | levels | console | fuzz => exact ⟨h.cells, h.jobs⟩

theorem Change.next_le (hc : P.Change own m m') : m.heap.next ≤ m'.heap.next := by
  cases hc <;> simp

theorem Change.mono {own' : Ref → Prop} (hc : P.Change own m m')
    (hown : ∀ scope, own scope → own' scope) : P.Change own' m m' := by
  cases hc with
  | declare name value mutable h hv => exact .declare name value mutable (hown _ h) hv
  | alloc cell h => exact .alloc cell h
  | assign value hb hm hv => exact .assign value hb hm hv
  | global value he hn hv => exact .global value he hn hv
  | setObject ref key value hv => exact .setObject ref key value hv
  | setArray ref key value hv => exact .setArray ref key value hv
  | identity => exact .identity
  | track ref => exact .track ref
  | push job hv => exact .push job hv
  | pop h => exact .pop h
  | levels depth nesting joining => exact .levels depth nesting joining
  | console console => exact .console console
  | fuzz fuzz h => exact .fuzz fuzz h

namespace Reach

variable {own own' : Ref → Prop} {m m' m'' : Machine}

theorem refl (own : Ref → Prop) (m : Machine) : P.Reach own m m := Relation.ReflTransGen.refl

theorem of_change (hc : P.Change (fun scope => own scope ∨ m.heap.next ≤ scope) m m') :
    P.Reach own m m' := Relation.ReflTransGen.single hc

theorem holds (hr : P.Reach own m m') (h : P.Holds m) : P.Holds m' := by
  induction hr with
  | refl => exact h
  | tail _ hc ih => exact hc.holds ih

theorem next_le (hr : P.Reach own m m') : m.heap.next ≤ m'.heap.next := by
  induction hr with
  | refl => exact Nat.le_refl _
  | tail _ hc ih => exact Nat.le_trans ih hc.next_le

/-- The second part may declare names in any scope that is young for the first machine. -/
theorem trans (hr : P.Reach own m m') (hr' : P.Reach own' m' m'')
    (ho : ∀ scope, own' scope → own scope ∨ m.heap.next ≤ scope) : P.Reach own m m'' := by
  refine Relation.ReflTransGen.trans hr (Relation.ReflTransGen.mono (fun _ _ hc => ?_) _ _ hr')
  refine hc.mono fun scope hscope => ?_
  rcases hscope with howned | hyoung
  · exact ho scope howned
  · exact .inr (Nat.le_trans hr.next_le hyoung)

end Reach

/-- Code comes to own scopes only that were opened after a machine. -/
structure Opens (m : Machine) (own own' : Ref → Prop) : Prop where
  kept : ∀ scope, own scope → own' scope
  young : ∀ scope, own' scope → own scope ∨ m.heap.next ≤ scope

namespace Opens

variable {own own' own'' : Ref → Prop} {m m' : Machine}

theorem refl (m : Machine) (own : Ref → Prop) : Opens m own own := ⟨fun _ h => h, fun _ h => .inl h⟩

theorem trans (h : Opens m own own') (h' : Opens m' own' own'') (hle : m.heap.next ≤ m'.heap.next) :
    Opens m own own'' := by
  refine ⟨fun scope ho => h'.kept scope (h.kept scope ho), fun scope ho => ?_⟩
  rcases h'.young scope ho with hold | hyoung
  · exact h.young scope hold
  · exact .inr (Nat.le_trans hle hyoung)

end Opens

end Policy

end Reprl
