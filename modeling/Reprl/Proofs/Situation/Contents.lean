import Reprl.Proofs.Situation.Basic

/-! A property of all values that are there: those that code holds, those in cells of the heap and
those of the jobs. -/

namespace Reprl

/-- Every value in a cell has a property. -/
def Cell.All (p : Value → Prop) : Cell → Prop
  | .scope bindings => ∀ e ∈ bindings.entries, p e.2.value
  | .object o => o.All p
  | .array a => a.All p

namespace Situation

structure All (p : Value → Prop) (s : Situation) : Prop where
  held : ∀ value, s.held value → p value
  cells : s.machine.heap.All (Cell.All p)
  jobs : ∀ job ∈ s.machine.jobs.toList, p job

namespace All

variable {p q : Value → Prop} {s : Situation} {value : Value}

theorem mono (h : All p s) (hpq : ∀ value, p value → q value) : All q s where
  held value hv := hpq value (h.held value hv)
  cells cell hc := by
    have hcell := h.cells cell hc
    cases cell with
    | scope bindings => exact fun e he => hpq _ (hcell e he)
    | object o => exact fun e he => hpq _ (hcell e he)
    | array a => exact ⟨fun v hv => hpq v (hcell.1 v hv), fun e he => hpq _ (hcell.2 e he)⟩
  jobs job hj := hpq job (h.jobs job hj)

/-- What code holds has the property if all plain values have it. -/
theorem has (h : All p s) (hp : ∀ value, value.isPlain = true → p value) (hv : s.Has value) :
    p value := hv.elim (hp value) (h.held value)

theorem gain (h : All p s) (hv : p value) : All p (s.gain value) :=
  ⟨fun _ hother => hother.elim (fun heq => heq ▸ hv) (h.held _), h.cells, h.jobs⟩

theorem enter (h : All p s) (env : Env) : All p (s.enter env) := ⟨h.held, h.cells, h.jobs⟩

theorem identify (h : All p s) : All p s.identify := ⟨h.held, h.cells, h.jobs⟩

theorem track (h : All p s) (ref : Ref) : All p (s.track ref) := ⟨h.held, h.cells, h.jobs⟩

theorem alloc (h : All p s) {cell : Cell} (hc : cell.All p) : All p (s.alloc cell) :=
  ⟨h.held, h.cells.add hc, h.jobs⟩

theorem modify (h : All p s) (ref : Ref) {f : Cell → Cell}
    (hf : ∀ cell, cell.All p → (f cell).All p) :
    All p (s.onHeap ⟨s.machine.heap.cells.modify ref f⟩) := ⟨h.held, h.cells.modify ref hf, h.jobs⟩

theorem declare (h : All p s) (scope : Ref) (name : String) (hv : p value) (mutable : Bool) :
    All p (s.onHeap (s.machine.heap.declare scope name value mutable)) := by
  refine h.modify scope fun cell hc => ?_
  cases cell with
  | scope bindings =>
    intro e he
    rcases Table.mem_insert he with rfl | hold
    · exact hv
    · exact hc e hold
  | object o => exact hc
  | array a => exact hc

theorem setObject (h : All p s) (ref : Ref) (key : String) (hv : p value) :
    All p (s.onHeap (s.machine.heap.modifyObject ref (·.set key value))) := by
  refine h.modify ref fun cell hc => ?_
  cases cell with
  | object o => exact Object.All.set hc key hv
  | scope bindings => exact hc
  | array a => exact hc

theorem setArray (h : All p s) (hu : p .undefined) (ref : Ref) (key : String) (hv : p value) :
    All p (s.onHeap (s.machine.heap.modifyArray ref (·.set key value))) := by
  refine h.modify ref fun cell hc => ?_
  cases cell with
  | array a => exact ArrayObject.All.set hu hc key hv
  | scope bindings => exact hc
  | object o => exact hc

theorem binding (h : All p s) {scope : Ref} {name : String} {binding : Binding}
    (hb : (s.machine.heap.bindings scope).get? name = some binding) : p binding.value := by
  have hempty : Cell.All p (.scope {}) := fun _ hmem => absurd hmem List.not_mem_nil
  exact h.cells.bindings hempty scope _ (Table.mem_of_lookup hb)

theorem property (h : All p s) {ref : Ref} {key : String}
    (hv : (s.machine.heap.object ref).get? key = some value) : p value :=
  Object.All.get? (h.cells.object (Object.All.empty .plain) ref) hv

theorem element (h : All p s) {ref : Ref} (hv : value ∈ (s.machine.heap.array ref).elements ∨
    ∃ key, (key, value) ∈ (s.machine.heap.array ref).extra.entries) : p value := by
  have hempty : ArrayObject.All p {} :=
    .ofElements fun _ hmem => absurd hmem (Array.not_mem_empty _)
  have harray : (s.machine.heap.array ref).All p := h.cells.array hempty ref
  rcases hv with hdense | ⟨key, hextra⟩
  · exact harray.1 value hdense
  · exact harray.2 _ hextra

theorem push (h : All p s) (hv : p value) :
    All p (s.onMachine { s.machine with jobs := s.machine.jobs.push value }) := by
  refine ⟨h.held, h.cells, fun job hmem => ?_⟩
  have hmem : job ∈ (s.machine.jobs.push value).toList := hmem
  rw [Queue.toList_push] at hmem
  rcases List.mem_append.mp hmem with hold | hnew
  · exact h.jobs job hold
  · rw [List.mem_singleton.mp hnew]
    exact hv

theorem pop (h : All p s) {jobs : Queue Value} (hpop : s.machine.jobs.pop? = some (value, jobs)) :
    All p ((s.onMachine { s.machine with jobs }).gain value) := by
  have hjobs : s.machine.jobs.toList = value :: jobs.toList := Queue.toList_of_pop? hpop
  have hlater : All p (s.onMachine { s.machine with jobs }) :=
    ⟨h.held, h.cells, fun job hmem => h.jobs job (hjobs ▸ List.mem_cons_of_mem _ hmem)⟩
  exact hlater.gain (h.jobs value (hjobs ▸ List.mem_cons_self))

end All

/-- Values that a step may make. All others were there before. -/
inductive Made (s s' : Situation) : Value → Prop where
  | native (f : Native) : Made s s' (.function s.machine.identities (.native f))
  | closure (c : Closure) (h : s.chains c.env) :
    Made s s' (.function s.machine.identities (.closure c))
  | symbol (description : Option String)
    (h : s' = s.identify.gain (.symbol s.machine.identities description)) :
    Made s s' (.symbol s.machine.identities description)
  | object : Made s s' (.object s.machine.heap.next)
  | array : Made s s' (.array s.machine.heap.next)

variable {s s' : Situation} {p : Value → Prop}

/-- A property of plain values and of the values that a step makes stays with all values. -/
theorem Step.all (h : Step s s') (hp : ∀ value, value.isPlain = true → p value)
    (hm : ∀ value, Made s s' value → p value) (ha : All p s) : All p s' := by
  have held : ∀ {value}, s.Has value → p value := fun hv => ha.has hp hv
  have hundefined : p .undefined := hp .undefined rfl
  cases h with
  | native f => exact ha.identify.gain (hm _ (.native f))
  | closure c h => exact ha.identify.gain (hm _ (.closure c h))
  | symbol description => exact ha.identify.gain (hm _ (.symbol description rfl))
  | object o h =>
    have hcell : Cell.All p (.object o) := fun e he => held (h e he)
    exact (ha.alloc hcell).gain (hm _ .object)
  | array elements h =>
    have hcell : Cell.All p (.array (.ofElements elements)) :=
      ArrayObject.All.ofElements fun v hv => held (h v hv)
    exact (ha.alloc hcell).gain (hm _ .array)
  | scope h =>
    have hcell : Cell.All p (.scope {}) := fun _ hmem => absurd hmem List.not_mem_nil
    exact ((ha.alloc hcell).track _).enter _
  | inside h => exact ha.enter _
  | binding h hs hb => exact ha.gain (ha.binding hb)
  | property h hv => exact ha.gain (ha.property hv)
  | element h hv => exact ha.gain (ha.element hv)
  | declare name mutable h hs hv => exact ha.declare _ name (held hv) mutable
  | global name hv => exact ha.declare _ name (held hv) true
  | @setObject ref key value h hv => exact (ha.track ref).setObject ref key (held hv)
  | @setArray ref key value h hv => exact (ha.track ref).setArray hundefined ref key (held hv)
  | push h => exact ha.push (held h)
  | pop h => exact ha.pop h
  | levels | output => exact ⟨ha.held, ha.cells, ha.jobs⟩

end Situation

end Reprl
