import Reprl.Proofs.Discipline.Call
import Reprl.Proofs.Machine.Lockstep

/-! Dialects of the language: the parts that scripts may consist of, and whether their code always
ends. Two actions agree under a dialect if they do the same on every machine whose functions are
all in the dialect, leave such a machine again, and go back to the levels at which they began. -/

namespace Reprl

open Source

namespace Levels

/-- How often the counters can still be raised. -/
def room (levels : Levels) : Nat :=
  (maxCallDepth - levels.depth) + (maxNesting - levels.nesting)

def nest (levels : Levels) : Levels := { levels with nesting := levels.nesting + 1 }

def call (levels : Levels) : Levels := { levels with depth := levels.depth + 1 }

def join (levels : Levels) (ref : Ref) : Levels := { levels with joining := ref :: levels.joining }

theorem room_nest {levels : Levels} (h : levels.nesting < maxNesting) :
    levels.nest.room < levels.room := by
  simp only [room, nest]
  omega

theorem room_call {levels : Levels} (h : levels.depth < maxCallDepth) :
    levels.call.room < levels.room := by
  simp only [room, call]
  omega

end Levels

structure Dialect where
  permits : Node → Bool
  /-- Whether all code of the dialect ends. Such code has no loops, and never puts objects in
  errors, whose text would need the text of what is in them. -/
  ends : Prop
  loopFree {s : Stmt} : ends → permits (.stmt s) = true → s.isLoop = false
  storeFree {e : Expr} : ends → permits (.expr e) = true → e.assignsMember = false

namespace Dialect

variable (D : Dialect)

def Permits (nodes : List Node) : Prop := ∀ node ∈ nodes, D.permits node = true

/-- What functions of the embedding program reply may be of any depth. -/
def AllowsCallable : Callable → Prop
  | .native (.host ..) => ¬D.ends
  | .native _ => True
  | .closure c => D.Permits c.body.parts

/-- Whether a value is one that code of the dialect makes. -/
def Allows : Value → Prop
  | .function _ f => D.AllowsCallable f
  | _ => True

/-- What objects of a class hold. If code ends, errors hold no objects. -/
def AllowsProperty (kind : ObjectClass) (value : Value) : Prop :=
  D.Allows value ∧ (D.ends → kind = .error → value.isFlat = true)

def AllowsCell : Cell → Prop
  | .scope bindings => ∀ e ∈ bindings.entries, D.Allows e.2.value
  | .object o => o.All (D.AllowsProperty o.kind)
  | .array a => a.All D.Allows

structure Holds (m : Machine) : Prop where
  cells : m.heap.All D.AllowsCell
  jobs : ∀ job ∈ m.jobs.toList, D.Allows job

/-- What comes out of an action. Only where code need not end, fuel is used up. -/
def Answers {ε α : Type} (returns : α → Prop) (throws : ε → Prop) : Except (Abrupt ε) α → Prop
  | .ok x => returns x
  | .error (.thrown e) => throws e
  | .error (.crashed _) => True
  | .error .exhausted => ¬D.ends

structure AgreesAt {ε α : Type} (a b : Action Machine ε α) (returns : α → Prop) (throws : ε → Prop)
    (m : Machine) : Prop where
  same : b m = a m
  answer : D.Answers returns throws (a m).1
  holds : D.Holds (a m).2
  levels_eq : (a m).2.levels = m.levels

def Agrees {ε α : Type} (levels : Levels) (a b : Action Machine ε α) (returns : α → Prop)
    (throws : ε → Prop) : Prop :=
  ∀ m, D.Holds m → m.levels = levels → D.AgreesAt a b returns throws m

/-- Values are all that there is to know. Deeper are the levels with less room above them. -/
abbrev setting : Setting where
  World := Unit
  Later _ _ := True
  Base := Levels
  Deeper levels inner := inner.room < levels.room
  permits node := D.permits node = true
  names _ := True
  natives f := D.AllowsCallable (.native f)
  ends := D.ends
  lags := False
  Has _ := D.Allows
  Chain _ _ := True
  Owns _ _ := True
  Sees levels _ m := D.Holds m ∧ m.levels = levels
  Rel levels w a b returns throws := D.Agrees levels a b (returns w) (throws w)

abbrev Runs {α : Type} (levels : Levels) (a b : Run α) (returns : α → Prop) : Prop :=
  D.Agrees levels a b returns D.Allows

variable {D}

theorem allowsCell_scope : D.AllowsCell (.scope {}) := fun _ hmem => absurd hmem List.not_mem_nil

theorem allowsCell_error (name message : String) : D.AllowsCell (.object (.error name message)) :=
  Object.All.error (fun _ => ⟨trivial, fun _ _ => rfl⟩) name message

theorem Answers.error {ε α β : Type} {returns : α → Prop} {throws : ε → Prop} {e : Abrupt ε}
    (h : D.Answers returns throws (.error e)) (gives : β → Prop) :
    D.Answers gives throws (.error e) := by
  cases e with
  | thrown e => exact h
  | crashed signal => trivial
  | exhausted => exact h

namespace Holds

variable {m m' : Machine}

/-- Nothing else of a machine matters. -/
theorem congr (h : D.Holds m) (hheap : m'.heap = m.heap) (hjobs : m'.jobs = m.jobs) : D.Holds m' :=
  ⟨hheap ▸ h.cells, hjobs ▸ h.jobs⟩

theorem object (h : D.Holds m) (ref : Ref) :
    (m.heap.object ref).All (D.AllowsProperty (m.heap.object ref).kind) :=
  h.cells.object (Object.All.empty .plain) ref

theorem array (h : D.Holds m) (ref : Ref) : (m.heap.array ref).All D.Allows := by
  have hempty : ArrayObject.All D.Allows {} :=
    .ofElements fun _ hv => absurd hv (Array.not_mem_empty _)
  exact h.cells.array hempty ref

theorem binding (h : D.Holds m) {scope : Ref} {name : String} {binding : Binding}
    (hb : (m.heap.bindings scope).get? name = some binding) : D.Allows binding.value :=
  h.cells.bindings allowsCell_scope scope _ (Table.mem_of_lookup hb)

theorem add (h : D.Holds m) {cell : Cell} (hc : D.AllowsCell cell) :
    D.Holds { m with heap := m.heap.add cell } := ⟨h.cells.add hc, h.jobs⟩

theorem declare (h : D.Holds m) (scope : Ref) (name : String) {value : Value} (hv : D.Allows value)
    (mutable : Bool) : D.Holds { m with heap := m.heap.declare scope name value mutable } := by
  refine ⟨h.cells.modify scope fun cell hc => ?_, h.jobs⟩
  cases cell with
  | scope bindings =>
    intro e he
    rcases Table.mem_insert he with rfl | hold
    · exact hv
    · exact hc e hold
  | object o => exact hc
  | array a => exact hc

/-- What is written to an object may be of its class or of another one. -/
theorem setObject (h : D.Holds m) (ref : Ref) (key : String) {value : Value}
    (hv : ∀ kind, D.AllowsProperty kind value) :
    D.Holds { m with heap := m.heap.modifyObject ref (·.set key value) } := by
  refine ⟨h.cells.modify ref fun cell hc => ?_, h.jobs⟩
  cases cell with
  | object o => exact Object.All.set hc key (hv o.kind)
  | scope bindings => exact hc
  | array a => exact hc

theorem setArray (h : D.Holds m) (ref : Ref) (key : String) {value : Value} (hv : D.Allows value) :
    D.Holds { m with heap := m.heap.modifyArray ref (·.set key value) } := by
  refine ⟨h.cells.modify ref fun cell hc => ?_, h.jobs⟩
  cases cell with
  | array a => exact ArrayObject.All.set (p := D.Allows) trivial hc key hv
  | scope bindings => exact hc
  | object o => exact hc

theorem push (h : D.Holds m) {job : Value} (hj : D.Allows job) :
    D.Holds { m with jobs := m.jobs.push job } := by
  refine ⟨h.cells, fun j hmem => ?_⟩
  rw [Queue.toList_push] at hmem
  rcases List.mem_append.mp hmem with hold | hnew
  · exact h.jobs j hold
  · rw [List.mem_singleton.mp hnew]
    exact hj

theorem pop (h : D.Holds m) {job : Value} {jobs : Queue Value}
    (hp : m.jobs.pop? = some (job, jobs)) : D.Allows job ∧ D.Holds { m with jobs } := by
  have hlist : m.jobs.toList = job :: jobs.toList := Queue.toList_of_pop? hp
  refine ⟨h.jobs job (hlist ▸ List.mem_cons_self), h.cells, fun j hmem => h.jobs j ?_⟩
  rw [hlist]
  exact List.mem_cons_of_mem _ hmem

end Holds

end Dialect

end Reprl
