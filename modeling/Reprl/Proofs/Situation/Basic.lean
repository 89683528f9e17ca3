import Mathlib.Logic.Relation
import Reprl.Machine.Basic
import Reprl.Proofs.Value.Contents

/-! What code gets hold of. In a situation code holds some values and runs in some chains of
scopes. All that it does is a sequence of a few kinds of steps: it makes things of what it holds,
it finds what is in them, and it changes what they hold. So what every step keeps, code keeps. -/

namespace Reprl

structure Situation where
  machine : Machine
  held : Value → Prop
  chains : Env → Prop

namespace Situation

variable {s s' s'' : Situation} {value : Value} {env : Env}

def Has (s : Situation) (value : Value) : Prop := value.isPlain = true ∨ s.held value

def HasAll (s : Situation) (values : List Value) : Prop := ∀ value ∈ values, s.Has value

theorem has_plain (s : Situation) (h : value.isPlain = true) : s.Has value := .inl h

/-- Another machine with what code holds unchanged. -/
def onMachine (s : Situation) (machine : Machine) : Situation := { s with machine }

def gain (s : Situation) (value : Value) : Situation :=
  { s with held := fun other => other = value ∨ s.held other }

def enter (s : Situation) (env : Env) : Situation :=
  { s with chains := fun other => other = env ∨ s.chains other }

/-- The situation after an identity was given away. -/
def identify (s : Situation) : Situation :=
  s.onMachine { s.machine with identities := s.machine.identities + 1 }

def alloc (s : Situation) (cell : Cell) : Situation :=
  s.onMachine { s.machine with heap := s.machine.heap.add cell }

def track (s : Situation) (ref : Ref) : Situation :=
  s.onMachine { s.machine with tracked := s.machine.tracked.push ref }

def onHeap (s : Situation) (heap : Heap) : Situation := s.onMachine { s.machine with heap }

inductive Step (s : Situation) : Situation → Prop where
  | native (f : Native) : Step s (s.identify.gain (.function s.machine.identities (.native f)))
  | closure (c : Closure) (h : s.chains c.env) :
    Step s (s.identify.gain (.function s.machine.identities (.closure c)))
  | symbol (description : Option String) :
    Step s (s.identify.gain (.symbol s.machine.identities description))
  | object (o : Object) (h : o.All s.Has) :
    Step s ((s.alloc (.object o)).gain (.object s.machine.heap.next))
  | array (elements : Array Value) (h : ∀ value ∈ elements, s.Has value) :
    Step s ((s.alloc (.array (.ofElements elements))).gain (.array s.machine.heap.next))
  /-- A scope is opened inside others. -/
  | scope {env : Env} (h : s.chains env) :
    Step s (((s.alloc (.scope {})).track s.machine.heap.next).enter (s.machine.heap.next :: env))
  /-- A function runs in the scopes in which it was made. -/
  | inside {identity : Nat} {c : Closure} (h : s.held (.function identity (.closure c))) :
    Step s (s.enter c.env)
  | binding {env : Env} {scope : Ref} {name : String} {binding : Binding} (h : s.chains env)
    (hs : scope ∈ env) (hb : (s.machine.heap.bindings scope).get? name = some binding) :
    Step s (s.gain binding.value)
  | property {ref : Ref} {key : String} {value : Value} (h : s.held (.object ref))
    (hv : (s.machine.heap.object ref).get? key = some value) : Step s (s.gain value)
  | element {ref : Ref} {value : Value} (h : s.held (.array ref))
    (hv : value ∈ (s.machine.heap.array ref).elements ∨
      ∃ key, (key, value) ∈ (s.machine.heap.array ref).extra.entries) : Step s (s.gain value)
  | declare {env : Env} {scope : Ref} (name : String) {value : Value} (mutable : Bool)
    (h : s.chains env) (hs : scope ∈ env) (hv : s.Has value) :
    Step s (s.onHeap (s.machine.heap.declare scope name value mutable))
  | global (name : String) {value : Value} (hv : s.Has value) :
    Step s (s.onHeap (s.machine.heap.declare globalScope name value true))
  | setObject {ref : Ref} (key : String) {value : Value} (h : s.held (.object ref))
    (hv : s.Has value) :
    Step s ((s.track ref).onHeap (s.machine.heap.modifyObject ref (·.set key value)))
  | setArray {ref : Ref} (key : String) {value : Value} (h : s.held (.array ref))
    (hv : s.Has value) :
    Step s ((s.track ref).onHeap (s.machine.heap.modifyArray ref (·.set key value)))
  | push {job : Value} (h : s.Has job) :
    Step s (s.onMachine { s.machine with jobs := s.machine.jobs.push job })
  | pop {job : Value} {jobs : Queue Value} (h : s.machine.jobs.pop? = some (job, jobs)) :
    Step s ((s.onMachine { s.machine with jobs }).gain job)
  | levels (depth nesting : Nat) (joining : List Ref) :
    Step s (s.onMachine { s.machine with depth, nesting, joining })
  | output (fuzz : Stream.Sink) (console : Console) :
    Step s (s.onMachine { s.machine with fuzz, console })

def Steps : Situation → Situation → Prop := Relation.ReflTransGen Step

/-- Code in the second situation holds all that it held in the first one. -/
structure Grows (s s' : Situation) : Prop where
  held : ∀ value, s.held value → s'.held value
  chains : ∀ env, s.chains env → s'.chains env

namespace Grows

theorem refl (s : Situation) : Grows s s := ⟨fun _ h => h, fun _ h => h⟩

theorem trans (h : Grows s s') (h' : Grows s' s'') : Grows s s'' :=
  ⟨fun value hv => h'.held value (h.held value hv), fun env he => h'.chains env (h.chains env he)⟩

theorem has (h : Grows s s') (hv : s.Has value) : s'.Has value := hv.imp_right (h.held value)

theorem chain (h : Grows s s') (he : s.chains env) : s'.chains env := h.chains env he

theorem gain (s : Situation) (value : Value) : Grows s (s.gain value) :=
  ⟨fun _ h => .inr h, fun _ h => h⟩

theorem enter (s : Situation) (env : Env) : Grows s (s.enter env) :=
  ⟨fun _ h => h, fun _ h => .inr h⟩

theorem onMachine (s : Situation) (machine : Machine) : Grows s (s.onMachine machine) :=
  ⟨fun _ h => h, fun _ h => h⟩

end Grows

theorem Step.grows (h : Step s s') : Grows s s' := by
  cases h with
  | native | closure | symbol | object | array | pop =>
    exact (Grows.onMachine s _).trans (.gain _ _)
  | scope =>
    exact ((Grows.onMachine s _).trans (.onMachine _ _)).trans (.enter _ _)
  | inside => exact .enter s _
  | binding | property | element => exact .gain s _
  | declare | global | push | levels | output => exact .onMachine s _
  | setObject | setArray => exact (Grows.onMachine s _).trans (.onMachine _ _)

theorem Steps.grows (h : Steps s s') : Grows s s' := by
  induction h with
  | refl => exact .refl s
  | tail _ hstep ih => exact ih.trans hstep.grows

/-- What every step keeps holds in all situations that come of a situation. -/
theorem Steps.keeps {Invariant : Situation → Prop}
    (h : ∀ s s', Step s s' → Invariant s → Invariant s') (hs : Steps s s') (hi : Invariant s) :
    Invariant s' := by
  induction hs with
  | refl => exact hi
  | tail _ hstep ih => exact h _ _ hstep ih

theorem has_gain (s : Situation) (value : Value) : (s.gain value).Has value := .inr (.inl rfl)

theorem chains_enter (s : Situation) (env : Env) : (s.enter env).chains env := .inl rfl

end Situation

end Reprl
