import Mathlib.Logic.Relation
import Reprl.Machine.Basic
import Reprl.Proofs.Outcome
import Reprl.Proofs.Source.Identifiers

/-! Policies for scripts: the names that code may refer to, the scopes in which it may run and
whether it may hold the intrinsics. An action abides by a policy if it changes a machine by
permitted changes only, and hands out nothing that code must not hold. -/

namespace Reprl

open Reprl.Stream

structure Policy where
  /-- Names that code may refer to. -/
  names : String → Prop
  /-- Chains of scopes in which code may run. -/
  envs : Env → Prop
  /-- Whether code may hold the intrinsics. -/
  intrinsics : Prop
  envs_global : envs globalEnv
  envs_cons {env : Env} : envs env → ∀ scope, envs (scope :: env)

namespace Policy

variable (P : Policy)

def Spells (identifiers : List String) : Prop := ∀ name ∈ identifiers, P.names name

theorem spells_nil : P.Spells [] := fun _ hmem => absurd hmem List.not_mem_nil

@[simp] theorem spells_cons {name : String} {rest : List String} :
    P.Spells (name :: rest) ↔ P.names name ∧ P.Spells rest := List.forall_mem_cons

@[simp] theorem spells_append {first second : List String} :
    P.Spells (first ++ second) ↔ P.Spells first ∧ P.Spells second := List.forall_mem_append

def AllowsCallable : Callable → Prop
  | .native (.intrinsic _) => P.intrinsics
  | .native _ => True
  | .closure c => P.envs c.env ∧ P.Spells c.body.identifiers

/-- Whether code may hold a value. Only functions are able to do harm. -/
def Allows : Value → Prop
  | .function _ f => P.AllowsCallable f
  | _ => True

def AllowsObject (o : Object) : Prop := ∀ e ∈ o.properties.entries, P.Allows e.2

def AllowsArray (a : ArrayObject) : Prop :=
  (∀ value ∈ a.elements, P.Allows value) ∧ ∀ e ∈ a.extra.entries, P.Allows e.2

def AllowsFlow : Flow → Prop
  | .returned value => P.Allows value
  | _ => True

/-- A scope may hold anything under a name that code cannot refer to. -/
def AllowsCell : Cell → Prop
  | .scope bindings => ∀ e ∈ bindings.entries, P.names e.1 → P.Allows e.2.value
  | .object o => P.AllowsObject o
  | .array a => P.AllowsArray a

/-- Whatever code can reach on a machine it may hold. -/
structure Holds (m : Machine) : Prop where
  cells : ∀ cell ∈ m.heap.cells, P.AllowsCell cell
  jobs : ∀ job ∈ m.jobs.toList, P.Allows job

/-- What a step may do to a machine when code may declare names in some scopes. -/
inductive Change (own : Ref → Prop) : Machine → Machine → Prop where
  | alloc {m : Machine} (cell : Cell) (h : P.AllowsCell cell) :
    Change own m { m with heap := m.heap.add cell }
  | declare {m : Machine} {scope : Ref} (name : String) (value : Value) (mutable : Bool)
    (h : own scope) (hv : P.names name → P.Allows value) :
    Change own m { m with heap := m.heap.declare scope name value mutable }
  /-- The value of a binding that is no constant is replaced. -/
  | assign {m : Machine} {scope : Ref} {name : String} {binding : Binding} (value : Value)
    (hb : (m.heap.bindings scope).get? name = some binding) (hm : binding.mutable = true)
    (hv : P.Allows value) : Change own m { m with heap := m.heap.declare scope name value true }
  /-- A name that no scope of a chain binds becomes a global one. -/
  | global {m : Machine} {env : Env} {name : String} (value : Value) (he : P.envs env)
    (hn : ∀ scope ∈ env, (m.heap.bindings scope).get? name = none) (hv : P.Allows value) :
    Change own m { m with heap := m.heap.declare globalScope name value true }
  | setObject {m : Machine} (ref : Ref) (key : String) (value : Value) (hv : P.Allows value) :
    Change own m { m with heap := m.heap.modifyObject ref (·.set key value) }
  | setArray {m : Machine} (ref : Ref) (key : String) (value : Value) (hv : P.Allows value) :
    Change own m { m with heap := m.heap.modifyArray ref (·.set key value) }
  | identity {m : Machine} : Change own m { m with identities := m.identities + 1 }
  | track {m : Machine} (ref : Ref) : Change own m { m with tracked := m.tracked.push ref }
  | push {m : Machine} (job : Value) (hv : P.Allows job) :
    Change own m { m with jobs := m.jobs.push job }
  | pop {m : Machine} {job : Value} {jobs : Queue Value} (h : m.jobs.pop? = some (job, jobs)) :
    Change own m { m with jobs }
  | levels {m : Machine} (depth nesting : Nat) (joining : List Ref) :
    Change own m { m with depth, nesting, joining }
  | console {m : Machine} (console : Console) : Change own m { m with console }
  | fuzz {m : Machine} (fuzz : Sink) (h : P.intrinsics) : Change own m { m with fuzz }

/-- Some changes after another, where names are declared only in scopes that code owns and in
scopes that are younger than the first machine. -/
def Reach (own : Ref → Prop) (m m' : Machine) : Prop :=
  Relation.ReflTransGen (P.Change fun scope => own scope ∨ m.heap.next ≤ scope) m m'

end Policy

end Reprl
