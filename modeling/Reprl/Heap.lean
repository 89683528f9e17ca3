import Reprl.Value.Object

/-! The heap: scopes, objects and arrays in the order of their creation. A cell
keeps its kind and its place for good. A name means its nearest binding in a chain of
scopes, and an assignment changes that binding unless it is constant. -/

namespace Reprl

structure Binding where
  value : Value
  mutable : Bool

inductive Cell where
  | scope (bindings : Table Binding)
  | object (o : Object)
  | array (a : ArrayObject)

structure Heap where
  cells : Array Cell := #[]

namespace Heap

def add (h : Heap) (cell : Cell) : Heap := ⟨h.cells.push cell⟩

def next (h : Heap) : Ref := h.cells.size

def bindings (h : Heap) (ref : Ref) : Table Binding :=
  match h.cells[ref]? with
  | some (.scope bindings) => bindings
  | _ => {}

def object (h : Heap) (ref : Ref) : Object :=
  match h.cells[ref]? with
  | some (.object o) => o
  | _ => {}

def array (h : Heap) (ref : Ref) : ArrayObject :=
  match h.cells[ref]? with
  | some (.array a) => a
  | _ => {}

def modifyScope (h : Heap) (ref : Ref) (f : Table Binding → Table Binding) : Heap :=
  ⟨h.cells.modify ref fun
    | .scope bindings => .scope (f bindings)
    | cell => cell⟩

def modifyObject (h : Heap) (ref : Ref) (f : Object → Object) : Heap :=
  ⟨h.cells.modify ref fun
    | .object o => .object (f o)
    | cell => cell⟩

def modifyArray (h : Heap) (ref : Ref) (f : ArrayObject → ArrayObject) : Heap :=
  ⟨h.cells.modify ref fun
    | .array a => .array (f a)
    | cell => cell⟩

end Heap

inductive AssignError where
  | undeclared
  | constant
  deriving DecidableEq, Repr

namespace Heap

/-- Binds a name in one scope, in place of what it was bound to there. -/
def declare (h : Heap) (scope : Ref) (name : String) (value : Value) (mutable : Bool) : Heap :=
  h.modifyScope scope (·.set name ⟨value, mutable⟩)

def clear (h : Heap) (scope : Ref) : Heap := h.modifyScope scope fun _ => {}

def lookup (h : Heap) : Env → String → Option Value
  | [], _ => none
  | scope :: outer, name =>
    match (h.bindings scope).get? name with
    | some binding => some binding.value
    | none => h.lookup outer name

/-- The scope in a chain that binds a name, with the binding. -/
def resolve (h : Heap) : Env → String → Option (Ref × Binding)
  | [], _ => none
  | scope :: outer, name =>
    match (h.bindings scope).get? name with
    | some binding => some (scope, binding)
    | none => h.resolve outer name

def assign (h : Heap) (env : Env) (name : String) (value : Value) :
    Except AssignError Unit × Heap :=
  match h.resolve env name with
  | none => (.error .undeclared, h)
  | some (scope, binding) =>
    if binding.mutable then (.ok (), h.declare scope name value true) else (.error .constant, h)

end Heap

end Reprl
