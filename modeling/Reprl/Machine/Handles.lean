import Reprl.Machine.Basic

/-! How a machine ends. Cells that refer to each other in a circle are never freed of themselves, so
a machine keeps handles of the cells that it tracks. A handle does not keep its cell alive. At the
end the cells of all handles are cleared, which breaks the circles. -/

namespace Reprl

def minPrune : Nat := 256

/-- The handles, oldest first, and the cells that were freed, which are gone for good. -/
structure Memory where
  handles : List Ref := []
  /-- So many handles are kept before those of freed cells are dropped. -/
  pruneAt : Nat := minPrune
  freed : List Ref := []

namespace Memory

def isLive (m : Memory) (ref : Ref) : Bool := !m.freed.contains ref

def prune (m : Memory) : Memory :=
  let kept := m.handles.filter m.isLive
  { m with handles := kept, pruneAt := max (kept.length * 2) minPrune }

def track (m : Memory) (ref : Ref) : Memory :=
  let m := if m.pruneAt ≤ m.handles.length then m.prune else m
  { m with handles := m.handles ++ [ref] }

def free (m : Memory) (ref : Ref) : Memory := { m with freed := ref :: m.freed }

end Memory

/-- A cell without what it held. An object stays of its class. -/
def Cell.cleared : Cell → Cell
  | .scope _ => .scope {}
  | .object o => .object { o with properties := {} }
  | .array _ => .array {}

def Heap.clearCell (h : Heap) (ref : Ref) : Heap := ⟨h.cells.modify ref Cell.cleared⟩

/-- What is left when the jobs are given up and the global scope and then every live handle's cell
is cleared. -/
def Machine.tornDown (m : Machine) (memory : Memory) : Machine :=
  { m with
    jobs := {}
    heap := (memory.handles.filter memory.isLive).foldl Heap.clearCell (m.heap.clearCell globalScope) }

end Reprl
