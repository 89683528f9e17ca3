import Reprl.Stream.Sink
import Reprl.Intrinsic
import Reprl.Container
import Reprl.Heap

/-! The machine that runs scripts: its heap, its jobs, its outputs for the fuzzer and for
people, and the counters that keep scripts from nesting too deeply. Each counter is raised
around an action and lowered after it, whether the action throws or not. -/

namespace Reprl

open Reprl.Stream

structure Console where
  stdout : Sink := default
  stderr : String := ""

namespace Console

def report (console : Console) (line : String) : Console :=
  { console with stderr := console.stderr ++ line ++ "\n" }

/-- Flushes the output of scripts, whether that fails or not. Reports are never held back. -/
def flush (console : Console) : Console :=
  { console with stdout := (Sink.flush console.stdout).2 }

end Console

inductive Outlet where
  | fuzzer
  | standard
  deriving DecidableEq, Repr

structure Machine where
  heap : Heap := {}
  /-- Functions and symbols that were made. -/
  identities : Nat := 0
  jobs : Queue Value := {}
  /-- Calls that have not returned. -/
  depth : Nat := 0
  /-- Statements, expressions and arrays in conversion that are not finished. -/
  nesting : Nat := 0
  /-- Arrays in conversion, the innermost first. -/
  joining : List Ref := []
  /-- Scopes that code opened, and objects and arrays that code has written to. -/
  tracked : Array Ref := #[]
  outlet : Outlet := .fuzzer
  fuzz : Sink := default
  console : Console := {}

def maxCallDepth : Nat := 200

def maxNesting : Nat := 1000

/-- The longest array that can be converted to text. -/
def maxJoinLength : Nat := 0x100000

/-- The place of the global scope, the first cell of each machine. -/
def globalScope : Ref := 0

def globalEnv : Env := [globalScope]

/-- Actions of scripts; what they throw is a value. -/
abbrev Run := Action Machine Value

/-- How a statement ends when it does not throw. -/
inductive Flow where
  | normal
  | returned (value : Value)
  | broken
  | continued

/-- The ways in which parts of a script refer to other parts, and how many laps a
loop may take. -/
structure Evaluator where
  eval : Source.Expr → Env → Run Value
  exec : Source.Stmt → Env → Run Flow
  call : Value → List Value → Run Value
  display : Value → Run String
  laps : Nat

namespace Run

variable {α : Type}

def onHeap (operation : Heap → α × Heap) : Run α := fun m =>
  match operation m.heap with
  | (a, heap) => (.ok a, { m with heap })

def modifyHeap (f : Heap → Heap) : Run Unit := modify fun m => { m with heap := f m.heap }

def alloc (cell : Cell) : Run Ref := onHeap fun h => (h.next, h.add cell)

def newObject (o : Object) : Run Value := return .object (← alloc (.object o))

def newArray (elements : Array Value) : Run Value :=
  return .array (← alloc (.array (.ofElements elements)))

def newIdentity : Run Nat :=
  modifyGet fun m => (m.identities, { m with identities := m.identities + 1 })

def newFunction (f : Callable) : Run Value := return .function (← newIdentity) f

def newSymbol (description : Option String) : Run Value :=
  return .symbol (← newIdentity) description

def raiseError (name message : String) : Run α := do
  Action.raise (← newObject (.error name message))

def track (ref : Ref) : Run Unit := modify fun m => { m with tracked := m.tracked.push ref }

def childScope (env : Env) : Run Env := do
  let ref ← alloc (.scope {})
  track ref
  return ref :: env

def declare (env : Env) (name : String) (value : Value) (mutable : Bool) : Run Unit :=
  match env with
  | [] => pure ()
  | scope :: _ => modifyHeap (·.declare scope name value mutable)

def between (enter leave : Machine → Machine) (action : Run α) : Run α := fun m =>
  match action (enter m) with
  | (result, m) => (result, leave m)

def nested (action : Run α) : Run α := do
  if maxNesting ≤ (← get).nesting then
    raiseError "RangeError" "Maximum nesting depth exceeded"
  else
    between (fun m => { m with nesting := m.nesting + 1 })
      (fun m => { m with nesting := m.nesting - 1 }) action

def inCall (action : Run α) : Run α := do
  if maxCallDepth ≤ (← get).depth then
    raiseError "RangeError" "Maximum call stack size exceeded"
  else
    between (fun m => { m with depth := m.depth + 1 })
      (fun m => { m with depth := m.depth - 1 }) action

def whileJoining (ref : Ref) (action : Run α) : Run α :=
  between (fun m => { m with joining := ref :: m.joining })
    (fun m => { m with joining := m.joining.tail }) action

end Run

end Reprl
