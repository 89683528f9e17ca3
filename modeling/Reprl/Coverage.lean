import Reprl.SystemError
import Reprl.Text.Quoted

/-! Edge coverage. Each edge has a guard cell that holds its number. Recording the edge
sets its bit in a region shared with the fuzzer and clears the cell, so that it is
recorded once until the cells are numbered again. -/

namespace Reprl

/-- Bytes of the shared region, of which four hold the number of edges. -/
def regionSize : Nat := 0x100000

def bitmapSize : Nat := regionSize - 4

def edgeLimit : Nat := bitmapSize * 8

inductive CoverageError where
  | duplicateModule
  | invalidKey (key : String)
  | openFailed (key : String) (error : SystemError)
  deriving DecidableEq, Repr

def CoverageError.message : CoverageError → String
  | .duplicateModule => "Coverage instrumentation is only supported for a single module"
  | .invalidKey key => "invalid shared memory key " ++ Text.quoted key
  | .openFailed key e => "Failed to open shared memory region " ++ key ++ ": " ++ e.message

structure Region where
  /-- The name under which the fuzzer knows the region; private regions have none. -/
  key : Option String
  edgeCount : UInt32 := 0
  bitmap : Vector UInt8 bitmapSize := Vector.replicate bitmapSize 0

namespace Region

def segmentName (key : String) : List Char := key.toList.dropWhile (· = '/')

/-- Why a key cannot be opened, among the segments that exist. -/
def refusal? (segments : String → Bool) (key : String) : Option CoverageError :=
  let name := segmentName key
  if key.toList.contains '\x00' then some (.invalidKey key)
  else if name.isEmpty || name.contains '/' || name = ['.'] || name = ['.', '.'] then
    some (.openFailed key .invalidArgument)
  else if nameLimit < (String.ofList name).utf8ByteSize then some (.openFailed key .nameTooLong)
  else if segments key then none
  else some (.openFailed key .notFound)

def openShared (segments : String → Bool) (key : String) : Except CoverageError Region :=
  match refusal? segments key with
  | some e => .error e
  | none => .ok { key := some key }

def skipText : String := "[COV] no shared memory bitmap available, skipping"

/-- The region for a key, or a private one without a key. Also the lines about it. -/
def acquire (segments : String → Bool) : Option String → List String × Except CoverageError Region
  | some key => ([], openShared segments key)
  | none => ([skipText], .ok { key := none })

def bitMask (index : Nat) : UInt8 := 1 <<< UInt8.ofNat (index % 8)

def bit (r : Region) (index : Nat) : Bool :=
  (r.bitmap[index / 8]?).any fun byte => byte &&& bitMask index != 0

theorem byte_lt {index : Nat} (h : index < edgeLimit) : index / 8 < bitmapSize := by
  simp only [edgeLimit] at h
  omega

def mark (r : Region) (index : Nat) (h : index < edgeLimit) : Region :=
  have := byte_lt h
  { r with bitmap := r.bitmap.set (index / 8) (r.bitmap[index / 8] ||| bitMask index) }

def edgesOfByte (byte : UInt8) (place : Nat) : List Nat :=
  if byte = 0 then []
  else ((List.range 8).map (8 * place + ·)).filter fun index => byte &&& bitMask index != 0

def edgesBelow (r : Region) : Nat → List Nat → List Nat
  | 0, found => found
  | place + 1, found =>
    r.edgesBelow place (edgesOfByte (r.bitmap.getD place 0) place ++ found)

def edges (r : Region) : List Nat := r.edgesBelow bitmapSize []

end Region

/-- A table of guard cells, given by its bounds, with its region. -/
structure GuardTable where
  start : Nat
  stop : Nat
  region : Region

/-- Cells that may hold guards, and the table that is installed over a part of them. -/
structure Coverage where
  cells : Array UInt32 := #[]
  /-- How many guards of a table are in use at most. -/
  cap : Nat := edgeLimit - 1
  table : Option GuardTable := none

namespace Coverage

/-- Edges are numbered from one, so the last number is one below the limit. -/
def withCap (cells : Array UInt32) (cap : Nat) : Coverage :=
  { cells, cap := min cap (edgeLimit - 1) }

def used (c : Coverage) (t : GuardTable) : Nat := min (t.stop - t.start) c.cap

/-- Numbers the first cells after `start`, beginning with one. -/
def number (start : Nat) : Nat → Array UInt32 → Array UInt32
  | 0, cells => cells
  | count + 1, cells =>
    number start count (cells.setIfInBounds (start + count) (UInt32.ofNat (count + 1)))

/-- Makes every guard in use ready to be recorded. Bits that are set stay set. -/
def reset (c : Coverage) : Coverage :=
  match c.table with
  | none => c
  | some t =>
    let count := c.used t
    { c with cells := number t.start count c.cells }

def cell (c : Coverage) (i : Nat) : UInt32 := c.cells.getD i 0

/-- Records the edge of a cell. Cells that are no guards in use are left alone. -/
def record (c : Coverage) (i : Nat) : Coverage :=
  match c.table with
  | none => c
  | some t =>
    if t.start ≤ i ∧ i - t.start < c.used t then
      let index := (c.cell i).toNat
      if h : 0 < index ∧ index < edgeLimit then
        { c with
          cells := c.cells.setIfInBounds i 0
          table := some { t with region := t.region.mark index h.2 } }
      else c
    else c

def edgeCount? (c : Coverage) : Option Nat := c.table.map (·.region.edgeCount.toNat)

def installText (r : Region) : String :=
  "[COV] edge counters initialized. Shared memory: " ++ r.key.getD "(private)" ++ " with " ++
    Nat.repr r.edgeCount.toNat ++ " edges"

/-- Installs a table over the cells from `start` to `stop`, and says whether it did. An
empty table and one whose first guard has a number already are passed over. -/
def install (c : Coverage) (start stop : Nat)
    (acquired : List String × Except CoverageError Region) :
    Except CoverageError Bool × List String × Coverage :=
  if start = stop ∨ c.cell start ≠ 0 then (.ok false, [], c)
  else if c.table.isSome then (.error .duplicateModule, [], c)
  else
    match acquired with
    | (lines, .error e) => (.error e, lines, c)
    | (lines, .ok region) =>
      let region := { region with edgeCount := UInt32.ofNat (stop - start) }
      let c := { c with table := some { start, stop, region } }
      (.ok true, lines ++ [installText region], c.reset)

end Coverage

inductive Announced where
  | goesOn (coverage : Coverage)
  | exits (status : Nat)

def coverageExitStatus : Nat := 255

/-- Installs a table; a failure ends the program. Also the lines about it. -/
def Coverage.announce (c : Coverage) (start stop : Nat)
    (acquired : List String × Except CoverageError Region) : Announced × List String :=
  match c.install start stop acquired with
  | (.ok _, lines, c) => (.goesOn c, lines)
  | (.error e, lines, _) => (.exits coverageExitStatus, lines ++ ["[COV] " ++ e.message])

end Reprl
