import Reprl.Stream.Source

/-! What a source holds, whatever the pieces in which it arrives. Reading a number of
bytes depends on nothing else, so borders of pieces and interruptions cannot be told
from outside. -/

namespace Reprl.Stream

open Reprl.Text (Bytes)

inductive Atom where
  | byte (b : UInt8)
  | fault (reason : String)
  deriving DecidableEq, Repr

def Atom.isByte : Atom → Bool
  | byte _ => true
  | fault _ => false

namespace Source

/-- Bytes and failures in order, without the borders of pieces and without interruptions. -/
def atoms : Source → List Atom
  | [] => []
  | .bytes chunk :: rest => chunk.map .byte ++ atoms rest
  | .interrupted :: rest => atoms rest
  | .failed reason :: rest => .fault reason :: atoms rest

theorem countP_bytes (bytes : Bytes) : (bytes.map Atom.byte).countP Atom.isByte = bytes.length := by
  simp [List.countP_map, Function.comp_def, Atom.isByte]

theorem size_eq_countP (source : Source) : source.size = source.atoms.countP Atom.isByte := by
  induction source with
  | nil => rfl
  | cons event rest ih =>
    cases event with
    | bytes chunk =>
      rw [size, atoms, List.countP_append, countP_bytes, ih]
    | interrupted => exact ih
    | failed reason => simpa [size, atoms, Atom.isByte] using ih

def noticed : Event → Bool
  | .bytes chunk => !chunk.isEmpty
  | .interrupted => false
  | .failed _ => true

def mergePieces : Source → Source
  | [] => []
  | .bytes chunk :: rest =>
    match mergePieces rest with
    | .bytes more :: rest => .bytes (chunk ++ more) :: rest
    | rest => .bytes chunk :: rest
  | event :: rest => event :: mergePieces rest

/-- The source without interruptions and empty pieces, with adjacent pieces merged. -/
def normal (source : Source) : Source := mergePieces (source.filter noticed)

theorem atoms_filter_noticed (source : Source) : atoms (source.filter noticed) = atoms source := by
  induction source with
  | nil => rfl
  | cons event rest ih =>
    cases event with
    | bytes chunk => cases chunk <;> simp [noticed, atoms, ih]
    | interrupted => simpa [noticed, atoms] using ih
    | failed reason => exact congrArg (Atom.fault reason :: ·) ih

theorem atoms_mergePieces (source : Source) : atoms (mergePieces source) = atoms source := by
  induction source with
  | nil => rfl
  | cons event rest ih =>
    cases event with
    | interrupted => exact ih
    | failed reason => exact congrArg (Atom.fault reason :: ·) ih
    | bytes chunk =>
      simp only [mergePieces, atoms, ← ih]
      split
      · next more after he => simp [he, atoms]
      · rfl

theorem atoms_normal (source : Source) : atoms source.normal = atoms source :=
  (atoms_mergePieces _).trans (atoms_filter_noticed source)

theorem atoms_eq_of_normal_eq {source other : Source} (h : source.normal = other.normal) :
    source.atoms = other.atoms := by
  rw [← atoms_normal source, h, atoms_normal other]

end Source

/-- The result of a read that had some bytes already. -/
def Taken.after (read : Bytes) : Taken → Taken
  | complete bytes => complete (read ++ bytes)
  | ended bytes => ended (read ++ bytes)
  | failed reason => failed reason

def takeAtoms : Nat → List Atom → Taken × List Atom
  | 0, atoms => (.complete [], atoms)
  | _ + 1, [] => (.ended [], [])
  | _ + 1, .fault reason :: rest => (.failed reason, rest)
  | count + 1, .byte b :: rest => ((takeAtoms count rest).1.after [b], (takeAtoms count rest).2)

@[simp] theorem Taken.after_nil (taken : Taken) : taken.after [] = taken := by
  cases taken <;> rfl

theorem Taken.after_after (first second : Bytes) (taken : Taken) :
    (taken.after second).after first = taken.after (first ++ second) := by
  cases taken <;> simp [after]

theorem takeAtoms_bytes_append {chunk : Bytes} {count : Nat} (h : chunk.length ≤ count)
    (rest : List Atom) : takeAtoms count (chunk.map .byte ++ rest) =
      ((takeAtoms (count - chunk.length) rest).1.after chunk,
        (takeAtoms (count - chunk.length) rest).2) := by
  induction chunk generalizing count with
  | nil => simp
  | cons b chunk ih =>
    obtain ⟨count, rfl⟩ : ∃ n, count = n + 1 := ⟨count - 1, by simp at h; omega⟩
    have hh := ih (show chunk.length ≤ count by simpa using h)
    simp [takeAtoms, hh, Taken.after_after]

theorem takeAtoms_of_le_length {chunk : Bytes} {count : Nat} (h : count ≤ chunk.length)
    (rest : List Atom) : takeAtoms count (chunk.map .byte ++ rest) =
      (.complete (chunk.take count), (chunk.drop count).map .byte ++ rest) := by
  induction chunk generalizing count with
  | nil =>
    have hz : count = 0 := by simpa using h
    simp [hz, takeAtoms]
  | cons b chunk ih =>
    cases count with
    | zero => simp [takeAtoms]
    | succ count => simp [takeAtoms, ih (show count ≤ chunk.length by simpa using h), Taken.after]

theorem takeAtoms_complete {bytes : Bytes} (rest : List Atom) :
    takeAtoms bytes.length (bytes.map .byte ++ rest) = (.complete bytes, rest) := by
  simp [takeAtoms_of_le_length (Nat.le_refl bytes.length) rest]

/-- How a read divides atoms into what it takes and the rest. -/
def Taken.Divides (count : Nat) (atoms rest : List Atom) : Taken → Prop
  | complete bytes => bytes.length = count ∧ atoms = bytes.map .byte ++ rest
  | ended bytes => bytes.length < count ∧ atoms = bytes.map .byte ∧ rest = []
  | failed reason =>
    ∃ bytes : Bytes, bytes.length < count ∧ atoms = bytes.map .byte ++ .fault reason :: rest

theorem takeAtoms_divides (count : Nat) (atoms : List Atom) :
    (takeAtoms count atoms).1.Divides count atoms (takeAtoms count atoms).2 := by
  fun_induction takeAtoms count atoms with
  | case1 atoms => simp [Taken.Divides]
  | case2 count => simp [Taken.Divides]
  | case3 count reason rest => exact ⟨[], by simp, rfl⟩
  | case4 count b rest ih =>
    rcases he : takeAtoms count rest with ⟨taken, after⟩
    rw [he] at ih
    cases taken with
    | complete bytes =>
      obtain ⟨hl, hr⟩ := ih
      simp [Taken.after, Taken.Divides, hl, hr]
    | ended bytes =>
      obtain ⟨hl, hr, rfl⟩ : _ ∧ _ ∧ after = [] := ih
      simp [Taken.after, Taken.Divides, hl, hr]
    | failed reason =>
      obtain ⟨bytes, hl, hr⟩ := ih
      exact ⟨b :: bytes, by simpa using hl, by simp [hr]⟩

namespace Source

theorem takeAfter_atoms (read : Array UInt8) (count : Nat) (source : Source) :
    (takeAfter read count source).1 = (takeAtoms count source.atoms).1.after read.toList ∧
      (takeAfter read count source).2.atoms = (takeAtoms count source.atoms).2 := by
  fun_induction takeAfter read count source with
  | case1 read source => simp [takeAtoms, Taken.after]
  | case2 read count => simp [takeAtoms, Taken.after, atoms]
  | case3 read count rest ih => exact ih
  | case4 read count reason rest => simp [takeAtoms, Taken.after, atoms]
  | case5 read count chunk rest h ih =>
    simp only [atoms, takeAtoms_bytes_append h, Taken.after_after]
    simpa using ih
  | case6 read count chunk rest h =>
    simp [atoms, takeAtoms_of_le_length (show count + 1 ≤ chunk.length by omega), Taken.after]

/-- What a read takes and leaves depends on the atoms of the source alone. -/
theorem take_atoms (count : Nat) (source : Source) :
    (source.take count).1 = (takeAtoms count source.atoms).1 ∧
      (source.take count).2.atoms = (takeAtoms count source.atoms).2 := by
  simpa [take] using takeAfter_atoms #[] count source

theorem take_divides (count : Nat) (source : Source) :
    (source.take count).1.Divides count source.atoms (source.take count).2.atoms := by
  rw [(take_atoms count source).1, (take_atoms count source).2]
  exact takeAtoms_divides count source.atoms

end Source

end Reprl.Stream
