import Reprl.Container
import Reprl.Value.Basic

/-! Objects and arrays. An object has a class and properties in the order in which they
were added. The elements of an array that are near its front lie densely; elements
written far beyond them are kept by name with all other properties, so that they cost
no space between. -/

namespace Reprl

inductive ObjectClass where
  | plain
  | error
  deriving DecidableEq, Repr

structure Object where
  kind : ObjectClass := .plain
  properties : Table Value := {}

instance : Inhabited Object := ⟨{}⟩

namespace Object

def get? (o : Object) (key : String) : Option Value := o.properties.get? key

def set (o : Object) (key : String) (value : Value) : Object :=
  { o with properties := o.properties.set key value }

def has (o : Object) (key : String) : Bool := o.properties.contains key

def error (name message : String) : Object :=
  (({ kind := .error } : Object).set "name" (.string name)).set "message" (.string message)

end Object

structure ArrayObject where
  elements : Array Value := #[]
  extra : Table Value := {}
  length : Nat := 0

instance : Inhabited ArrayObject := ⟨{}⟩

/-- Indices, lengths and positions are below this bound. -/
def indexLimit : Nat := 0x10000000000000000

/-- How far beyond the dense elements a write may land and still join them. -/
def denseSlack : Nat := 1024

/-- The index that a key names: decimal digits without a leading zero. -/
def arrayIndex? (key : String) : Option Nat :=
  let digits := key.toList
  if digits.isEmpty || !digits.all Text.isDecimal then none
  else if digits.head? = some '0' && digits.length ≠ 1 then none
  else
    let index := Text.digitsValue 10 digits
    if index < indexLimit then some index else none

def lengthNumber (n : Nat) : Float := (UInt64.ofNat n).toFloat

namespace ArrayObject

def ofElements (elements : Array Value) : ArrayObject :=
  { elements, length := elements.size }

def get? (a : ArrayObject) (key : String) : Option Value :=
  if key = "length" then some (.number (lengthNumber a.length))
  else
    match (arrayIndex? key).bind (a.elements[·]?) with
    | some value => some value
    | none => a.extra.get? key

/-- Moves the element of one index from the named to the dense part. -/
def absorb (a : ArrayObject) (index : Nat) : ArrayObject :=
  let key := Number.decimalText index
  { a with
    elements := a.elements.push ((a.extra.get? key).getD .undefined)
    extra := a.extra.erase key }

def absorbMany (a : ArrayObject) : Nat → ArrayObject
  | 0 => a
  | count + 1 => absorbMany (a.absorb a.elements.size) count

def setIndex (a : ArrayObject) (index : Nat) (key : String) (value : Value) : ArrayObject :=
  let dense := a.elements.size
  if index < dense then { a with elements := a.elements.setIfInBounds index value }
  else if index - dense < denseSlack then
    let a := a.absorbMany (index - dense)
    { a with elements := a.elements.push value, extra := a.extra.erase key }
  else { a with extra := a.extra.set key value }

def set (a : ArrayObject) (key : String) (value : Value) : ArrayObject :=
  match arrayIndex? key with
  | none => { a with extra := a.extra.set key value }
  | some index =>
    let a := a.setIndex index key value
    { a with length := max a.length (min (index + 1) (indexLimit - 1)) }

/-- The elements kept by name, in the order of their indices. -/
def sparse (a : ArrayObject) : List (Nat × Value) :=
  (a.extra.entries.filterMap fun e => (arrayIndex? e.1).map (·, e.2)).mergeSort
    fun x y => x.1 ≤ y.1

def padTo (values : Array Value) (size : Nat) : Array Value :=
  values ++ Array.replicate (size - values.size) .undefined

/-- All elements in order. Places that hold nothing read as undefined. -/
def values (a : ArrayObject) : Array Value :=
  if a.length ≤ a.elements.size then a.elements
  else
    let filled := a.sparse.foldl (fun vs e => (padTo vs e.1).push e.2) a.elements
    (padTo filled a.length).take a.length

end ArrayObject

end Reprl
