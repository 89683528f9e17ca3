import Reprl.Heap
import Reprl.Text.Quoted

/-! Values in a form for people who look at a machine from outside. Arrays show
their dense elements, and nothing is converted by running scripts. -/

namespace Reprl

/-- The text of a value; arrays nested more than `depth` levels deep show nothing. -/
def Value.inspectTo (h : Heap) : Nat → Value → String
  | _, .undefined => "undefined"
  | _, .null => "null"
  | _, .bool b => if b then "true" else "false"
  | _, .number x => Number.text x
  | _, .string s => Text.quoted s
  | _, .symbol _ description => symbolText description
  | _, .object _ => "[object]"
  | _, .function _ f => "[function " ++ f.name ++ "]"
  | 0, .array _ => "[]"
  | depth + 1, .array ref =>
    let parts := (h.array ref).elements.toList.map (Value.inspectTo h depth)
    "[" ++ ", ".intercalate parts ++ "]"

/-- The text of a value in a heap; no array without cycles nests deeper than the heap. -/
def Value.inspect (h : Heap) (value : Value) : String := value.inspectTo h h.cells.size

end Reprl
