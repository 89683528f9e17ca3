import Reprl.Machine.Basic

/-! Conversion of values. An array is shown by its elements, and as nothing while it
is being shown already; an object is shown by its own method if it has one. -/

namespace Reprl.Evaluator

/-- Text of array elements, each after a comma. Nullish elements have no text. -/
def joinRest (E : Evaluator) (text : String) : List Value → Run String
  | [] => return text
  | value :: rest => do
    let shown ← if value.isNullish then pure "" else E.display value
    E.joinRest (text ++ "," ++ shown) rest

def joinItems (E : Evaluator) : List Value → Run String
  | [] => return ""
  | value :: rest => do
    let shown ← if value.isNullish then pure "" else E.display value
    E.joinRest shown rest

def displayArray (E : Evaluator) (ref : Ref) : Run String := do
  let m ← get
  if m.joining.contains ref then return ""
  else
    let array := m.heap.array ref
    if maxJoinLength < array.length then Run.raiseError "RangeError" "Invalid string length"
    else Run.nested (Run.whileJoining ref (E.joinItems array.values.toList))

def displayProperty (E : Evaluator) (o : Object) (key default : String) : Run String :=
  match o.get? key with
  | none => return default
  | some value => E.display value

def displayObject (E : Evaluator) (ref : Ref) : Run String := do
  let o := (← get).heap.object ref
  match o.get? "toString" with
  | some (.function identity f) =>
    match ← E.call (.function identity f) [] with
    | .object _ | .array _ =>
      Run.raiseError "TypeError" "Cannot convert object to primitive value"
    | value => E.display value
  | _ =>
    match o.kind with
    | .plain => return "[object Object]"
    | .error =>
      let name ← E.displayProperty o "name" "Error"
      let message ← E.displayProperty o "message" ""
      return if message.isEmpty then name else name ++ ": " ++ message

def displayRule (E : Evaluator) : Value → Run String
  | .undefined => return "undefined"
  | .null => return "null"
  | .bool b => return if b then "true" else "false"
  | .number x => return Number.text x
  | .string s => return s
  | .symbol _ description => return symbolText description
  | .function _ f => return functionText f
  | .array ref => E.displayArray ref
  | .object ref => E.displayObject ref

/-- The text of a value as an operand; symbols have none. -/
def stringOf (E : Evaluator) : Value → Run String
  | .symbol .. => Run.raiseError "TypeError" "Cannot convert a Symbol value to a string"
  | value => E.display value

def numberOf (E : Evaluator) (value : Value) : Run Float :=
  match value with
  | .symbol .. => Run.raiseError "TypeError" "Cannot convert a Symbol value to a number"
  | .object _ | .array _ | .function .. => return Number.ofText (← E.display value)
  | _ => return value.primitiveNumber.getD Number.notANumber

end Reprl.Evaluator
