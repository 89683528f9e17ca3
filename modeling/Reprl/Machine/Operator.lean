import Reprl.Machine.Conversion
import Reprl.Number.Binary
import Reprl.Number.Word

/-! Operators on values that have been evaluated. Operands are converted from left
to right. -/

namespace Reprl.Evaluator

open Reprl.Source (UnaryOp BinaryOp LogicalOp)

def joinsText : Value → Bool
  | .string _ | .object _ | .array _ | .function .. => true
  | _ => false

def arithmetic (E : Evaluator) (a b : Value) (f : Float → Float → Float) : Run Value := do
  let x ← E.numberOf a
  let y ← E.numberOf b
  return .number (f x y)

def add (E : Evaluator) (a b : Value) : Run Value := do
  if joinsText a || joinsText b then
    let s ← E.stringOf a
    let t ← E.stringOf b
    return .string (s ++ t)
  else E.arithmetic a b (· + ·)

/-- Strings are compared by code points and all other values by their numbers. -/
def comparison (E : Evaluator) (a b : Value) (strings : String → String → Bool)
    (numbers : Float → Float → Bool) : Run Value := do
  match a, b with
  | .string s, .string t => return .bool (strings s t)
  | _, _ =>
    let x ← E.numberOf a
    let y ← E.numberOf b
    return .bool (numbers x y)

def onWords (E : Evaluator) (a b : Value) (f : Int32 → Int32 → Float) : Run Value := do
  let x ← E.numberOf a
  let y ← E.numberOf b
  return .number (f (Number.toInt32 x) (Number.toInt32 y))

def membership (E : Evaluator) (key container : Value) : Run Value :=
  match container with
  | .object ref => do
    let key ← E.stringOf key
    return .bool (((← get).heap.object ref).has key)
  | _ =>
    Run.raiseError "TypeError" "Cannot use 'in' operator to search for a key in a non-object"

open Number in
def binary (E : Evaluator) (op : BinaryOp) (a b : Value) : Run Value :=
  match op with
  | .add => E.add a b
  | .subtract => E.arithmetic a b (· - ·)
  | .multiply => E.arithmetic a b (· * ·)
  | .divide => E.arithmetic a b (· / ·)
  | .remainder => E.arithmetic a b remainder
  | .power => E.arithmetic a b Float.pow
  | .strictEqual => return .bool (a.strictEquals b)
  | .strictNotEqual => return .bool (!a.strictEquals b)
  | .equal => return .bool (a.looseEquals b)
  | .notEqual => return .bool (!a.looseEquals b)
  | .less => E.comparison a b (· < ·) (· < ·)
  | .lessEqual => E.comparison a b (· ≤ ·) (· ≤ ·)
  | .greater => E.comparison a b (· > ·) (· > ·)
  | .greaterEqual => E.comparison a b (· ≥ ·) (· ≥ ·)
  | .bitAnd => E.onWords a b fun x y => ofInt32 (x &&& y)
  | .bitOr => E.onWords a b fun x y => ofInt32 (x ||| y)
  | .bitXor => E.onWords a b fun x y => ofInt32 (x ^^^ y)
  | .shiftLeft => E.onWords a b fun x y => ofInt32 (x.toUInt32 <<< shiftAmount y).toInt32
  | .shiftRight => E.onWords a b fun x y => ofInt32 (x >>> (shiftAmount y).toInt32)
  | .shiftRightUnsigned => E.onWords a b fun x y => ofUInt32 (x.toUInt32 >>> shiftAmount y)
  | .membership => E.membership a b
  | .instanceOf => Run.raiseError "SyntaxError" "unsupported binary operator"

/-- All unary operators but `typeof`, which has a rule for names that are not bound. -/
def unary (E : Evaluator) (op : UnaryOp) (a : Value) : Run Value := do
  match op with
  | .not => return .bool (!a.truthy)
  | .minus => return .number (-(← E.numberOf a))
  | .plus => return .number (← E.numberOf a)
  | .complement => return .number (Number.ofInt32 (~~~(Number.toInt32 (← E.numberOf a))))
  | .void => return .undefined
  | .typeof => return .string a.typeOf
  | .delete => Run.raiseError "SyntaxError" "unsupported unary operator"

/-- Whether the left operand of a logical operator is already its result. -/
def decides : LogicalOp → Value → Bool
  | .and, a => !a.truthy
  | .or, a => a.truthy
  | .nullish, a => !a.isNullish

end Reprl.Evaluator
