import Reprl.Number.Reading
import Reprl.Number.Text
import Reprl.Source.Tree

/-! Script values. Objects and arrays are references to heap cells; functions and
symbols carry what they are together with an identity of their own. -/

namespace Reprl

/-- The place of a cell in the heap. Younger cells have larger places. -/
abbrev Ref := Nat

/-- The scopes that a piece of code sees, innermost first. -/
abbrev Env := List Ref

mutual

/-- A value described by its parts, from which fresh values are built. -/
inductive Blueprint where
  | undefined
  | null
  | bool (value : Bool)
  | number (value : Float)
  | string (value : String)
  | symbol (description : Option String)
  | array (elements : List Blueprint)
  | object (properties : List (String × Blueprint))
  | error (name message : String) (properties : List (String × Blueprint))
  | function (name : String) (reply : Reply)

/-- What a function of the embedding program does when it is called. -/
inductive Reply where
  | returns (value : Blueprint)
  | throws (value : Blueprint)

end

inductive Native where
  /-- The fuzzer's intrinsics behind one of their names. -/
  | intrinsic (name : String)
  | print (name : String)
  | queueMicrotask
  | symbol
  | string
  | error (name : String)
  | host (name : String) (reply : Reply)

structure Closure where
  name : Option String
  params : List String
  body : Source.Body
  env : Env

inductive Callable where
  | native (f : Native)
  | closure (c : Closure)

inductive Value where
  | undefined
  | null
  | bool (value : Bool)
  | number (value : Float)
  | string (value : String)
  | symbol (identity : Nat) (description : Option String)
  | object (ref : Ref)
  | array (ref : Ref)
  | function (identity : Nat) (f : Callable)

instance : Inhabited Value := ⟨.undefined⟩

def Native.name : Native → String
  | .intrinsic name | .print name | .error name | .host name _ => name
  | .queueMicrotask => "queueMicrotask"
  | .symbol => "Symbol"
  | .string => "String"

/-- The name of a function; functions without one have the empty name. -/
def Callable.name : Callable → String
  | .native f => f.name
  | .closure c => c.name.getD ""

namespace Value

def typeOf : Value → String
  | undefined => "undefined"
  | null | object _ | array _ => "object"
  | bool _ => "boolean"
  | number _ => "number"
  | string _ => "string"
  | symbol .. => "symbol"
  | function .. => "function"

def truthy : Value → Bool
  | undefined | null => false
  | bool b => b
  | number x => x != 0.0 && !x.isNaN
  | string s => !s.isEmpty
  | _ => true

def isNullish : Value → Bool
  | undefined | null => true
  | _ => false

/-- The number of a value whose conversion runs no script. -/
def primitiveNumber : Value → Option Float
  | undefined => some Number.notANumber
  | null => some 0.0
  | bool b => some (if b then 1.0 else 0.0)
  | number x => some x
  | string s => some (Number.ofText s)
  | _ => none

/-- Equality without conversion; references are compared by identity. -/
def strictEquals : Value → Value → Bool
  | undefined, undefined | null, null => true
  | bool a, bool b => a == b
  | number a, number b => a == b
  | string a, string b => a == b
  | symbol a _, symbol b _ => a == b
  | object a, object b => a == b
  | array a, array b => a == b
  | function a _, function b _ => a == b
  | _, _ => false

/-- Equality that compares numbers, strings and booleans of different kinds by
their numbers. Objects are not converted. -/
def looseEquals (a b : Value) : Bool :=
  if a.isNullish || b.isNullish then a.isNullish && b.isNullish
  else
    match a, b with
    | number _, string _ | number _, bool _ | string _, number _
    | string _, bool _ | bool _, number _ | bool _, string _ =>
      a.primitiveNumber == b.primitiveNumber
    | _, _ => a.strictEquals b

end Value

def symbolText (description : Option String) : String :=
  "Symbol(" ++ description.getD "" ++ ")"

def functionText (f : Callable) : String := "function " ++ f.name ++ "() \x7b [native code] \x7d"

end Reprl
