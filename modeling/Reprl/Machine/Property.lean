import Reprl.Machine.Conversion
import Reprl.Machine.Basic

/-! Names, properties and functions. Reading a property of `undefined` or `null` is an error,
and so is writing one; writing to other values that are not objects has no effect.
Function declarations take effect before the statements around them, in the order in
which they are written. -/

namespace Reprl

/-- The character at an index, for keys that are digits with or without a plus sign. -/
def charAt? (s key : String) : Option Char :=
  match Text.unsigned? 10 key.toList with
  | some index => if index < indexLimit then s.toList[index]? else none
  | none => none

def unitCount (s : String) : Nat :=
  s.foldl (fun n c => n + if c.toNat < 0x10000 then 1 else 2) 0

def stringProperty (s key : String) : Value :=
  if key = "length" then .number (lengthNumber (unitCount s))
  else
    match charAt? s key with
    | some c => .string c.toString
    | none => .undefined

def nullishText : Value → String
  | .null => "null"
  | _ => "undefined"

namespace Run

def getProperty (value : Value) (key : String) : Run Value := do
  match value with
  | .undefined | .null =>
    raiseError "TypeError"
      ("Cannot read properties of " ++ nullishText value ++ " (reading '" ++ key ++ "')")
  | .object ref => return (((← get).heap.object ref).get? key).getD .undefined
  | .array ref => return (((← get).heap.array ref).get? key).getD .undefined
  | .string s => return stringProperty s key
  | .symbol _ (some description) =>
    return if key = "description" then .string description else .undefined
  | _ => return .undefined

def setProperty (target : Value) (key : String) (value : Value) : Run Unit :=
  match target with
  | .object ref => do
    track ref
    modifyHeap (·.modifyObject ref (·.set key value))
  | .array ref => do
    track ref
    modifyHeap (·.modifyArray ref (·.set key value))
  | .undefined | .null =>
    raiseError "TypeError"
      ("Cannot set properties of " ++ nullishText target ++ " (setting '" ++ key ++ "')")
  | _ => pure ()

def lookup (env : Env) (name : String) : Run Value := do
  match (← get).heap.lookup env name with
  | some value => return value
  | none => raiseError "ReferenceError" (name ++ " is not defined")

/-- Assigns to a name. A name that is not bound becomes a global one. -/
def assign (env : Env) (name : String) (value : Value) : Run Unit := do
  match ← onHeap (·.assign env name value) with
  | .ok () => pure ()
  | .error .undeclared => declare globalEnv name value true
  | .error .constant => raiseError "TypeError" "Assignment to constant variable."

open Reprl.Source

/-- The name that a pattern binds; only names are patterns here. -/
def patternName : Pattern → Run String
  | .name name => return name
  | _ => raiseError "SyntaxError" "destructuring is not supported"

def paramName? : Pattern → Option String
  | .name name => some name
  | _ => none

def makeClosure (name : Option String) (f : Source.Function) (env : Env) : Run Value :=
  newFunction (.closure { name, params := f.params.filterMap paramName?, body := f.body, env })

def hoist (env : Env) : List Stmt → Run Unit
  | [] => pure ()
  | .function name f :: rest => do
    declare env name (← makeClosure (some name) f env) true
    hoist env rest
  | _ :: rest => hoist env rest

/-- Binds parameters to arguments; parameters without an argument are undefined. -/
def bindParams (env : Env) : List String → List Value → Run Unit
  | [], _ => pure ()
  | param :: params, [] => do
    declare env param .undefined true
    bindParams env params []
  | param :: params, arg :: args => do
    declare env param arg true
    bindParams env params args

end Run

end Reprl
