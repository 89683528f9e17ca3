import Reprl.Machine.Property
import Reprl.Machine.Operator

/-! Evaluation of expressions, from left to right. -/

namespace Reprl.Evaluator

open Reprl.Source

def elementValue (E : Evaluator) (env : Env) : Element → Run Value
  | .elision => return .undefined
  | .item value | .spread value => E.eval value env

/-- Values of array elements or arguments, after those in `done`. -/
def evalElements (E : Evaluator) (env : Env) (done : Array Value) :
    List Element → Run (Array Value)
  | [] => return done
  | element :: rest => do
    let value ← E.elementValue env element
    E.evalElements env (done.push value) rest

def evalArgs (E : Evaluator) (env : Env) (args : List Element) : Run (List Value) :=
  return (← E.evalElements env #[] args).toList

def evalSequence (E : Evaluator) (env : Env) (last : Value) : List Expr → Run Value
  | [] => return last
  | item :: rest => do
    let value ← E.eval item env
    E.evalSequence env value rest

def evalHoles (E : Evaluator) (env : Env) (text : String) : List Hole → Run Value
  | [] => return .string text
  | .mk value after :: rest => do
    let shown ← E.stringOf (← E.eval value env)
    E.evalHoles env (text ++ shown ++ after) rest

def propertyName (E : Evaluator) (env : Env) : Key → Run String
  | .name text => return text
  | .string value => return value
  | .number value => return Number.text value
  | .computed value => do E.stringOf (← E.eval value env)
  | .bigInteger | .classPrivate _ =>
    Run.raiseError "SyntaxError" "unsupported property name"

def memberName (E : Evaluator) (env : Env) : Key → Run String
  | .name text => return text
  | .computed value => do E.stringOf (← E.eval value env)
  | _ => Run.raiseError "SyntaxError" "unsupported member"

/-- A property with its value. Methods are named by their key. -/
def evalProperty (E : Evaluator) (env : Env) : Property → Run (String × Value)
  | .keyed key value => do
    let name ← E.propertyName env key
    return (name, ← E.eval value env)
  | .shorthand name => return (name, ← Run.lookup env name)
  | .method key f => do
    let name ← E.propertyName env key
    return (name, ← Run.makeClosure (some name) f env)
  | .spread _ => Run.raiseError "SyntaxError" "unsupported spread"
  | .defaulted .. | .foreign _ => Run.raiseError "SyntaxError" "unsupported property"

def evalObject (E : Evaluator) (env : Env) (o : Object) : List Property → Run Value
  | [] => Run.newObject o
  | property :: rest => do
    let (name, value) ← E.evalProperty env property
    E.evalObject env (o.set name value) rest

def bare : Expr → Expr
  | .paren inner => bare inner
  | e => e

def storeIn (E : Evaluator) (env : Env) (place : Expr) (value : Value) : Run Unit :=
  match place with
  | .identifier name => Run.assign env name value
  | .member object key => do
    let target ← E.eval object env
    let name ← E.memberName env key
    Run.setProperty target name value
  | _ => Run.raiseError "SyntaxError" "Invalid left-hand side in assignment"

/-- The value that an assignment leaves in a place, or the old value that it keeps. -/
def assignedValue (E : Evaluator) (env : Env) (op : AssignOp) (place value : Expr) :
    Run (Except Value Value) := do
  match op with
  | .plain => return .ok (← E.eval value env)
  | .logical op =>
    let old ← E.eval place env
    if decides op old then return .error old
    else return .ok (← E.eval value env)
  | .compound op =>
    let old ← E.eval place env
    let operand ← E.eval value env
    return .ok (← E.binary op old operand)

def assignTo (E : Evaluator) (env : Env) (op : AssignOp) (place value : Expr) : Run Value := do
  match ← E.assignedValue env op place value with
  | .error kept => return kept
  | .ok value =>
    E.storeIn env place value
    return value

/-- Assigns to a target as it is written; parentheses make it invalid. -/
def evalAssign (E : Evaluator) (env : Env) (op : AssignOp) (target : Target) (value : Expr) :
    Run Value :=
  match target with
  | .place (.identifier name) => E.assignTo env op (.identifier name) value
  | .place (.member object key) => E.assignTo env op (.member object key) value
  | _ => Run.raiseError "SyntaxError" "Invalid left-hand side in assignment"

def evalUpdate (E : Evaluator) (env : Env) (op : UpdateOp) (before : Bool) (place : Expr) :
    Run Value := do
  let old ← E.numberOf (← E.eval place env)
  let new := match op with
    | .increment => old + 1.0
    | .decrement => old - 1.0
  E.storeIn env (bare place) (.number new)
  return .number (if before then new else old)

/-- The type of an expression. Names that are not bound have a type, too. -/
def evalTypeOf (E : Evaluator) (env : Env) (arg : Expr) : Run Value := do
  match arg with
  | .identifier name =>
    match (← get).heap.lookup env name with
    | some value => return .string value.typeOf
    | none => return .string "undefined"
  | _ => return .string (← E.eval arg env).typeOf

def evalArrow (f : Function) (env : Env) : Run Value := do
  let params ← f.params.mapM Run.patternName
  Run.newFunction (.closure { name := none, params, body := f.body, env })

def isReference : Value → Bool
  | .object _ | .array _ | .function .. => true
  | _ => false

def evalCall (E : Evaluator) (env : Env) (callee : Expr) (args : List Element) : Run Value := do
  let f ← E.eval callee env
  E.call f (← E.evalArgs env args)

/-- A call whose result is replaced by a fresh object unless it is a reference. -/
def evalConstruct (E : Evaluator) (env : Env) (callee : Expr) (args : List Element) :
    Run Value := do
  let result ← E.evalCall env callee args
  if isReference result then return result else Run.newObject {}

def evalRule (E : Evaluator) (e : Expr) (env : Env) : Run Value :=
  match e with
  | .identifier name => Run.lookup env name
  | .number value => return .number value
  | .string value => return .string value
  | .bool value => return .bool value
  | .null => return .null
  | .template head holes => E.evalHoles env head holes
  | .paren inner => E.eval inner env
  | .sequence items => E.evalSequence env .undefined items
  | .array elements => do Run.newArray (← E.evalElements env #[] elements)
  | .object properties => E.evalObject env {} properties
  | .function (.mk name params body async generator) =>
    Run.makeClosure name (.mk name params body async generator) env
  | .arrow f => evalArrow f env
  | .unary .typeof arg => E.evalTypeOf env arg
  | .unary op arg => do E.unary op (← E.eval arg env)
  | .binary op left right => do
    let a ← E.eval left env
    let b ← E.eval right env
    E.binary op a b
  | .logical op left right => do
    let a ← E.eval left env
    if decides op a then return a else E.eval right env
  | .conditional test yes no => do
    if (← E.eval test env).truthy then E.eval yes env else E.eval no env
  | .update op before place => E.evalUpdate env op before place
  | .assign op target value => E.evalAssign env op target value
  | .member object key => do
    let target ← E.eval object env
    let name ← E.memberName env key
    Run.getProperty target name
  | .call callee args => E.evalCall env callee args
  | .construct callee args => E.evalConstruct env callee args
  | .superCall _ | .importCall _ => Run.raiseError "SyntaxError" "unsupported callee"
  | .superMember _ | .newTarget | .await _ | .yield _ | .foreign _ =>
    Run.raiseError "SyntaxError" "unsupported expression"

end Reprl.Evaluator
