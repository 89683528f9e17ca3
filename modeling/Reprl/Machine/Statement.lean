import Reprl.Machine.Property

/-! Execution of statements. Blocks, loops with a head and handlers open scopes of
their own, and a declaration binds its names in the innermost scope. -/

namespace Reprl.Evaluator

open Reprl.Source

def execList (E : Evaluator) (env : Env) : List Stmt → Run Flow
  | [] => return .normal
  | stmt :: rest => do
    match ← E.exec stmt env with
    | .normal => E.execList env rest
    | flow => return flow

def execBlock (E : Evaluator) (env : Env) (body : List Stmt) : Run Flow := do
  let scope ← Run.childScope env
  Run.hoist scope body
  E.execList scope body

def execDeclarators (E : Evaluator) (env : Env) (mutable : Bool) : List Declarator → Run Unit
  | [] => pure ()
  | .mk target value :: rest => do
    let name ← Run.patternName target
    let value ← match value with
      | some value => E.eval value env
      | none => pure .undefined
    Run.declare env name value mutable
    E.execDeclarators env mutable rest

def execVariables (E : Evaluator) (env : Env) (kind : VarKind) (items : List Declarator) :
    Run Unit :=
  E.execDeclarators env (kind != .constant) items

/-- Runs a body until it breaks off or there is no next lap. -/
def repeatBody (body : Run Flow) (next : Run Bool) : Nat → Run Flow
  | 0 => Action.exhaust
  | laps + 1 => do
    match ← body with
    | .broken => return .normal
    | .returned value => return .returned value
    | .normal | .continued =>
      if ← next then repeatBody body next laps else return .normal

def holds (E : Evaluator) (env : Env) (test : Expr) : Run Bool :=
  return (← E.eval test env).truthy

def execWhile (E : Evaluator) (env : Env) (test : Expr) (body : Stmt) : Run Flow := do
  if ← E.holds env test then repeatBody (E.exec body env) (E.holds env test) E.laps
  else return .normal

def startFor (E : Evaluator) (env : Env) : ForStart → Run Unit
  | .absent => pure ()
  | .declaration kind items => E.execVariables env kind items
  | .expression value => do let _ ← E.eval value env

/-- Whether a loop with a head takes another lap; without a test it always does. -/
def testFor (E : Evaluator) (env : Env) : Option Expr → Run Bool
  | none => return true
  | some test => E.holds env test

def updateFor (E : Evaluator) (env : Env) : Option Expr → Run Unit
  | none => pure ()
  | some update => do let _ ← E.eval update env

def execFor (E : Evaluator) (env : Env) (start : ForStart) (test update : Option Expr)
    (body : Stmt) : Run Flow := do
  let scope ← Run.childScope env
  E.startFor scope start
  let next : Run Bool := do
    E.updateFor scope update
    E.testFor scope test
  if ← E.testFor scope test then repeatBody (E.exec body scope) next E.laps
  else return .normal

/-- Runs the handler on a thrown value. Without a handler it stays thrown. -/
def handle (E : Evaluator) (env : Env) (thrown : Value) : Handler → Run (Except Value Flow)
  | .absent => return .error thrown
  | .plain body => do
    let scope ← Run.childScope env
    Action.attempt (E.execBlock scope body)
  | .binding param body => do
    let scope ← Run.childScope env
    Run.declare scope (← Run.patternName param) thrown true
    Action.attempt (E.execBlock scope body)

/-- What the finalizer does prevails unless it ends normally. -/
def finish (E : Evaluator) (env : Env) (result : Except Value Flow) : Finalizer → Run Flow
  | .absent => Action.settle result
  | .block body => do
    match ← E.execBlock env body with
    | .normal => Action.settle result
    | flow => return flow

def execTry (E : Evaluator) (env : Env) (body : List Stmt) (handler : Handler)
    (finalizer : Finalizer) : Run Flow := do
  let result ← match ← Action.attempt (E.execBlock env body) with
    | .ok flow => pure (.ok flow)
    | .error thrown => E.handle env thrown handler
  E.finish env result finalizer

def execRule (E : Evaluator) (stmt : Stmt) (env : Env) : Run Flow :=
  match stmt with
  | .expression value => do
    let _ ← E.eval value env
    return .normal
  | .declaration kind items => do
    E.execVariables env kind items
    return .normal
  | .function .. | .empty | .debugger => return .normal
  | .block body => E.execBlock env body
  | .branch test yes no => do
    if ← E.holds env test then E.exec yes env
    else
      match no with
      | some no => E.exec no env
      | none => return .normal
  | .whileLoop test body => E.execWhile env test body
  | .doLoop body test => repeatBody (E.exec body env) (E.holds env test) E.laps
  | .forLoop start test update body => E.execFor env start test update body
  | .breakOff none => return .broken
  | .continueOn none => return .continued
  | .returnValue (some value) => return .returned (← E.eval value env)
  | .returnValue none => return .returned .undefined
  | .throwValue value => do Action.raise (← E.eval value env)
  | .tryBlock body handler finalizer => E.execTry env body handler finalizer
  | .breakOff (some _) | .continueOn (some _) | .foreign _ =>
    Run.raiseError "SyntaxError" "unsupported statement"

end Reprl.Evaluator
