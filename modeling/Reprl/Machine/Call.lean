import Reprl.Machine.Expression
import Reprl.Machine.Statement
import Reprl.Number.Word

/-! Calls, and the rules of the language tied together. Functions of scripts run in a scope of
their own, opened inside the scopes in which they were made; native functions act on the
machine, and those of the embedder make fresh values after a description. Each use of a
rule inside a rule has one step of depth less, and a machine without steps left is
exhausted. -/

namespace Reprl

mutual

def Blueprint.build : Blueprint → Run Value
  | .undefined => return .undefined
  | .null => return .null
  | .bool value => return .bool value
  | .number value => return .number value
  | .string value => return .string value
  | .symbol description => Run.newSymbol description
  | .array elements => do Run.newArray (← buildAll elements).toArray
  | .object properties => do
    let properties ← buildProperties properties
    Run.newObject (properties.foldl (fun o p => o.set p.1 p.2) {})
  | .error name message properties => do
    let properties ← buildProperties properties
    Run.newObject (properties.foldl (fun o p => o.set p.1 p.2) (.error name message))
  | .function name reply => Run.newFunction (.native (.host name reply))

def Blueprint.buildAll : List Blueprint → Run (List Value)
  | [] => return []
  | b :: rest => return (← b.build) :: (← buildAll rest)

def Blueprint.buildProperties : List (String × Blueprint) → Run (List (String × Value))
  | [] => return []
  | (key, b) :: rest => return (key, ← b.build) :: (← buildProperties rest)

end

def Reply.give : Reply → Run Value
  | .returns value => value.build
  | .throws value => do Action.raise (← value.build)

open Reprl.Stream

namespace Machine

def exchangeFuzz (sink : Sink) (m : Machine) : Sink × Machine :=
  (m.fuzz, { m with fuzz := sink })

def exchangeStdout (sink : Sink) (m : Machine) : Sink × Machine :=
  (m.console.stdout, { m with console := { m.console with stdout := sink } })

def exchangeOutlet (sink : Sink) (m : Machine) : Sink × Machine :=
  match m.outlet with
  | .fuzzer => m.exchangeFuzz sink
  | .standard => m.exchangeStdout sink

def report (line : String) (m : Machine) : Machine :=
  { m with console := m.console.report line }

end Machine

namespace Value

def selector : Value → Option String
  | .string s => some s
  | _ => none

/-- The crash variant that an argument asks for. It is zero if the argument is
missing, and one if finding its number could run scripts. -/
def crashVariant : Option Value → Int
  | none => 0
  | some value =>
    match value.primitiveNumber with
    | some x => Number.toInt64 x
    | none => 1

end Value

namespace Evaluator

open Reprl.Source

def fuzzHost (E : Evaluator) : Intrinsic.Host Machine Value Value where
  selector := Value.selector
  crashVariant := Value.crashVariant
  display := E.display
  exchange := Machine.exchangeOutlet
  report := Machine.report

/-- Plain printing, which never reaches the fuzzer. -/
def printHost (E : Evaluator) : Intrinsic.Host Machine Value Value :=
  { E.fuzzHost with exchange := Machine.exchangeStdout }

def printFailure (name reason : String) : String :=
  "[REPRL] " ++ name ++ " failed: " ++ reason

/-- The text of the first argument, unless it is missing or undefined. -/
def displayFirst (E : Evaluator) : List Value → Run (Option String)
  | [] | .undefined :: _ => return none
  | value :: _ => return some (← E.display value)

def callNative (E : Evaluator) (f : Native) (args : List Value) : Run Value := do
  match f with
  | .intrinsic _ =>
    Intrinsic.dispatch E.fuzzHost args
    return .undefined
  | .print name =>
    E.printHost.printLine (printFailure name) {} args
    return .undefined
  | .queueMicrotask =>
    match args with
    | .function identity f :: _ =>
      modify fun m => { m with jobs := m.jobs.push (.function identity f) }
      return .undefined
    | _ =>
      Run.raiseError "TypeError" "The callback provided as parameter 1 is not a function."
  | .symbol => Run.newSymbol (← E.displayFirst args)
  | .string =>
    match args with
    | [] => return .string ""
    | value :: _ => return .string (← E.display value)
  | .error name => Run.newObject (.error name ((← E.displayFirst args).getD ""))
  | .host _ reply => reply.give

def callClosure (E : Evaluator) (c : Closure) (args : List Value) : Run Value := do
  let scope ← Run.childScope c.env
  Run.bindParams scope c.params args
  match c.body with
  | .concise value => E.eval value scope
  | .block body =>
    Run.hoist scope body
    match ← E.execList scope body with
    | .returned value => return value
    | _ => return .undefined

def callRule (E : Evaluator) (callee : Value) (args : List Value) : Run Value := do
  match callee with
  | .function _ (.native f) => Run.inCall (E.callNative f args)
  | .function _ (.closure c) => Run.inCall (E.callClosure c args)
  | _ =>
    let shown ← Action.attempt (E.display callee)
    Run.raiseError "TypeError" (shown.toOption.getD "" ++ " is not a function")

end Evaluator

/-- How deep rules may use rules, and how many laps a loop may take. -/
structure Fuel where
  depth : Nat
  laps : Nat

/-- More than enough for scripts that end. The counters of the machine bound the
depth, except for errors that are named by errors. -/
def Fuel.standard : Fuel := ⟨40000, Nat.pow 2 60⟩

namespace Evaluator

def exhausted : Evaluator where
  eval _ _ := Action.exhaust
  exec _ _ := Action.exhaust
  call _ _ := Action.exhaust
  display _ := Action.exhaust
  laps := 0

def withDepth (laps : Nat) : Nat → Evaluator
  | 0 => exhausted
  | depth + 1 =>
    { eval := fun e env => Run.nested ((withDepth laps depth).evalRule e env)
      exec := fun stmt env => Run.nested ((withDepth laps depth).execRule stmt env)
      call := fun callee args => (withDepth laps depth).callRule callee args
      display := fun value => (withDepth laps depth).displayRule value
      laps }

def ofFuel (fuel : Fuel) : Evaluator := withDepth fuel.laps fuel.depth

end Evaluator

end Reprl
