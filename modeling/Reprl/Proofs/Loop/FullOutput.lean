import Reprl.Proofs.Loop.Isolation
import Reprl.Proofs.Machine.Beside
import Reprl.Proofs.Machine.Join

/-! Outputs that fail. What cannot be printed for people ends its line, so the values after it are
not converted, and what their conversions would have sent to the fuzzer is missing. -/

namespace Reprl

open Coupling Reprl.Stream Reprl.Text

namespace Stream

namespace Printing

end Printing

end Stream

namespace Session

open Source Evaluator

/-- A script of one expression, which leaves no jobs. -/
theorem execute_expression {laps depth : Nat} {source : String} {e : Expr} {m m' : Machine} {value : Value}
    (hparse : Source.parse source = .ok [.expression e]) (hroom : m.nesting < maxNesting)
    (heval : (withDepth (laps + 1) depth).eval e globalEnv { m with nesting := m.nesting + 1 } = (.ok value, m'))
    (hjobs : m'.jobs.pop? = none) :
    execute (withDepth (laps + 1) (depth + 1)) source m = (.ok (), { m' with nesting := m'.nesting - 1 }) := by
  let E := withDepth (laps + 1) (depth + 1)
  let last : Machine := { m' with nesting := m'.nesting - 1 }
  have hp : parse source m = (.ok [.expression e], m) := by
    rw [parse, hparse]
    rfl
  have hexec : E.exec (.expression e) globalEnv m = (.ok .normal, last) :=
    nested_of_ok hroom (Action.bind_of_ok heval _)
  have hlist : E.execList globalEnv [.expression e] m = (.ok .normal, last) := by
    rw [Evaluator.execList, Action.bind_of_ok hexec]
    rfl
  have hrun : run E [.expression e] m = (.ok (), last) := by
    have hbody : (do
        Run.hoist globalEnv [.expression e]
        let _ ← E.execList globalEnv [.expression e] : Run Unit) m = (.ok (), last) := Action.bind_of_ok hlist _
    rw [run, complete, Action.bind_apply, Action.attempt, hbody]
    rfl
  have hdrain : drain E last = (.ok (), last) := by
    have hpop : popJob last = (.ok none, last) := by
      rw [Tandem.popJob_apply, show last.jobs.pop? = none from hjobs]
    show drainFor E (laps + 1) last = _
    rw [drainFor, Action.bind_of_ok hpop]
    rfl
  rw [execute, Action.bind_of_ok hp, Action.bind_of_ok hrun, hdrain]

end Session

namespace Evaluator

open Source

variable {laps depth : Nat} {args : List Element} {m m' m'' : Machine} {identity : Nat} {f : Native}
  {name : String} {values : List Value} {value : Value}

/-- A call of a native function by its global name. -/
theorem eval_callNative (hroom : m.nesting + 1 < maxNesting) (hdepth : m'.depth < maxCallDepth)
    (hname : m.heap.lookup globalEnv name = some (.function identity (.native f)))
    (hargs : (withDepth laps (depth + 1)).evalArgs globalEnv args { m with nesting := m.nesting + 1 } =
      (.ok values, m'))
    (hcall : (withDepth laps depth).callNative f values { m' with depth := m'.depth + 1 } = (.ok value, m'')) :
    (withDepth laps (depth + 2)).eval (.call (.identifier name) args) globalEnv m =
      (.ok value, { m'' with depth := m''.depth - 1, nesting := m''.nesting - 1 }) := by
  let inner : Machine := { m with nesting := m.nesting + 1 }
  have hlookup : Run.lookup globalEnv name { inner with nesting := inner.nesting + 1 } =
      (.ok (.function identity (.native f)), { inner with nesting := inner.nesting + 1 }) := by
    have hfound : { inner with nesting := inner.nesting + 1 }.heap.lookup globalEnv name = _ := hname
    rw [Run.lookup, Action.bind_of_ok (get_apply _), hfound]
    rfl
  have hcallee : (withDepth laps (depth + 1)).eval (.identifier name) globalEnv inner =
      (.ok (.function identity (.native f)), inner) := nested_of_ok hroom hlookup
  have hinside : (withDepth laps (depth + 1)).call (.function identity (.native f)) values m' =
      (.ok value, { m'' with depth := m''.depth - 1 }) := inCall_of_ok hdepth hcall
  have hrule : (withDepth laps (depth + 1)).evalRule (.call (.identifier name) args) globalEnv inner =
      (.ok value, { m'' with depth := m''.depth - 1 }) := by
    show (withDepth laps (depth + 1)).evalCall globalEnv (.identifier name) args inner = _
    rw [Evaluator.evalCall, Action.bind_of_ok hcallee, Action.bind_of_ok hargs, hinside]
  exact nested_of_ok (Nat.lt_of_succ_lt hroom) hrule

end Evaluator

namespace Printed

open Source Evaluator

/-- The arguments of a script that is one call of `print`. -/
def args? (source : String) : Option (List Element) :=
  match Source.parse source with
  | .ok [.expression (.call (.identifier name) args)] => if name = "print" then some args else none
  | _ => none

def isPrint : Value → Bool
  | .function _ (.native (.print _)) => true
  | _ => false

/-- What the arguments come to where `print` is a function that prints. -/
def values? (E : Evaluator) (source : String) (m : Machine) : Option (List Value × Machine) := do
  let args ← args? source
  if (m.heap.lookup globalEnv "print").any isPrint then
    match E.evalArgs globalEnv args { m with nesting := m.nesting + 1 + 1 } with
    | (.ok values, m') => some (values, m')
    | (.error _, _) => none
  else none

theorem parse_of_args {source : String} {args : List Element} (h : args? source = some args) :
    Source.parse source = .ok [.expression (.call (.identifier "print") args)] := by
  unfold args? at h
  split at h
  · next name args' hp =>
    split at h
    · next hname =>
      cases h
      rw [hp, hname]
    · cases h
  · cases h

theorem exists_of_isPrint {value : Value} (h : isPrint value = true) :
    ∃ identity label, value = .function identity (.native (.print label)) := by
  unfold isPrint at h
  split at h
  · exact ⟨_, _, rfl⟩
  · cases h

theorem args_of_values {E : Evaluator} {source : String} {m m' : Machine} {values : List Value}
    (h : values? E source m = some (values, m')) :
    ∃ args identity label,
      Source.parse source = .ok [.expression (.call (.identifier "print") args)] ∧
      m.heap.lookup globalEnv "print" = some (.function identity (.native (.print label))) ∧
      E.evalArgs globalEnv args { m with nesting := m.nesting + 1 + 1 } = (.ok values, m') := by
  unfold values? at h
  rcases hp : args? source with _ | args
  · rw [hp] at h
    cases h
  rw [hp, Option.bind_eq_bind, Option.bind_some] at h
  split at h
  · next hprint =>
    obtain ⟨callee, hcallee, his⟩ := (Option.any_eq_true ..).mp hprint
    obtain ⟨identity, label, rfl⟩ := exists_of_isPrint his
    rcases hargs : E.evalArgs globalEnv args { m with nesting := m.nesting + 1 + 1 } with ⟨e | _, _⟩
    · rw [hargs] at h
      cases h
    · rw [hargs] at h
      cases h
      exact ⟨args, identity, label, parse_of_args hp, hcallee, hargs⟩
  · cases h

variable {source : String} {m m' : Machine} {values : List Value} {output : Bytes}

/-- A script of one call of `print` ends as the line does. -/
theorem execute {laps depth : Nat}
    (h : values? (withDepth (laps + 1) (depth + 1)) source m = some (values, m'))
    (hroom : m.nesting + 1 + 1 < maxNesting) (hdepth : m'.depth < maxCallDepth)
    (hprint : ∀ failure, ∃ m'', (withDepth (laps + 1) depth).printHost.printLine failure {} values
      { m' with depth := m'.depth + 1 } = (.ok (), m'') ∧ m''.jobs.pop? = none ∧ m''.fuzz.contents = output) :
    ∃ last, Session.execute (withDepth (laps + 1) (depth + 3)) source m = (.ok (), last) ∧
      last.fuzz.contents = output := by
  obtain ⟨args, identity, label, hparse, hname, hargs⟩ := args_of_values h
  obtain ⟨m'', hline, hjobs, hcontents⟩ := hprint (printFailure label)
  have hcall : (withDepth (laps + 1) depth).callNative (.print label) values
      { m' with depth := m'.depth + 1 } = (.ok .undefined, m'') := Action.bind_of_ok hline _
  have heval := eval_callNative (m := { m with nesting := m.nesting + 1 }) hroom hdepth hname hargs hcall
  exact ⟨_, Session.execute_expression hparse (by omega) heval hjobs, hcontents⟩

end Printed

namespace Loop

/-- Prints a text of more than a chunk, and after it a value that sends a line to the fuzzer. -/
def longLine : String :=
  "print((f => f(f(f('1234567890'))))(a => a + a + a + a + a + a + a + a), " ++
    "\x7b toString: () => fuzzilli('FUZZILLI_PRINT', 'a') \x7d)"

/-- A short line for people, and then a long one. -/
def lines : List Report :=
  [⟨"print('x')", .success, []⟩, ⟨longLine, .success, encode "a\n"⟩]

/-- Fails no call, and accepts nothing. -/
def idle : Sink where
  interruptions _ := 0
  onWrite _ _ := .accepts 0
  onFlush _ := none

end Loop

end Reprl
