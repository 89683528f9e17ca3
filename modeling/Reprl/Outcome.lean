/-! How a computation can end before its result: by a throw, which may be caught, by
a crash of the whole process, or because its fuel is used up. -/

namespace Reprl

inductive Signal where
  | segv
  | abrt
  deriving DecidableEq, Repr

inductive Abrupt (ε : Type) where
  | thrown (error : ε)
  | crashed (signal : Signal)
  | exhausted

/-- A computation on a state that keeps the state when it ends early. -/
abbrev Action (σ ε α : Type) := ExceptT (Abrupt ε) (StateM σ) α

namespace Action

variable {σ ε δ α : Type}

def raise (error : ε) : Action σ ε α := throw (.thrown error)

def crash (signal : Signal) : Action σ ε α := throw (.crashed signal)

def exhaust : Action σ ε α := throw .exhausted

/-- Catches a throw, but neither a crash nor the end of the fuel. -/
def attempt (action : Action σ ε α) : Action σ δ (Except ε α) := fun s =>
  match action s with
  | (.ok a, s) => (.ok (.ok a), s)
  | (.error (.thrown e), s) => (.ok (.error e), s)
  | (.error (.crashed signal), s) => (.error (.crashed signal), s)
  | (.error .exhausted, s) => (.error .exhausted, s)

def mapError (f : ε → δ) (action : Action σ ε α) : Action σ δ α := fun s =>
  match action s with
  | (.ok a, s) => (.ok a, s)
  | (.error (.thrown e), s) => (.error (.thrown (f e)), s)
  | (.error (.crashed signal), s) => (.error (.crashed signal), s)
  | (.error .exhausted, s) => (.error .exhausted, s)

def settle : Except ε α → Action σ ε α
  | .ok a => pure a
  | .error e => raise e

end Action

end Reprl
