import Reprl.Outcome

/-! Computations on a state, one step at a time. -/

namespace Reprl.Action

variable {σ ε δ α β : Type}

theorem bind_apply (action : ExceptT ε (StateM σ) α) (next : α → ExceptT ε (StateM σ) β) (s : σ) :
    (action >>= next) s =
      match action s with
      | (.ok a, s) => next a s
      | (.error e, s) => (.error e, s) := by
  simp only [bind, ExceptT.bind, ExceptT.mk, StateT.bind]
  rcases action s with ⟨_ | _, after⟩ <;> rfl

theorem bind_of_ok {action : ExceptT ε (StateM σ) α} {s after : σ} {a : α}
    (h : action s = (.ok a, after)) (next : α → ExceptT ε (StateM σ) β) :
    (action >>= next) s = next a after := by
  rw [bind_apply, h]

theorem bind_of_error {action : ExceptT ε (StateM σ) α} {s after : σ} {e : ε}
    (h : action s = (.error e, after)) (next : α → ExceptT ε (StateM σ) β) :
    (action >>= next) s = (.error e, after) := by
  rw [bind_apply, h]

theorem ok_of_toOption {result : Except ε α} {a : α} (h : result.toOption = some a) : result = .ok a := by
  cases result with
  | ok b => exact congrArg Except.ok (Option.some.inj h)
  | error e => cases h

variable {action : Action σ ε α} {s after : σ}

/-- A catch depends on nothing but the result of the action and the state that it leaves. -/
theorem attempt_of_apply {run : Except (Abrupt ε) α × σ} (h : action s = run) :
    (attempt action : Action σ δ (Except ε α)) s = attempt (fun _ => run : Action σ ε α) s :=
  congrArg (fun run => (attempt (fun _ => run : Action σ ε α) : Action σ δ (Except ε α)) s) h

end Reprl.Action
