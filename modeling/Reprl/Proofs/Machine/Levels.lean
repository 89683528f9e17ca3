import Mathlib.Logic.Relation
import Reprl.Proofs.Machine.Tandem

/-! The levels of a machine. Whatever runs and however it ends, the machine comes back to
the levels at which it began, and no counter leaves its bounds on the way. -/

namespace Reprl

open Coupling Congruence

variable {ε α : Type}

namespace Run

/-- An action that is watched, which costs the machine if a counter is out of bounds when it
begins or if it ends at other levels, so that lowering a counter after it would go wrong. -/
def watched (action : Run α) : Run α := fun m =>
  if m.levels.InBounds ∧ (action m).2.levels = m.levels then action m
  else (.error (.crashed .abrt), m)

end Run

namespace Evaluator

def watchedCall (E : Evaluator) (callee : Value) (args : List Value) : Run Value :=
  match callee with
  | .function _ (.native f) => Run.inCall (Run.watched (E.callNative f args))
  | .function _ (.closure c) => Run.inCall (Run.watched (E.callClosure c args))
  | callee => E.callRule callee args

def watchedArray (E : Evaluator) (ref : Ref) : Run String := do
  let m ← get
  if m.joining.contains ref then return ""
  else
    let array := m.heap.array ref
    if maxJoinLength < array.length then Run.raiseError "RangeError" "Invalid string length"
    else
      Run.nested (Run.watched
        (Run.whileJoining ref (Run.watched (E.joinItems array.values.toList))))

def watchedDisplay (E : Evaluator) : Value → Run String
  | .array ref => E.watchedArray ref
  | value => E.displayRule value

/-- The rules with everything watched for which a counter is raised. -/
def watchedDepth (laps : Nat) : Nat → Evaluator
  | 0 => exhausted
  | depth + 1 =>
    { eval := fun e env => Run.nested (Run.watched ((watchedDepth laps depth).evalRule e env))
      exec := fun stmt env => Run.nested (Run.watched ((watchedDepth laps depth).execRule stmt env))
      call := fun callee args => (watchedDepth laps depth).watchedCall callee args
      display := fun value => (watchedDepth laps depth).watchedDisplay value
      laps }

def watched (fuel : Fuel) : Evaluator := watchedDepth fuel.laps fuel.depth

end Evaluator

def Coupling.same : Coupling where
  rel m n := m = n ∧ m.levels.InBounds
  inner_eq h := congrArg Machine.inner h.1
  inBounds h := h.2
  withInner := fun ⟨h, _⟩ _ hi => ⟨h ▸ rfl, hi⟩
  outlet {m _ _ operation} := fun ⟨h, hb⟩ _ => by
    subst h
    have hk := Machine.keepsInner_exchangeOutlet.operate operation m
    exact ⟨rfl, rfl, (Machine.levels_eq_of_inner_eq hk).symm ▸ hb⟩
  stdout {m _ _ operation} := fun ⟨h, hb⟩ _ => by
    subst h
    exact ⟨rfl, rfl, hb⟩
  report := fun ⟨h, hb⟩ _ => ⟨h ▸ rfl, hb⟩

variable {K : Coupling} {E F : Evaluator}

theorem Coupling.Lockstep.watched {a b : Run α} (h : K.Lockstep a b) :
    K.Lockstep a (Run.watched b) := by
  intro m n hmn
  rcases h m n hmn with he | ⟨hr, hrel, hl⟩
  · exact .inl he
  · have hlevels : n.levels = m.levels := Machine.levels_eq_of_inner_eq (K.inner_eq hmn).symm
    have hafter : (b n).2.levels = (a m).2.levels := Machine.levels_eq_of_inner_eq (K.inner_eq hrel).symm
    have hkept : n.levels.InBounds ∧ (b n).2.levels = n.levels :=
      ⟨hlevels ▸ K.inBounds hmn, by rw [hafter, hl, hlevels]⟩
    have hb : Run.watched b n = b n := if_pos hkept
    exact .inr (by rw [hb]; exact ⟨hr, hrel, hl⟩)

namespace Tandem

theorem watchedCall (h : Tandem K E F) (callee : Value) (args : List Value) :
    K.Lockstep (E.callRule callee args) (F.watchedCall callee args) := by
  have hargs := K.congruence.hasAll args
  have hrule : K.Lockstep (E.callRule callee args) (F.callRule callee args) :=
    forget (Discipline.Sound.callRule (fun _ _ => h.sound) (fun _ => h.sound.shown trivial) trivial hargs)
  cases callee with
  | function identity f =>
    cases f with
    | native f => exact (Lockstep.watched (forget (h.sound.callNative trivial hargs))).inCall
    | closure c =>
      have hc : K.congruence.discipline.Has () (.function identity (.closure c)) := trivial
      exact (Lockstep.watched (forget (h.sound.callClosure hc hargs))).inCall
  | _ => exact hrule

theorem watchedArray (h : Tandem K E F) (ref : Ref) :
    K.Lockstep (E.displayArray ref) (F.watchedArray ref) := by
  refine Lockstep.look (fun m => ?_) fun m n hheap hjoining => ?_
  · dsimp only
    split
    · exact Lockstep.pure ""
    · split
      · exact Lockstep.raiseError _ _
      · have hjoin := h.sound.joinItems (K.congruence.hasAll (m.heap.array ref).values.toList)
        exact ((Lockstep.watched (forget hjoin)).whileJoining ref).watched.nested
  · simp only [hheap, hjoining]

theorem watchedDisplay (h : Tandem K E F) (value : Value) :
    K.Lockstep (E.displayRule value) (F.watchedDisplay value) := by
  cases value with
  | array ref => exact h.watchedArray ref
  | _ => exact forget (Discipline.Sound.displayRule (fun _ _ => h.sound) (fun _ => h.sound) trivial)

theorem watchedDepth (laps depth : Nat) :
    Tandem K (Evaluator.withDepth laps depth) (Evaluator.watchedDepth laps depth) := by
  induction depth with
  | zero =>
    exact ⟨fun _ _ => .exhaust _, fun _ _ => .exhaust _, fun _ _ => .exhaust _, fun _ => .exhaust _,
      .refl 0⟩
  | succ depth ih =>
    have hpermits := K.congruence.permits_all
    exact {
      eval := fun e env => (Lockstep.watched (forget (ih.sound.evalRule trivial (hpermits _)))).nested
      exec := fun stmt env =>
        (Lockstep.watched (forget (ih.sound.execRule (fun _ => trivial) trivial (hpermits _)))).nested
      call := fun callee args => ih.watchedCall callee args
      display := fun value => ih.watchedDisplay value
      laps := .refl laps }

end Tandem

/-- Whatever fuel it has, an action that ends does so at the levels at which it began, and
watching it changes nothing. -/
def Restores (action : Evaluator → Action Machine ε α) : Prop :=
  ∀ (fuel : Fuel) (m : Machine), m.levels.InBounds → (action (.ofFuel fuel) m).1 ≠ .error .exhausted →
    (action (.ofFuel fuel) m).2.levels = m.levels ∧ action (.watched fuel) m = action (.ofFuel fuel) m

theorem restores_of_lockstep {action : Evaluator → Action Machine ε α}
    (h : ∀ E F, Tandem .same E F → Coupling.same.Lockstep (action E) (action F)) : Restores action := by
  intro fuel m hb hr
  rcases h _ _ (.watchedDepth fuel.laps fuel.depth) m m ⟨rfl, hb⟩ with he | ⟨hresult, ⟨hafter, -⟩, hl⟩
  · exact absurd he hr
  · exact ⟨hl, (Prod.ext hresult hafter).symm⟩

/-- What an embedding program can ask of a machine. -/
inductive Invocation where
  | run (script : Source.Script)
  | drain
  | call (callee : Value) (args : List Value)
  | eval (e : Source.Expr) (env : Env)
  | exec (stmt : Source.Stmt) (env : Env)
  | display (value : Value)

/-- A result of an action that returns, with a value or by a throw. -/
def Returned : Except (Abrupt ε) α → Prop
  | .ok _ => True
  | .error (.thrown _) => True
  | .error _ => False

instance (result : Except (Abrupt ε) α) : Decidable (Returned result) :=
  match result with
  | .ok _ => isTrue trivial
  | .error (.thrown _) => isTrue trivial
  | .error (.crashed _) => isFalse id
  | .error .exhausted => isFalse id

theorem ne_exhausted_of_returned {result : Except (Abrupt ε) α} (h : Returned result) :
    result ≠ .error .exhausted := by
  rintro rfl
  exact h

/-- The invocation returns on the first machine and leaves the second one. -/
def Invocation.Leaves (fuel : Fuel) (m m' : Machine) : Invocation → Prop
  | run script => ∃ r, Session.run (.ofFuel fuel) script m = (r, m') ∧ Returned r
  | drain => ∃ r, Session.drain (.ofFuel fuel) m = (r, m') ∧ Returned r
  | call callee args => ∃ r, (Evaluator.ofFuel fuel).call callee args m = (r, m') ∧ Returned r
  | eval e env => ∃ r, (Evaluator.ofFuel fuel).eval e env m = (r, m') ∧ Returned r
  | exec stmt env => ∃ r, (Evaluator.ofFuel fuel).exec stmt env m = (r, m') ∧ Returned r
  | display value => ∃ r, (Evaluator.ofFuel fuel).display value m = (r, m') ∧ Returned r

theorem Restores.levels_eq {action : Evaluator → Action Machine ε α} (h : Restores action) {fuel : Fuel}
    {m m' : Machine} (hb : m.levels.InBounds)
    (hr : ∃ r, action (.ofFuel fuel) m = (r, m') ∧ Returned r) : m'.levels = m.levels := by
  obtain ⟨r, ha, hret⟩ := hr
  have hl := (h fuel m hb (ne_exhausted_of_returned (by rw [ha]; exact hret))).1
  rwa [ha] at hl

/-- Machines that an embedding program can reach by invocations that return. -/
def Reused : Machine → Machine → Prop :=
  Relation.ReflTransGen fun m m' => ∃ (fuel : Fuel) (invocation : Invocation), invocation.Leaves fuel m m'

theorem restores_run (script : Source.Script) : Restores (Session.run · script) :=
  restores_of_lockstep fun _ _ h => h.run script

theorem restores_drain : Restores Session.drain := restores_of_lockstep fun _ _ h => h.drain

theorem restores_call (callee : Value) (args : List Value) : Restores (·.call callee args) :=
  restores_of_lockstep fun _ _ h => h.call callee args

theorem restores_eval (e : Source.Expr) (env : Env) : Restores (·.eval e env) :=
  restores_of_lockstep fun _ _ h => h.eval e env

theorem restores_exec (stmt : Source.Stmt) (env : Env) : Restores (·.exec stmt env) :=
  restores_of_lockstep fun _ _ h => h.exec stmt env

theorem restores_display (value : Value) : Restores (·.display value) :=
  restores_of_lockstep fun _ _ h => h.display value

theorem Invocation.levels_eq {fuel : Fuel} {m m' : Machine} {invocation : Invocation}
    (hb : m.levels.InBounds) (h : invocation.Leaves fuel m m') : m'.levels = m.levels := by
  cases invocation with
  | run script => exact (restores_run script).levels_eq hb h
  | drain => exact restores_drain.levels_eq hb h
  | call callee args => exact (restores_call callee args).levels_eq hb h
  | eval e env => exact (restores_eval e env).levels_eq hb h
  | exec stmt env => exact (restores_exec stmt env).levels_eq hb h
  | display value => exact (restores_display value).levels_eq hb h

theorem Reused.levels_eq {m m' : Machine} (hb : m.levels.InBounds) (h : Reused m m') :
    m'.levels = m.levels := by
  induction h with
  | refl => rfl
  | tail _ hstep ih =>
    obtain ⟨fuel, invocation, hleaves⟩ := hstep
    exact (Invocation.levels_eq (ih.symm ▸ hb) hleaves).trans ih

/-- Whatever a machine in bounds is asked for, when it returns it is back at its levels, and
no counter was out of bounds or lowered below zero on the way. So the handler of a caught
error and the next use of the machine find the levels of the first. -/
theorem levels_kept_in_bounds_and_restored :
    (∀ script, Restores (Session.run · script)) ∧ Restores Session.drain ∧
    (∀ callee args, Restores (·.call callee args)) ∧ (∀ e env, Restores (·.eval e env)) ∧
    (∀ stmt env, Restores (·.exec stmt env)) ∧ (∀ value, Restores (·.display value)) ∧
    (∀ env body, Restores fun E => (Action.attempt (E.execBlock env body) : Run (Except Value Flow))) ∧
    ∀ m m', m.levels.InBounds → Reused m m' → m'.levels = m.levels :=
  ⟨restores_run, restores_drain, restores_call, restores_eval, restores_exec, restores_display,
    fun env body => restores_of_lockstep fun _ _ h => (h.execBlock env body).attempt,
    fun _ _ hb h => h.levels_eq hb⟩

/-- A script that catches what is thrown inside the conversion of an array, and throws again:
`try { String([{ toString: () => { throw null } }]) } catch {} throw null`. -/
def thrower : Source.Script :=
  let fails : Source.Function := .mk none [] (.block [.throwValue .null]) false false
  [.tryBlock
    [.expression (.call (.identifier "String")
      [.item (.array [.item (.object [.keyed (.name "toString") (.arrow fails)])])])]
    (.plain []) .absent,
   .throwValue .null]

theorem levels_restored_after_thrower :
    ∃ (m m' : Machine) (r : Except (Abrupt ScriptError) Unit),
      m = .new .fuzzer default {} ∧ m.levels.InBounds ∧
      Session.run (.ofFuel ⟨30, 5⟩) thrower m = (r, m') ∧ Returned r ∧ m'.levels = m.levels ∧
      Session.run (.watched ⟨30, 5⟩) thrower m = (r, m') ∧
      ∀ m'', Reused m' m'' → m''.levels = m.levels := by
  obtain ⟨m, hm⟩ : ∃ m : Machine, m = .new .fuzzer default {} := ⟨_, rfl⟩
  have hb : m.levels.InBounds := by
    rw [hm]
    decide +kernel
  have hr : Returned (Session.run (.ofFuel ⟨30, 5⟩) thrower m).1 := by
    rw [hm]
    decide +kernel
  obtain ⟨run, -, -, -, -, -, -, reused⟩ := levels_kept_in_bounds_and_restored
  obtain ⟨hl, hw⟩ := run thrower ⟨30, 5⟩ m hb (ne_exhausted_of_returned hr)
  rcases hrun : Session.run (.ofFuel ⟨30, 5⟩) thrower m with ⟨r, m'⟩
  simp only [hrun] at hl hw hr
  exact ⟨m, m', r, hm, hb, hrun, hr, hl, hw, fun m'' h => (reused m' m'' (hl.symm ▸ hb) h).trans hl⟩

end Reprl
