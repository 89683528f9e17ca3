import Reprl.Proofs.Discipline.Congruence
import Reprl.Proofs.Machine.Join
import Reprl.Proofs.Machine.Lockstep

/-! Declarations of functions take effect before the statements around them. Where they stand is
passed over, except at the nesting limit, where no statement is executed at all. So they may as
well stand in front of all others. -/

namespace Reprl

open Source Reprl.Stream

/-- The action comes back to the levels at which it began, whatever they are. -/
def KeepsLevels {ε α : Type} (a : Action Machine ε α) : Prop := ∀ m, (a m).2.levels = m.levels

namespace KeepsLevels

variable {ε δ α β : Type}

theorem bind {a : Action Machine ε α} {next : α → Action Machine ε β} (h : KeepsLevels a)
    (hn : ∀ m x, (a m).1 = .ok x → KeepsLevels (next x)) : KeepsLevels (a >>= next) := by
  intro m
  have hfirst := h m
  rw [Action.bind_apply]
  rcases ha : a m with ⟨e | x, m'⟩
  all_goals rw [ha] at hfirst
  · exact hfirst
  · exact (hn m x (congrArg Prod.fst ha) m').trans hfirst

theorem attempt {a : Action Machine ε α} (h : KeepsLevels a) :
    KeepsLevels (Action.attempt a : Action Machine δ (Except ε α)) := by
  intro m
  have hfirst := h m
  rcases ha : a m with ⟨(e | signal | _) | x, m'⟩
  all_goals
    rw [ha] at hfirst
    rw [Action.attempt_of_apply ha]
    exact hfirst

theorem onSink {host : Intrinsic.Host Machine ε Value} (h : Machine.KeepsInner host.exchange)
    (operation : Sink → β × Sink) : KeepsLevels (host.onSink operation) :=
  fun m => Machine.levels_eq_of_inner_eq (h.operate operation m)

theorem between (up down : Levels → Levels) {enter leave : Machine → Machine} {a : Run α}
    (h : KeepsLevels a) (hu : ∀ m, (enter m).levels = up m.levels)
    (hd : ∀ m, (leave m).levels = down m.levels) (hback : ∀ levels, down (up levels) = levels) :
    KeepsLevels (Run.between enter leave a) := by
  intro m
  show (leave (a (enter m)).2).levels = m.levels
  rw [hd, h, hu, hback]

theorem nested {a : Run α} (h : KeepsLevels a) : KeepsLevels (Run.nested a) := by
  intro m
  rw [nested_apply]
  split
  · rfl
  · let up (levels : Levels) : Levels := { levels with nesting := levels.nesting + 1 }
    let down (levels : Levels) : Levels := { levels with nesting := levels.nesting - 1 }
    exact between up down h (fun _ => rfl) (fun _ => rfl) (fun _ => rfl) m

theorem inCall {a : Run α} (h : KeepsLevels a) : KeepsLevels (Run.inCall a) := by
  intro m
  simp only [Run.inCall, Action.bind_of_ok (get_apply m)]
  split
  · rfl
  · let up (levels : Levels) : Levels := { levels with depth := levels.depth + 1 }
    let down (levels : Levels) : Levels := { levels with depth := levels.depth - 1 }
    exact between up down h (fun _ => rfl) (fun _ => rfl) (fun _ => rfl) m

theorem whileJoining {a : Run α} (h : KeepsLevels a) (ref : Ref) :
    KeepsLevels (Run.whileJoining ref a) :=
  let up (levels : Levels) : Levels := { levels with joining := ref :: levels.joining }
  let down (levels : Levels) : Levels := { levels with joining := levels.joining.tail }
  between up down h (fun _ => rfl) (fun _ => rfl) fun _ => rfl

end KeepsLevels

/-- An action beside itself, as long as it keeps the levels. -/
def Congruence.keepingLevels : Congruence where
  Rel a b := a = b ∧ KeepsLevels a
  lags := False
  pure _ := ⟨rfl, fun _ => rfl⟩
  throw _ := ⟨rfl, fun _ => rfl⟩
  exhaust _ := False.elim
  bind := by
    rintro _ _ _ a _ next next' ⟨rfl, h⟩ hn
    refine ⟨funext fun m => ?_, h.bind fun m x hx => (hn m x hx).2⟩
    rw [Action.bind_apply, Action.bind_apply]
    rcases ha : a m with ⟨e | x, m'⟩
    · rfl
    · exact congrFun (hn m x (congrArg Prod.fst ha)).1 m'
  attempt := by
    rintro _ _ _ a _ ⟨rfl, h⟩
    exact ⟨rfl, h.attempt⟩
  look := by
    intro _ _ next next' h _
    obtain rfl : next = next' := funext fun m => (h m).1
    exact ⟨rfl, fun m => (h m).2 m⟩
  onHeap _ := ⟨rfl, fun _ => rfl⟩
  newIdentity := ⟨rfl, fun _ => rfl⟩
  track _ := ⟨rfl, fun _ => rfl⟩
  enqueue _ := ⟨rfl, fun _ => rfl⟩
  report _ := ⟨rfl, fun _ => rfl⟩
  fuzzSink _ _ _ := ⟨rfl, .onSink Machine.keepsInner_exchangeOutlet _⟩
  printSink _ _ _ := ⟨rfl, .onSink Machine.keepsInner_exchangeStdout _⟩
  nested := by
    rintro _ a _ ⟨rfl, h⟩
    exact ⟨rfl, h.nested⟩
  inCall := by
    rintro _ a _ ⟨rfl, h⟩
    exact ⟨rfl, h.inCall⟩
  whileJoining := by
    rintro _ ref a _ ⟨rfl, h⟩
    exact ⟨rfl, h.whileJoining ref⟩

theorem Evaluator.exec_keepsLevels (laps depth : Nat) (stmt : Stmt) (env : Env) :
    KeepsLevels ((withDepth laps depth).exec stmt env) :=
  ((Congruence.Related.withDepth (C := .keepingLevels) (.refl laps) (.refl depth)).exec stmt env).2

namespace Source

def Stmt.isFunction : Stmt → Bool
  | .function .. => true
  | _ => false

/-- The statements with all declarations of functions in front, and in the same order otherwise. -/
def functionsFirst (body : List Stmt) : List Stmt :=
  body.filter Stmt.isFunction ++ body.filter (!Stmt.isFunction ·)

theorem filter_isFunction_functionsFirst (body : List Stmt) :
    (functionsFirst body).filter Stmt.isFunction = body.filter Stmt.isFunction := by
  simp [functionsFirst, List.filter_filter]

theorem filter_not_isFunction_functionsFirst (body : List Stmt) :
    (functionsFirst body).filter (!Stmt.isFunction ·) = body.filter (!Stmt.isFunction ·) := by
  simp [functionsFirst, List.filter_filter]

theorem functionsFirst_perm (body : List Stmt) : (functionsFirst body).Perm body :=
  List.filter_append_perm Stmt.isFunction body

theorem functionsFirst_eq_nil_iff (body : List Stmt) : functionsFirst body = [] ↔ body = [] := by
  rw [← List.perm_nil, ← List.perm_nil, (functionsFirst_perm body).congr_left]

end Source

/-- Only the declarations in a list are hoisted from it. -/
theorem Run.hoist_filter (env : Env) (body : List Stmt) :
    Run.hoist env (body.filter Stmt.isFunction) = Run.hoist env body := by
  fun_induction Run.hoist env body with
  | case1 => rfl
  | case2 name f rest ih =>
    show (do Run.declare env name (← Run.makeClosure (some name) f env) true
             Run.hoist env (rest.filter Stmt.isFunction)) = _
    rw [ih]
  | case3 stmt rest hother ih =>
    have hfalse : stmt.isFunction = false := by
      cases stmt with
      | function name f => exact absurd rfl (hother name f)
      | _ => rfl
    rw [List.filter_cons_of_neg (by simp [hfalse]), ih]

namespace Evaluator

variable (laps depth : Nat) (env : Env)

/-- The error at the nesting limit, which is thrown before a statement is looked at. -/
def atLimit {α : Type} : Run α := Run.raiseError "RangeError" "Maximum nesting depth exceeded"

theorem exec_at_limit {m : Machine} (h : maxNesting ≤ m.nesting) (stmt : Stmt) :
    (withDepth laps (depth + 1)).exec stmt env m = atLimit m :=
  (nested_apply _ m).trans (if_pos h)

theorem exec_function {m : Machine} (h : m.nesting < maxNesting) {stmt : Stmt}
    (hs : stmt.isFunction) : (withDepth laps (depth + 1)).exec stmt env m = (.ok .normal, m) := by
  cases stmt with
  | function name f => exact (nested_apply _ m).trans (if_neg (Nat.not_le_of_lt h))
  | _ => cases hs

theorem execList_at_limit {m : Machine} (h : maxNesting ≤ m.nesting) {body : List Stmt}
    (hne : body ≠ []) : (withDepth laps (depth + 1)).execList env body m = atLimit m := by
  cases body with
  | nil => exact absurd rfl hne
  | cons stmt rest =>
    have hthrown : (withDepth laps (depth + 1)).exec stmt env m = _ := exec_at_limit laps depth env h stmt
    exact Action.bind_of_error hthrown _

/-- Below the limit declarations are passed over. What is executed between them leaves the
nesting as it was, so all of them are below the limit if the first statement is. -/
theorem execList_filter {m : Machine} (h : m.nesting < maxNesting) (body : List Stmt) :
    (withDepth laps (depth + 1)).execList env (body.filter (!Stmt.isFunction ·)) m =
      (withDepth laps (depth + 1)).execList env body m := by
  induction body generalizing m with
  | nil => rfl
  | cons stmt rest ih =>
    by_cases hs : stmt.isFunction
    · have hrun := exec_function laps depth env h hs
      rw [List.filter_cons_of_neg (by simp [hs]), ih h, execList, Action.bind_of_ok hrun]
    · rw [List.filter_cons_of_pos (by simpa using hs), execList, execList]
      have hlevels := exec_keepsLevels laps (depth + 1) stmt env m
      rcases hrun : (withDepth laps (depth + 1)).exec stmt env m with ⟨e | flow, m'⟩
      · rw [Action.bind_of_error hrun, Action.bind_of_error hrun]
      · rw [hrun] at hlevels
        have hnesting : m'.nesting = m.nesting := congrArg Levels.nesting hlevels
        rw [Action.bind_of_ok hrun, Action.bind_of_ok hrun]
        cases flow with
        | normal => exact ih (hnesting ▸ h)
        | _ => rfl

/-- Lists with the same statements other than declarations are executed alike, unless only one of
them is empty. -/
theorem execList_congr {first second : List Stmt}
    (hothers : first.filter (!Stmt.isFunction ·) = second.filter (!Stmt.isFunction ·))
    (hnil : first = [] ↔ second = []) :
    (withDepth laps depth).execList env first = (withDepth laps depth).execList env second := by
  by_cases hempty : first = []
  · rw [hempty, hnil.mp hempty]
  have hne : second ≠ [] := mt hnil.mpr hempty
  cases depth with
  | zero =>
    obtain ⟨_, _, rfl⟩ := List.exists_cons_of_ne_nil hempty
    obtain ⟨_, _, rfl⟩ := List.exists_cons_of_ne_nil hne
    rfl
  | succ depth =>
    funext m
    by_cases hlimit : maxNesting ≤ m.nesting
    · rw [execList_at_limit laps depth env hlimit hempty, execList_at_limit laps depth env hlimit hne]
    · have hbelow := Nat.lt_of_not_le hlimit
      rw [← execList_filter laps depth env hbelow first, hothers, execList_filter laps depth env hbelow]

end Evaluator

section

variable (fuel : Fuel) (env : Env) (body : List Stmt)

theorem hoist_functionsFirst : Run.hoist env (functionsFirst body) = Run.hoist env body := by
  rw [← Run.hoist_filter, filter_isFunction_functionsFirst, Run.hoist_filter]

theorem execList_functionsFirst : (Evaluator.ofFuel fuel).execList env (functionsFirst body) =
    (Evaluator.ofFuel fuel).execList env body :=
  Evaluator.execList_congr _ _ env (filter_not_isFunction_functionsFirst body)
    (functionsFirst_eq_nil_iff body)

/-- A list of statements does the same in every scope and on every machine when its functions are
declared in front: it ends in the same way and leaves the same machine, heap and outputs included.
So do scripts, blocks and bodies of functions. -/
theorem functions_may_stand_first :
    (do Run.hoist env (functionsFirst body)
        (Evaluator.ofFuel fuel).execList env (functionsFirst body)) =
      (do Run.hoist env body
          (Evaluator.ofFuel fuel).execList env body) ∧
    Session.run (.ofFuel fuel) (functionsFirst body) = Session.run (.ofFuel fuel) body ∧
    (Evaluator.ofFuel fuel).execBlock env (functionsFirst body) =
      (Evaluator.ofFuel fuel).execBlock env body ∧
    ∀ name params args,
      (Evaluator.ofFuel fuel).callClosure ⟨name, params, .block (functionsFirst body), env⟩ args =
        (Evaluator.ofFuel fuel).callClosure ⟨name, params, .block body, env⟩ args := by
  have hhoist (env : Env) := hoist_functionsFirst env body
  have hexec (env : Env) := execList_functionsFirst fuel env body
  refine ⟨?_, ?_, ?_, fun name params args => ?_⟩
  · rw [hhoist, hexec]
  · simp only [Session.run, hhoist, hexec]
  · simp only [Evaluator.execBlock, hhoist, hexec]
  · simp only [Evaluator.callClosure, hhoist, hexec]

end

end Reprl
