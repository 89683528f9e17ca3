import Reprl.Proofs.Discipline.Congruence
import Reprl.Proofs.Machine.Lockstep

/-! Lockstep is a congruence. What acts on the inner part of the machine alone is in lockstep with
itself; where levels are raised, the new levels are in bounds, and they are lowered again. So
evaluators in tandem keep machines in lockstep, also if the second has more fuel, through whole
scripts and the queue of jobs after them. -/

namespace Reprl

open Reprl.Stream

namespace Coupling

namespace Lockstep

variable {K : Coupling} {ε α β : Type}

theorem look {next next' : Machine → Action Machine ε α} (h : ∀ m, K.Lockstep (next m) (next' m))
    (hs : Machine.Heeded next') : K.Lockstep (get >>= next) (get >>= next') := by
  refine get_bind fun m n hmn => ?_
  rw [← hs m n (congrArg Machine.Inner.heap (K.inner_eq hmn))
    (congrArg (·.levels.joining) (K.inner_eq hmn))]
  exact h m m n hmn

theorem onHeap (operation : Heap → α × Heap) : K.Lockstep (Run.onHeap operation) (Run.onHeap operation) :=
  silent (fun i => (.ok (operation i.heap).1, { i with heap := (operation i.heap).2 })) (fun _ => rfl)
    fun _ => rfl

theorem newIdentity : K.Lockstep Run.newIdentity Run.newIdentity :=
  silent (fun i => (.ok i.identities, { i with identities := i.identities + 1 })) (fun _ => rfl)
    fun _ => rfl

theorem track (ref : Ref) : K.Lockstep (Run.track ref) (Run.track ref) :=
  silent (fun i => (.ok (), { i with tracked := i.tracked.push ref })) (fun _ => rfl) fun _ => rfl

theorem enqueue (job : Value) :
    K.Lockstep (modify fun m => { m with jobs := m.jobs.push job } : Run Unit)
      (modify fun m => { m with jobs := m.jobs.push job }) :=
  silent (fun i => (.ok (), { i with jobs := i.jobs.push job })) (fun _ => rfl) fun _ => rfl

theorem report (line : String) :
    K.Lockstep (modify (Machine.report line) : Run Unit) (modify (Machine.report line)) :=
  fun _ _ h => .inr ⟨rfl, K.report h line, rfl⟩

theorem raiseError (name message : String) :
    K.Lockstep (Run.raiseError name message : Run α) (Run.raiseError name message) :=
  bind (bind (onHeap _) fun _ _ _ => pure _) fun _ _ _ => throw _

theorem nested {a b : Run α} (h : K.Lockstep a b) : K.Lockstep (Run.nested a) (Run.nested b) := by
  refine get_bind fun m n hmn => ?_
  have hnesting : n.nesting = m.nesting := congrArg (·.levels.nesting) (K.inner_eq hmn).symm
  rw [hnesting]
  by_cases hfull : maxNesting ≤ m.nesting
  · simp only [if_pos hfull]
    exact raiseError _ _ m n hmn
  · simp only [if_neg hfull]
    have hbounds : m.nesting + 1 ≤ maxNesting := by omega
    let up (levels : Levels) : Levels := { levels with nesting := levels.nesting + 1 }
    let down (levels : Levels) : Levels := { levels with nesting := levels.nesting - 1 }
    exact between up down h hmn (fun _ => rfl) (fun _ => rfl)
      ⟨(K.inBounds hmn).1, hbounds⟩ rfl

theorem inCall {a b : Run α} (h : K.Lockstep a b) : K.Lockstep (Run.inCall a) (Run.inCall b) := by
  refine get_bind fun m n hmn => ?_
  have hdepth : n.depth = m.depth := congrArg (·.levels.depth) (K.inner_eq hmn).symm
  rw [hdepth]
  by_cases hfull : maxCallDepth ≤ m.depth
  · simp only [if_pos hfull]
    exact raiseError _ _ m n hmn
  · simp only [if_neg hfull]
    have hbounds : m.depth + 1 ≤ maxCallDepth := by omega
    let up (levels : Levels) : Levels := { levels with depth := levels.depth + 1 }
    let down (levels : Levels) : Levels := { levels with depth := levels.depth - 1 }
    exact between up down h hmn (fun _ => rfl) (fun _ => rfl)
      ⟨hbounds, (K.inBounds hmn).2⟩ rfl

theorem whileJoining (ref : Ref) {a b : Run α} (h : K.Lockstep a b) :
    K.Lockstep (Run.whileJoining ref a) (Run.whileJoining ref b) := by
  intro m n hmn
  let up (levels : Levels) : Levels := { levels with joining := ref :: levels.joining }
  let down (levels : Levels) : Levels := { levels with joining := levels.joining.tail }
  exact between up down h hmn (fun _ => rfl) (fun _ => rfl) (K.inBounds hmn) rfl

end Lockstep

def congruence (K : Coupling) : Congruence where
  Rel := K.Lockstep
  lags := True
  pure := Lockstep.pure
  throw := Lockstep.throw
  exhaust b _ := Lockstep.exhaust b
  bind := Lockstep.bind
  attempt := Lockstep.attempt
  look := Lockstep.look
  onHeap := Lockstep.onHeap
  newIdentity := Lockstep.newIdentity
  track := Lockstep.track
  enqueue := Lockstep.enqueue
  report := Lockstep.report
  fuzzSink _ _ hu := .onSink rfl Machine.keepsInner_exchangeOutlet fun _ _ hmn => K.outlet hmn hu
  printSink _ _ hu := .onSink rfl Machine.keepsInner_exchangeStdout fun _ _ hmn => K.stdout hmn hu
  nested := Lockstep.nested
  inCall := Lockstep.inCall
  whileJoining := Lockstep.whileJoining

end Coupling

/-- Evaluators that do the same on coupled machines, as far as the fuel of the first goes. -/
abbrev Tandem (K : Coupling) (E F : Evaluator) : Prop := K.congruence.Related E F

namespace Tandem

variable {K : Coupling} {E F : Evaluator}

open Coupling

theorem evalArgs (h : Tandem K E F) (env : Env) (args : List Source.Element) :
    K.Lockstep (E.evalArgs env args) (F.evalArgs env args) :=
  Congruence.forget (h.sound.evalArgs trivial (K.congruence.permits_all _))

theorem execBlock (h : Tandem K E F) (env : Env) (body : List Source.Stmt) :
    K.Lockstep (E.execBlock env body) (F.execBlock env body) :=
  Congruence.forget (h.sound.execBlock trivial (K.congruence.permits_all _))

theorem popJob_apply (m : Machine) :
    Session.popJob m = match m.jobs.pop? with
      | some (job, jobs) => (.ok (some job), { m with jobs })
      | none => (.ok none, m) := by
  let popped : Option Value × Machine := match m.jobs.pop? with
    | some (job, jobs) => (some job, { m with jobs })
    | none => (none, m)
  have hp : Session.popJob m = (.ok popped.1, popped.2) := rfl
  rw [hp]
  rcases hj : m.jobs.pop? with _ | ⟨job, jobs⟩
  · simp only [popped, hj]
  · simp only [popped, hj]

theorem popJob : K.Lockstep Session.popJob Session.popJob := by
  refine Lockstep.silent (fun i => match i.jobs.pop? with
    | some (job, jobs) => (.ok (some job), { i with jobs })
    | none => (.ok none, i)) (fun i => ?_) fun m => ?_
  · split <;> rfl
  · rw [popJob_apply]
    rcases hj : m.jobs.pop? with _ | ⟨job, jobs⟩
    · simp only [Machine.inner, hj]
      rfl
    · simp only [Machine.inner, hj]
      rfl

theorem pops : K.congruence.discipline.Pops () K.congruence.setting.Any :=
  fun _ => Congruence.related popJob (fun _ _ _ => trivial) fun _ => trivial

theorem drain (h : Tandem K E F) : K.Lockstep (Session.drain E) (Session.drain F) :=
  Congruence.forget (h.sound.drain id (fun _ _ => trivial) pops)

theorem execute (h : Tandem K E F) (source : String) :
    K.Lockstep (Session.execute E source) (Session.execute F source) :=
  Congruence.forget (h.sound.execute id (fun _ _ => trivial) pops trivial trivial fun _ _ =>
    K.congruence.permits_all _)

end Tandem

end Reprl
