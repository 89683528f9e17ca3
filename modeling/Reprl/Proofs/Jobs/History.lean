import Reprl.Proofs.Jobs.Enqueues
import Reprl.Proofs.Machine.Tandem

/-! The history of a queue. Every job that a machine was ever given has been started or still
waits, and both in the order in which they were given. A drain starts jobs from the front until
one of them throws or none is left. -/

namespace Reprl

variable {ε α : Type} {E : Evaluator}

/-- What an action adds to the queue, seen on a machine without jobs. -/
def addedBy (action : Action Machine ε α) (m : Machine) : List Value :=
  (action { m with jobs := {} }).2.jobs.toList

theorem Enqueues.toList_jobs {action : Action Machine ε α} (h : Enqueues action) (m : Machine) :
    (action m).2.jobs.toList = m.jobs.toList ++ addedBy action m := by
  obtain ⟨result, after, added, ha⟩ := h m
  have hadded : addedBy action m = added := by
    rw [addedBy, ha {}, Queue.toList_pushAll]
    rfl
  have hm : action m = (result, { after with jobs := m.jobs.pushAll added }) := ha m.jobs
  rw [hm, hadded]
  exact Queue.toList_pushAll m.jobs added

namespace Enqueuing

theorem run (h : Enqueuing E) (script : Source.Script) : Enqueues (Session.run E script) :=
  enqueues_of_behind fun waiting => (h waiting).run script

theorem eval (h : Enqueuing E) (e : Source.Expr) (env : Env) : Enqueues (E.eval e env) :=
  enqueues_of_behind fun waiting => (h waiting).eval e env

theorem call (h : Enqueuing E) (callee : Value) (args : List Value) : Enqueues (E.call callee args) :=
  enqueues_of_behind fun waiting => (h waiting).call callee args

theorem start (h : Enqueuing E) (job : Value) : Enqueues (Session.complete E (E.call job [])) :=
  enqueues_of_behind fun waiting => (h waiting).complete ((h waiting).call job [])

end Enqueuing

/-- A machine with all jobs that it was given and all that it started. -/
structure History where
  machine : Machine
  enqueued : List Value
  started : List Value

namespace History

def begin (m : Machine) : History := ⟨m, m.jobs.toList, []⟩

/-- Each job that was given was started or waits, once and in order. -/
def Conserved (h : History) : Prop := h.started ++ h.machine.jobs.toList = h.enqueued

def record (action : Action Machine ε α) : Action History ε α := fun h =>
  ((action h.machine).1,
    { h with
      machine := (action h.machine).2
      enqueued := h.enqueued ++ addedBy action h.machine })

def startJob : Action History ScriptError (Option Value) := fun h =>
  match h.machine.jobs.pop? with
  | some (job, jobs) =>
    (.ok (some job), { h with machine := { h.machine with jobs }, started := h.started ++ [job] })
  | none => (.ok none, h)

def drainFor (E : Evaluator) : Nat → Action History ScriptError Unit
  | 0 => Action.exhaust
  | laps + 1 => do
    match ← startJob with
    | none => return ()
    | some job =>
      let _ ← record (Session.complete E (E.call job []))
      drainFor E laps

def drain (E : Evaluator) : Action History ScriptError Unit := drainFor E E.laps

def execute (E : Evaluator) (source : String) : Action History ScriptError Unit := do
  let script ← record (Session.parse source)
  record (Session.run E script)
  drain E

/-- An action with its record, which does the same and keeps count of the jobs. -/
structure Recorded (action : Action Machine ε α) (noted : Action History ε α) : Prop where
  same : ∀ h : History, action h.machine = ((noted h).1, (noted h).2.machine)
  conserved : ∀ h : History, h.Conserved → (noted h).2.Conserved

namespace Recorded

theorem pure (x : α) :
    Recorded (Pure.pure x : Action Machine ε α) (Pure.pure x : Action History ε α) :=
  ⟨fun _ => rfl, fun _ hc => hc⟩

theorem exhaust : Recorded (Action.exhaust : Action Machine ε α) (Action.exhaust : Action History ε α) :=
  ⟨fun _ => rfl, fun _ hc => hc⟩

theorem bind {β : Type} {action : Action Machine ε α} {noted : Action History ε α}
    {next : α → Action Machine ε β} {notedNext : α → Action History ε β} (h : Recorded action noted)
    (hn : ∀ x, Recorded (next x) (notedNext x)) : Recorded (action >>= next) (noted >>= notedNext) := by
  constructor
  · intro before
    simp only [Action.bind_apply, h.same before]
    rcases noted before with ⟨_ | x, middle⟩
    · rfl
    · exact (hn x).same middle
  · intro before hc
    have hmiddle := h.conserved before hc
    rw [Action.bind_apply]
    rcases hb : noted before with ⟨_ | x, middle⟩
    · rw [hb] at hmiddle
      exact hmiddle
    · rw [hb] at hmiddle
      exact (hn x).conserved middle hmiddle

theorem record {action : Action Machine ε α} (h : Enqueues action) :
    Recorded action (History.record action) := by
  refine ⟨fun _ => rfl, fun before hc => ?_⟩
  have hjobs := h.toList_jobs before.machine
  rw [Conserved] at hc ⊢
  simp only [History.record, hjobs, ← hc, List.append_assoc]

theorem startJob : Recorded Session.popJob History.startJob := by
  constructor
  · intro before
    rw [Tandem.popJob_apply, History.startJob]
    rcases before.machine.jobs.pop? with _ | ⟨job, jobs⟩ <;> rfl
  · intro before hc
    rw [History.startJob]
    rcases hj : before.machine.jobs.pop? with _ | ⟨job, jobs⟩
    · exact hc
    · rw [Conserved, Queue.toList_of_pop? hj] at hc
      simpa only [Conserved, List.append_assoc, List.singleton_append] using hc

theorem drainFor (h : Enqueuing E) (laps : Nat) :
    Recorded (Session.drainFor E laps) (History.drainFor E laps) := by
  induction laps with
  | zero => exact exhaust
  | succ laps ih =>
    refine startJob.bind fun job => ?_
    cases job with
    | none => exact pure ()
    | some job => exact (record (h.start job)).bind fun _ => ih

theorem drain (h : Enqueuing E) : Recorded (Session.drain E) (History.drain E) := drainFor h E.laps

theorem execute (h : Enqueuing E) (source : String) :
    Recorded (Session.execute E source) (History.execute E source) := by
  have parse : Enqueues (Session.parse source) :=
    enqueues_of_behind fun waiting => (Congruence.behind waiting).parse source
  exact (record parse).bind fun script => (record (h.run script)).bind fun _ => drain h

end Recorded

theorem drainFor_succ (E : Evaluator) (laps : Nat) (h : History) :
    drainFor E (laps + 1) h =
      match h.machine.jobs.pop? with
      | none => (.ok (), h)
      | some (job, jobs) =>
        (record (Session.complete E (E.call job [])) >>= fun _ => drainFor E laps)
          { h with machine := { h.machine with jobs }, started := h.started ++ [job] } := by
  rw [drainFor, Action.bind_apply, startJob]
  rcases h.machine.jobs.pop? with _ | ⟨job, jobs⟩ <;> rfl

end History

/-- Jobs that are taken from the front of the queue and complete, one after the other. -/
inductive Completed (E : Evaluator) : Machine → List Value → Machine → Prop
  | nil (m : Machine) : Completed E m [] m
  | cons {m middle last : Machine} {job value : Value} {jobs : Queue Value} {done : List Value} :
      m.jobs.pop? = some (job, jobs) →
      Session.complete E (E.call job []) { m with jobs } = (.ok value, middle) →
      Completed E middle done last → Completed E m (job :: done) last

/-- How a drain ends: with an empty queue, or with the first job that throws. -/
def DrainEnds (E : Evaluator) (m m' : Machine) (started : List Value) :
    Except (Abrupt ScriptError) Unit → Prop
  | .ok () => Completed E m started m' ∧ m'.jobs.toList = []
  | .error (.thrown e) =>
    ∃ done before job rest, Completed E m done before ∧ before.jobs.pop? = some (job, rest) ∧
      Session.complete E (E.call job []) { before with jobs := rest } = (.error (.thrown e), m') ∧
      started = done ++ [job] ∧ rest.toList <+: m'.jobs.toList
  | .error _ => True

theorem DrainEnds.cons {m middle last : Machine} {job value : Value} {jobs : Queue Value}
    {started : List Value} {result : Except (Abrupt ScriptError) Unit}
    (hj : m.jobs.pop? = some (job, jobs))
    (hc : Session.complete E (E.call job []) { m with jobs } = (.ok value, middle))
    (h : DrainEnds E middle last started result) : DrainEnds E m last (job :: started) result := by
  rcases result with (e | signal | _) | _
  · obtain ⟨done, before, thrower, rest, hdone, hpop, hthrow, rfl, hrest⟩ := h
    exact ⟨job :: done, before, thrower, rest, .cons hj hc hdone, hpop, hthrow, rfl, hrest⟩
  · trivial
  · trivial
  · exact ⟨.cons hj hc h.1, h.2⟩

theorem History.drainFor_ends (he : Enqueuing E) (laps : Nat) (h : History) :
    ∃ started, (drainFor E laps h).2.started = h.started ++ started ∧
      DrainEnds E h.machine (drainFor E laps h).2.machine started (drainFor E laps h).1 := by
  -- On the laps: a drain starts one job from the front and goes on as another drain.
  induction laps generalizing h with
  | zero => exact ⟨[], (List.append_nil _).symm, trivial⟩
  | succ laps ih =>
    rw [drainFor_succ]
    rcases hj : h.machine.jobs.pop? with _ | ⟨job, jobs⟩
    · exact ⟨[], (List.append_nil _).symm, .nil _, Queue.pop?_eq_none_iff.mp hj⟩
    · let taken : History :=
        { h with machine := { h.machine with jobs }, started := h.started ++ [job] }
      have hcalls := he.start job
      simp only [Action.bind_apply, record]
      rcases hc : Session.complete E (E.call job []) taken.machine with ⟨(e | signal | _) | value, after⟩
      -- The job throws: what waited behind it still does, before what it added.
      · have hrest := hcalls.toList_jobs taken.machine
        rw [hc] at hrest
        exact ⟨[job], rfl, [], h.machine, job, jobs, .nil _, hj, hc, rfl, _, hrest.symm⟩
      · exact ⟨[job], rfl, trivial⟩
      · exact ⟨[job], rfl, trivial⟩
      · let called : History :=
          { taken with
            machine := after
            enqueued := h.enqueued ++ addedBy (Session.complete E (E.call job [])) taken.machine }
        obtain ⟨started, hstarted, hends⟩ := ih called
        refine ⟨job :: started, ?_, hends.cons hj hc⟩
        rw [hstarted, List.append_assoc]
        rfl

/-- What an embedding program can do with a machine. -/
inductive Step where
  | run (script : Source.Script)
  | drain
  | execute (source : String)
  | eval (e : Source.Expr) (env : Env)
  | call (callee : Value) (args : List Value)
  | enqueue (job : Value)

namespace Step

def act (E : Evaluator) : Step → Machine → Machine
  | run script, m => (Session.run E script m).2
  | drain, m => (Session.drain E m).2
  | execute source, m => (Session.execute E source m).2
  | eval e env, m => (E.eval e env m).2
  | call callee args, m => (E.call callee args m).2
  | enqueue job, m => { m with jobs := m.jobs.push job }

def note (E : Evaluator) : Step → History → History
  | run script, h => (History.record (Session.run E script) h).2
  | drain, h => (History.drain E h).2
  | execute source, h => (History.execute E source h).2
  | eval e env, h => (History.record (E.eval e env) h).2
  | call callee args, h => (History.record (E.call callee args) h).2
  | enqueue job, h =>
    { h with
      machine := { h.machine with jobs := h.machine.jobs.push job }
      enqueued := h.enqueued ++ [job] }

theorem machine_note (he : Enqueuing E) (step : Step) (h : History) :
    (step.note E h).machine = step.act E h.machine := by
  cases step with
  | run script => rfl
  | drain => exact (congrArg Prod.snd ((History.Recorded.drain he).same h)).symm
  | execute source => exact (congrArg Prod.snd ((History.Recorded.execute he source).same h)).symm
  | eval e env => rfl
  | call callee args => rfl
  | enqueue job => rfl

theorem conserved_note (he : Enqueuing E) (step : Step) {h : History} (hc : h.Conserved) :
    (step.note E h).Conserved := by
  cases step with
  | run script => exact (History.Recorded.record (he.run script)).conserved h hc
  | drain => exact (History.Recorded.drain he).conserved h hc
  | execute source => exact (History.Recorded.execute he source).conserved h hc
  | eval e env => exact (History.Recorded.record (he.eval e env)).conserved h hc
  | call callee args => exact (History.Recorded.record (he.call callee args)).conserved h hc
  | enqueue job =>
    rw [History.Conserved] at hc ⊢
    simp only [note, Queue.toList_push, ← hc, List.append_assoc]

end Step

namespace History

def after (E : Evaluator) (steps : List Step) (h : History) : History :=
  steps.foldl (fun h step => step.note E h) h

theorem machine_after (he : Enqueuing E) (steps : List Step) (h : History) :
    (h.after E steps).machine = steps.foldl (fun m step => step.act E m) h.machine := by
  induction steps generalizing h with
  | nil => rfl
  | cons step rest ih =>
    have hrest := ih (step.note E h)
    rw [Step.machine_note he] at hrest
    exact hrest

theorem Conserved.after (he : Enqueuing E) (steps : List Step) {h : History} (hc : h.Conserved) :
    (h.after E steps).Conserved := by
  induction steps generalizing h with
  | nil => exact hc
  | cons step rest ih => exact ih (Step.conserved_note he step hc)

end History

/-- Whatever is done with a machine, the jobs that were started and those that wait are together
the jobs that it was given, in order. Only a drain takes jobs away; it takes them from the front,
and ends when none is left or with the first that throws, which leaves those behind it. -/
theorem jobs_start_once_in_order (fuel : Fuel) :
    (∀ script, Enqueues (Session.run (.ofFuel fuel) script)) ∧
    (∀ e env, Enqueues ((Evaluator.ofFuel fuel).eval e env)) ∧
    (∀ callee args, Enqueues ((Evaluator.ofFuel fuel).call callee args)) ∧
    (∀ h : History, ∃ started,
      (History.drain (.ofFuel fuel) h).2.started = h.started ++ started ∧
      DrainEnds (.ofFuel fuel) h.machine (Session.drain (.ofFuel fuel) h.machine).2 started
        (Session.drain (.ofFuel fuel) h.machine).1) ∧
    ∀ (m : Machine) (steps : List Step),
      ((History.begin m).after (.ofFuel fuel) steps).machine =
        steps.foldl (fun m step => step.act (.ofFuel fuel) m) m ∧
      ((History.begin m).after (.ofFuel fuel) steps).Conserved := by
  have he : Enqueuing (.ofFuel fuel) := .ofFuel fuel
  refine ⟨he.run, he.eval, he.call, fun h => ?_, fun m steps => ?_⟩
  · rw [(History.Recorded.drain he).same h]
    exact History.drainFor_ends he _ h
  · exact ⟨History.machine_after he steps _, History.Conserved.after he steps rfl⟩

/-- The second of three jobs throws: it is started, and the third one waits. -/
example :
    let job (identity : Nat) (reply : Reply) : Step :=
      .enqueue (.function identity (.native (.host "job" reply)))
    let h := (History.begin {}).after (.ofFuel ⟨10, 10⟩)
      [job 0 (.returns .null), job 1 (.throws .null), job 2 (.returns .null), .drain]
    (h.started.length, h.machine.jobs.toList.length, h.enqueued.length) = (2, 1, 3) := by
  decide +kernel

end Reprl
