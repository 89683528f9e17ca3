import Reprl.Proofs.Discipline.Congruence

/-! Actions that add jobs to the queue and do nothing else with it. Neither their results nor
what they add depends on the jobs that wait already, and these stay where they are: an action
does the same behind other jobs, and this is a congruence. -/

namespace Reprl

namespace Queue

variable {α : Type}

def pushAll (q : Queue α) (added : List α) : Queue α := added.foldl push q

theorem pushAll_append (q : Queue α) (first second : List α) :
    q.pushAll (first ++ second) = (q.pushAll first).pushAll second := List.foldl_append

theorem toList_pushAll (q : Queue α) (added : List α) : (q.pushAll added).toList = q.toList ++ added := by
  induction added generalizing q with
  | nil => exact (List.append_nil _).symm
  | cons a rest ih =>
    have hrest := ih (q.push a)
    rw [toList_push, List.append_assoc, List.singleton_append] at hrest
    exact hrest

end Queue

open Reprl.Stream

variable {ε δ α β : Type}

/-- From every machine the action adds the same jobs, and ends in the same way, whatever jobs
the machine has. -/
def Enqueues (action : Action Machine ε α) : Prop :=
  ∀ m : Machine, ∃ (result : Except (Abrupt ε) α) (after : Machine) (added : List Value),
    ∀ jobs, action { m with jobs } = (result, { after with jobs := jobs.pushAll added })

def Machine.behind (waiting : Queue Value) (m : Machine) : Machine :=
  { m with jobs := waiting.pushAll m.jobs.toList }

/-- Behind others, the second action does what the first does without them, and leaves them there. -/
def Behind (waiting : Queue Value) (a b : Action Machine ε α) : Prop :=
  ∀ m : Machine, b (m.behind waiting) = ((a m).1, (a m).2.behind waiting)

theorem enqueues_of_behind {a : Action Machine ε α} (h : ∀ waiting, Behind waiting a a) :
    Enqueues a := by
  intro m
  -- A machine without jobs shows what the action adds.
  let alone : Machine := { m with jobs := {} }
  exact ⟨(a alone).1, (a alone).2, (a alone).2.jobs.toList, fun jobs => h jobs alone⟩

namespace Behind

variable {waiting : Queue Value} {a b : Action Machine ε α}

theorem bind {next next' : α → Action Machine ε β} (h : Behind waiting a b)
    (hn : ∀ m x, (a m).1 = .ok x → Behind waiting (next x) (next' x)) :
    Behind waiting (a >>= next) (b >>= next') := by
  intro m
  rw [Action.bind_apply, Action.bind_apply, h m]
  rcases ha : a m with ⟨_ | x, middle⟩
  · rfl
  · exact hn m x (congrArg Prod.fst ha) middle

theorem attempt (h : Behind waiting a b) :
    Behind waiting (Action.attempt a : Action Machine δ (Except ε α)) (Action.attempt b) := by
  intro m
  rw [Action.attempt_of_apply (h m)]
  rcases ha : a m with ⟨(e | signal | _) | x, after⟩
  all_goals
    rw [Action.attempt_of_apply ha]
    rfl

theorem get_bind {next next' : Machine → Action Machine ε α}
    (hs : ∀ m : Machine, next' (m.behind waiting) = next' m)
    (h : ∀ m, Behind waiting (next m) (next' m)) : Behind waiting (get >>= next) (get >>= next') := by
  intro m
  have hrun : (get >>= next') (m.behind waiting) = next' (m.behind waiting) (m.behind waiting) := rfl
  rw [hrun, hs]
  exact h m m

theorem enqueue (job : Value) :
    Behind waiting (modify fun m => { m with jobs := m.jobs.push job } : Run Unit)
      (modify fun m => { m with jobs := m.jobs.push job }) := by
  intro m
  have hpush : (waiting.pushAll m.jobs.toList).push job = waiting.pushAll (m.jobs.push job).toList := by
    rw [Queue.toList_push, Queue.pushAll_append]
    rfl
  exact congrArg (fun jobs => (Except.ok (), { m with jobs })) hpush

theorem between {enter leave : Machine → Machine} {a b : Run α} (h : Behind waiting a b)
    (hj : ∀ m : Machine, enter (m.behind waiting) = (enter m).behind waiting ∧
      leave (m.behind waiting) = (leave m).behind waiting) :
    Behind waiting (Run.between enter leave a) (Run.between enter leave b) := by
  intro m
  have hrun (a : Run α) (m : Machine) :
      Run.between enter leave a m = ((a (enter m)).1, leave (a (enter m)).2) := rfl
  rw [hrun, hrun, (hj m).1, h, (hj _).2]

theorem nested {a b : Run α} (h : Behind waiting a b) :
    Behind waiting (Run.nested a) (Run.nested b) := by
  refine get_bind (fun _ => rfl) fun m => ?_
  split
  · exact fun _ => rfl
  · exact between h fun _ => ⟨rfl, rfl⟩

theorem inCall {a b : Run α} (h : Behind waiting a b) :
    Behind waiting (Run.inCall a) (Run.inCall b) := by
  refine get_bind (fun _ => rfl) fun m => ?_
  split
  · exact fun _ => rfl
  · exact between h fun _ => ⟨rfl, rfl⟩

theorem fuzzSink (E F : Evaluator) (operation : Sink → β × Sink) :
    Behind waiting (E.fuzzHost.onSink operation) (F.fuzzHost.onSink operation) := by
  rintro ⟨heap, identities, jobs, depth, nesting, joining, tracked, outlet, fuzz, console⟩
  cases outlet <;> rfl

end Behind

def Congruence.behind (waiting : Queue Value) : Congruence where
  Rel := Behind waiting
  lags := False
  pure _ _ := rfl
  throw _ _ := rfl
  exhaust _ := False.elim
  bind := Behind.bind
  attempt := Behind.attempt
  look h hs := Behind.get_bind (fun m => hs _ m rfl rfl) h
  onHeap _ _ := rfl
  newIdentity _ := rfl
  track _ _ := rfl
  enqueue := Behind.enqueue
  report _ _ := rfl
  fuzzSink E F _ := Behind.fuzzSink E F _
  printSink _ _ _ _ := rfl
  nested := Behind.nested
  inCall := Behind.inCall
  whileJoining _ _ _ h := Behind.between h fun _ => ⟨rfl, rfl⟩

/-- An evaluator of which everything runs behind waiting jobs as it does without them. -/
def Enqueuing (E : Evaluator) : Prop := ∀ waiting, (Congruence.behind waiting).Related E E

theorem Enqueuing.ofFuel (fuel : Fuel) : Enqueuing (.ofFuel fuel) :=
  fun waiting => .ofFuel (.behind waiting) fuel

end Reprl
