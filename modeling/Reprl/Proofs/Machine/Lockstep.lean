import Reprl.Machine.Call
import Reprl.Proofs.Outcome
import Reprl.Proofs.Stream.Printed

/-! Two machines in lockstep. They agree in all that scripts can see, and may differ in
their outputs as far as a coupling allows. An action and its twin then give the same
result, unless the first runs out of fuel, and leave the machines coupled at the levels
of calls and nesting at which they began. -/

namespace Reprl

open Reprl.Stream

/-- How deep a machine is in calls, in unfinished parts of scripts and in arrays. -/
structure Levels where
  depth : Nat
  nesting : Nat
  joining : List Ref
  deriving DecidableEq

def Levels.InBounds (levels : Levels) : Prop :=
  levels.depth ≤ maxCallDepth ∧ levels.nesting ≤ maxNesting

instance (levels : Levels) : Decidable levels.InBounds := inferInstanceAs (Decidable (_ ∧ _))

namespace Machine

structure Inner where
  heap : Heap
  identities : Nat
  jobs : Queue Value
  tracked : Array Ref
  levels : Levels

def inner (m : Machine) : Inner :=
  ⟨m.heap, m.identities, m.jobs, m.tracked, m.depth, m.nesting, m.joining⟩

def levels (m : Machine) : Levels := m.inner.levels

theorem levels_eq_of_inner_eq {m n : Machine} (h : m.inner = n.inner) : m.levels = n.levels :=
  congrArg Inner.levels h

def withInner (m : Machine) (i : Inner) : Machine :=
  { m with
    heap := i.heap
    identities := i.identities
    jobs := i.jobs
    tracked := i.tracked
    depth := i.levels.depth
    nesting := i.levels.nesting
    joining := i.levels.joining }

def withLevels (m : Machine) (levels : Levels) : Machine := m.withInner { m.inner with levels }

@[simp] theorem levels_withLevels (m : Machine) (levels : Levels) :
    (m.withLevels levels).levels = levels := rfl

/-- An operation on one of the sinks, which an exchange takes out and puts back. -/
def operate {β : Type} (exchange : Sink → Machine → Sink × Machine) (operation : Sink → β × Sink)
    (m : Machine) : β × Machine :=
  let taken := exchange default m
  let done := operation taken.1
  (done.1, (exchange done.2 taken.2).2)

theorem operate_exchangeOutlet {β : Type} (operation : Sink → β × Sink) (m : Machine) :
    m.operate exchangeOutlet operation =
      match m.outlet with
      | .fuzzer => m.operate exchangeFuzz operation
      | .standard => m.operate exchangeStdout operation := by
  obtain ⟨_, _, _, _, _, _, _, outlet, _, _⟩ := m
  cases outlet <;> rfl

def KeepsInner (exchange : Sink → Machine → Sink × Machine) : Prop :=
  ∀ sink m, (exchange sink m).2.inner = m.inner

theorem KeepsInner.operate {exchange : Sink → Machine → Sink × Machine} (h : KeepsInner exchange)
    {β : Type} (operation : Sink → β × Sink) (m : Machine) :
    (m.operate exchange operation).2.inner = m.inner := (h _ _).trans (h _ _)

theorem keepsInner_exchangeStdout : KeepsInner exchangeStdout := fun _ _ => rfl

theorem keepsInner_exchangeOutlet : KeepsInner exchangeOutlet := by
  intro sink m
  unfold exchangeOutlet
  split <;> rfl

end Machine

/-- How two machines may differ: not in their inner parts, and in outputs only as long as
uniform operations on them have the same answers. -/
structure Coupling where
  rel : Machine → Machine → Prop
  inner_eq {m n : Machine} : rel m n → m.inner = n.inner
  inBounds {m n : Machine} : rel m n → m.levels.InBounds
  withInner {m n : Machine} : rel m n → ∀ i : Machine.Inner, i.levels.InBounds →
    rel (m.withInner i) (n.withInner i)
  outlet {m n : Machine} {β : Type} {operation : Sink → β × Sink} : rel m n → Sink.Uniform operation →
    (m.operate Machine.exchangeOutlet operation).1 = (n.operate Machine.exchangeOutlet operation).1 ∧
      rel (m.operate Machine.exchangeOutlet operation).2 (n.operate Machine.exchangeOutlet operation).2
  stdout {m n : Machine} {β : Type} {operation : Sink → β × Sink} : rel m n → Sink.Uniform operation →
    (m.operate Machine.exchangeStdout operation).1 = (n.operate Machine.exchangeStdout operation).1 ∧
      rel (m.operate Machine.exchangeStdout operation).2 (n.operate Machine.exchangeStdout operation).2
  report {m n : Machine} : rel m n → ∀ line, rel (m.report line) (n.report line)

namespace Coupling

/-- From these machines, the second action does what the first does, and the first ends at
its levels. Nothing is said about a first action without fuel. -/
def StepAt (K : Coupling) {ε α : Type} (a b : Action Machine ε α) (m n : Machine) : Prop :=
  (a m).1 = .error .exhausted ∨
    ((a m).1 = (b n).1 ∧ K.rel (a m).2 (b n).2 ∧ (a m).2.levels = m.levels)

def Lockstep (K : Coupling) {ε α : Type} (a b : Action Machine ε α) : Prop :=
  ∀ m n, K.rel m n → K.StepAt a b m n

namespace Lockstep

variable {K : Coupling} {ε δ α β : Type}

theorem pure (x : α) : K.Lockstep (Pure.pure x : Action Machine ε α) (Pure.pure x) :=
  fun _ _ h => .inr ⟨rfl, h, rfl⟩

theorem throw (e : Abrupt ε) :
    K.Lockstep (MonadExcept.throw e : Action Machine ε α) (MonadExcept.throw e) :=
  fun _ _ h => .inr ⟨rfl, h, rfl⟩

theorem exhaust (b : Action Machine ε α) : K.Lockstep Action.exhaust b := fun _ _ _ => .inl rfl

theorem bind {a b : Action Machine ε α} {next next' : α → Action Machine ε β} (h : K.Lockstep a b)
    (hn : ∀ m x, (a m).1 = .ok x → K.Lockstep (next x) (next' x)) :
    K.Lockstep (a >>= next) (b >>= next') := by
  intro m n hmn
  have hab := h m n hmn
  have hlater := hn m
  simp only [StepAt, Action.bind_apply] at hab hlater ⊢
  rcases ha : a m with ⟨result, m'⟩
  rcases hb : b n with ⟨result', n'⟩
  simp only [ha, hb] at hab hlater
  rcases hab with rfl | ⟨rfl, hrel, hlevels⟩
  · exact .inl rfl
  · cases result with
    | error e => exact .inr ⟨rfl, hrel, hlevels⟩
    | ok x =>
      rcases hlater x rfl m' n' hrel with he | ⟨hr, hrel', hlevels'⟩
      · exact .inl he
      · exact .inr ⟨hr, hrel', hlevels'.trans hlevels⟩

theorem attempt {a b : Action Machine ε α} (h : K.Lockstep a b) :
    K.Lockstep (Action.attempt a : Action Machine δ (Except ε α)) (Action.attempt b) := by
  intro m n hmn
  have hab := h m n hmn
  simp only [StepAt, Action.attempt] at hab ⊢
  rcases ha : a m with ⟨result, m'⟩
  rcases hb : b n with ⟨result', n'⟩
  simp only [ha, hb] at hab
  rcases hab with rfl | ⟨rfl, hrel, hlevels⟩
  · exact .inl rfl
  · rcases result with (e | signal | _) | x
    · exact .inr ⟨rfl, hrel, hlevels⟩
    · exact .inr ⟨rfl, hrel, hlevels⟩
    · exact .inl rfl
    · exact .inr ⟨rfl, hrel, hlevels⟩

theorem get_bind {next next' : Machine → Action Machine ε α}
    (h : ∀ m n, K.rel m n → K.StepAt (next m) (next' n) m n) :
    K.Lockstep (get >>= next) (get >>= next') := h

/-- An action that neither uses the outputs nor moves the levels. -/
theorem silent {a : Action Machine ε α} (f : Machine.Inner → Except (Abrupt ε) α × Machine.Inner)
    (hl : ∀ i, (f i).2.levels = i.levels)
    (ha : ∀ m, a m = ((f m.inner).1, m.withInner (f m.inner).2)) : K.Lockstep a a := by
  intro m n hmn
  have hbounds : (f m.inner).2.levels.InBounds := (hl m.inner).symm ▸ K.inBounds hmn
  simp only [StepAt, ha, ← K.inner_eq hmn]
  exact .inr ⟨trivial, K.withInner hmn _ hbounds, hl m.inner⟩

theorem between (up down : Levels → Levels) {a b : Run α} {m n : Machine} (h : K.Lockstep a b)
    (hmn : K.rel m n) {enter leave : Machine → Machine}
    (hu : ∀ m, enter m = m.withLevels (up m.levels)) (hd : ∀ m, leave m = m.withLevels (down m.levels))
    (hbounds : (up m.levels).InBounds) (hback : down (up m.levels) = m.levels) :
    K.StepAt (Run.between enter leave a) (Run.between enter leave b) m n := by
  have hlevels : n.levels = m.levels := Machine.levels_eq_of_inner_eq (K.inner_eq hmn).symm
  have hrel : K.rel (enter m) (enter n) := by
    rw [hu, hu, hlevels, Machine.withLevels, Machine.withLevels, ← K.inner_eq hmn]
    exact K.withInner hmn _ hbounds
  have hab := h _ _ hrel
  simp only [StepAt, Run.between] at hab ⊢
  rcases ha : a (enter m) with ⟨result, m'⟩
  rcases hb : b (enter n) with ⟨result', n'⟩
  simp only [ha, hb] at hab
  rcases hab with rfl | ⟨rfl, hrel', hkept⟩
  · exact .inl rfl
  · have hm : down m'.levels = m.levels := by rw [hkept, hu, Machine.levels_withLevels, hback]
    have hn : down n'.levels = m.levels := by
      rw [← hm, Machine.levels, Machine.levels, K.inner_eq hrel']
    refine .inr ⟨rfl, ?_, ?_⟩
    · simp only [hd, hm, hn, Machine.withLevels, ← K.inner_eq hrel']
      exact K.withInner hrel' _ (K.inBounds hmn)
    · simp only [hd, hm, Machine.levels_withLevels]

theorem onSink {host host' : Intrinsic.Host Machine ε α} {operation : Sink → β × Sink}
    (hx : host'.exchange = host.exchange) (hk : Machine.KeepsInner host.exchange)
    (h : ∀ m n, K.rel m n → (m.operate host.exchange operation).1 = (n.operate host.exchange operation).1 ∧
      K.rel (m.operate host.exchange operation).2 (n.operate host.exchange operation).2) :
    K.Lockstep (host.onSink operation) (host'.onSink operation) := by
  intro m n hmn
  obtain ⟨hr, hrel⟩ := h m n hmn
  have hform : ∀ (host : Intrinsic.Host Machine ε α) (m : Machine), host.onSink operation m =
      (.ok (m.operate host.exchange operation).1, (m.operate host.exchange operation).2) :=
    fun _ _ => rfl
  simp only [StepAt, hform, hx]
  refine .inr ⟨congrArg Except.ok hr, hrel, ?_⟩
  exact Machine.levels_eq_of_inner_eq (hk.operate operation m)

end Lockstep

end Coupling

end Reprl
