import Reprl.Proofs.Machine.Tandem
import Reprl.Proofs.Situation.Primitive

/-! Whatever evaluators do is a sequence of steps. The installation of a machine is one more, from
a machine with nothing but an empty global scope, and after it code runs in the global scope. -/

namespace Reprl.Situation

open Source Reprl.Stream

theorem sound_ofFuel (fuel : Fuel) : discipline.Sound 3 () (.ofFuel fuel) (.ofFuel fuel) :=
  Discipline.sound_ofFuel (D := discipline) id fuel ()

theorem permits_all (nodes : List Source.Node) : discipline.Permits nodes := fun _ _ => trivial

variable {s : Situation} {α : Type}

theorem popJob : discipline.Pops () discipline.Any := by
  intro s
  have hrun := Tandem.popJob_apply s.machine
  rcases hj : s.machine.jobs.pop? with _ | ⟨job, jobs⟩
  · rw [hj] at hrun
    exact .of_apply hrun .refl fun _ hv => nomatch hv
  · rw [hj] at hrun
    refine .of_apply (t := (s.onMachine { s.machine with jobs }).gain job) hrun (.single (.pop hj)) ?_
    intro value hv
    cases hv
    exact has_gain _ _

/-- The situation before the names of a machine are installed. Code runs in an empty scope. -/
def initial (outlet : Outlet) (fuzz : Sink) (console : Console) : Situation where
  machine := { heap := ({} : Heap).add (.scope {}), outlet, fuzz, console }
  held _ := False
  chains env := env = globalEnv

/-- Situations that code comes into on a machine. -/
def Reachable (s : Situation) : Prop :=
  ∃ outlet fuzz console, Steps (initial outlet fuzz console) s

namespace Reachable

variable {s' : Situation}

theorem steps (h : Reachable s) (hs : Steps s s') : Reachable s' := by
  obtain ⟨outlet, fuzz, console, hfirst⟩ := h
  exact ⟨outlet, fuzz, console, hfirst.trans hs⟩

/-- Code never leaves the global scope. -/
theorem chains_global (h : Reachable s) : s.chains globalEnv := by
  obtain ⟨outlet, fuzz, console, hfirst⟩ := h
  exact hfirst.grows.chains _ rfl

/-- On a fresh machine all names have been installed by steps. -/
theorem new (outlet : Outlet) (fuzz : Sink) (console : Console) :
    ∃ s, Reachable s ∧ s.machine = .new outlet fuzz console := by
  have installed : discipline.Installs () _ := Discipline.Installs.all fun _ _ => .native trivial
  obtain ⟨s, hsteps, hm, -⟩ := installed (initial outlet fuzz console) rfl trivial
  have hglobal : Run.alloc (.scope {}) { outlet, fuzz, console } =
      (.ok globalScope, (initial outlet fuzz console).machine) := rfl
  refine ⟨s, ⟨outlet, fuzz, console, hsteps⟩, ?_⟩
  rw [Machine.new, Run.install, Action.bind_of_ok hglobal]
  exact hm.symm

/-- What an action of code leaves behind is reachable, whether the action succeeds or not. -/
theorem traced {ε : Type} {a : Action Machine ε α} {throws : Situation → ε → Prop} (h : Reachable s)
    (ha : Traced s a returns throws) : ∃ s', Reachable s' ∧ Grows s s' ∧ s'.machine = (a s.machine).2 ∧
      Answers returns throws s' (a s.machine).1 := by
  obtain ⟨s', hs, hm, hr⟩ := ha
  exact ⟨s', h.steps hs, hs.grows, hm.symm, hr⟩

end Reachable

end Reprl.Situation
