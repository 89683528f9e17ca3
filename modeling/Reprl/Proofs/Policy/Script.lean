import Reprl.Proofs.Machine.Tandem
import Reprl.Proofs.Policy.Primitive

/-! Whole scripts abide by every policy, and so does the installation of a machine, as long as
the names of the intrinsics are left to code that may hold them. -/

namespace Reprl.Policy

open Source Reprl.Stream

variable {P : Policy} {own : Ref → Prop}

theorem sound_withDepth (P : Policy) (laps depth : Nat) :
    P.discipline.Sound 3 () (.withDepth laps depth) (.withDepth laps depth) :=
  Discipline.sound_withDepth (D := P.discipline) id (.refl laps) (.refl depth) 3 ()

theorem sound_ofFuel (P : Policy) (fuel : Fuel) :
    P.discipline.Sound 3 () (.ofFuel fuel) (.ofFuel fuel) := P.sound_withDepth fuel.laps fuel.depth

theorem popJob : P.discipline.Pops () P.setting.Any := by
  intro own m hm
  have hrun := Tandem.popJob_apply
  rcases hj : m.jobs.pop? with _ | ⟨job, jobs⟩
  · have hnone : ∀ fuzz, Session.popJob { m with fuzz } = (.ok none, { m with fuzz }) := by
      intro fuzz
      simp only [hrun, hj]
    exact .of_apply (hnone m.fuzz) (.refl own m) (.refl m own) (fun _ hv => nomatch hv) fun _ => hnone
  · have hsome : ∀ fuzz, Session.popJob { m with fuzz } = (.ok (some job), { m with fuzz, jobs }) := by
      intro fuzz
      simp only [hrun, hj]
    refine .change (hsome m.fuzz) hsome (.pop hj) fun value hv => ?_
    cases hv
    exact hm.jobs _ (by rw [Queue.toList_of_pop? hj]; exact List.mem_cons_self)

/-- Scripts declare names in the global scope. -/
theorem owns_global (P : Policy) : P.setting.Owns (· = globalScope) globalEnv :=
  fun _ hhead => (Option.some.inj hhead).symm

theorem execute (P : Policy) (fuel : Fuel) {source : String}
    (hs : ∀ script, Source.parse source = .ok script → P.Spells (Stmt.identifiersIn script)) :
    P.Abides (· = globalScope) (Session.execute (.ofFuel fuel) source) P.setting.Any P.setting.Any :=
  (P.sound_ofFuel fuel).execute id (fun _ _ => trivial) popJob P.envs_global P.owns_global
    fun script hscript => Stmt.permits_list P script (hs script hscript)

namespace Abides

/-- Machines are installed with intrinsics under their names, which only code with intrinsics
may refer to. -/
theorem install (hi : ∀ name ∈ Intrinsic.names, P.names name → P.intrinsics) :
    P.Runs (· = globalScope) Run.install P.setting.Any := by
  have hempty : P.AllowsCell (.scope {}) := fun _ hmem => absurd hmem List.not_mem_nil
  have intrinsics : ∀ name ∈ Intrinsic.names,
      P.discipline.Installs () (Run.installNative (.intrinsic name)) := by
    intro name hname own _ ho
    have made : P.Runs own (Run.newFunction (.native (.intrinsic name)))
        fun _ value => P.names name → P.Allows value :=
      bind newIdentity fun _ _ _ _ => pure (hi name hname)
    exact bind made fun _ _ hg hv => declare (fun scope hs => hg scope (ho scope hs)) hv true
  exact bind (alloc hempty) fun own _ hg _ => Discipline.Installs.all intrinsics own P.envs_global
    fun scope hs => hg scope (P.owns_global scope hs)

end Abides

theorem holds_blank (outlet : Outlet) (fuzz : Sink) (console : Console) :
    P.Holds { outlet, fuzz, console } :=
  ⟨fun _ hmem => absurd hmem (Array.not_mem_empty _), fun _ hmem => absurd hmem List.not_mem_nil⟩

/-- On a fresh machine code reaches only what it may hold. -/
theorem holds_new (hi : ∀ name ∈ Intrinsic.names, P.names name → P.intrinsics) (outlet : Outlet)
    (fuzz : Sink) (console : Console) : P.Holds (.new outlet fuzz console) := by
  have hblank : P.Holds { outlet, fuzz, console } := holds_blank outlet fuzz console
  exact (Abides.install hi _ hblank).reach.holds hblank

end Reprl.Policy
