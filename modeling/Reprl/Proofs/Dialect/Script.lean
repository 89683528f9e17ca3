import Reprl.Proofs.Dialect.Primitive
import Reprl.Proofs.Machine.Tandem

/-! Whole scripts of a dialect. An evaluator that runs code of the dialect only, and leaves all
other code to any evaluator at all, agrees with the one that vets nothing. -/

namespace Reprl

open Source Reprl.Stream

namespace Evaluator

/-- The rules for code with permitted parts. All other code is left to another evaluator. -/
def vetted (permits : Node → Bool) (other : Evaluator) (laps : Nat) : Nat → Evaluator
  | 0 => exhausted
  | depth + 1 =>
    { eval := fun e env =>
        if e.parts.all permits then Run.nested ((vetted permits other laps depth).evalRule e env)
        else other.eval e env
      exec := fun stmt env =>
        if stmt.parts.all permits then Run.nested ((vetted permits other laps depth).execRule stmt env)
        else other.exec stmt env
      call := fun callee args => (vetted permits other laps depth).callRule callee args
      display := fun value => (vetted permits other laps depth).displayRule value
      laps }

end Evaluator

namespace Dialect

variable {D : Dialect} {levels : Levels}

/-- If code ends, each level that is left pays for three steps. -/
theorem sound_withDepth (D : Dialect) (other : Evaluator) (laps depth : Nat) :
    ∀ (tier : Nat) (levels : Levels), 1 ≤ tier → (D.ends → 3 * levels.room + tier ≤ depth) →
      D.discipline.Sound tier levels (.withDepth laps depth) (.vetted D.permits other laps depth) := by
  induction depth with
  | zero =>
    intro tier levels ht hd
    have he : ¬D.ends := fun he => by
      have hfew := hd he
      omega
    exact ⟨fun _ _ => .throw he, fun _ _ _ => .throw he, fun _ _ _ => .throw he, fun _ _ => .throw he,
      .refl 0⟩
  | succ depth ih =>
    intro tier levels ht hd
    have inside : ∀ inner : Levels, inner.room < levels.room →
        D.discipline.Sound 3 inner (.withDepth laps depth) (.vetted D.permits other laps depth) := by
      refine fun inner hroom => ih 3 inner (by omega) fun he => ?_
      have hfew := hd he
      omega
    constructor
    case eval =>
      intro w env e hc hp
      have hvetted : (Evaluator.vetted D.permits other laps (depth + 1)).eval e env =
          Run.nested ((Evaluator.vetted D.permits other laps depth).evalRule e env) :=
        if_pos (List.all_eq_true.mpr hp)
      rw [hvetted]
      exact .nested fun hroom => (inside _ (Levels.room_nest hroom)).evalRule (w := w) hc hp
    case exec =>
      intro w env stmt ho hc hp
      have hvetted : (Evaluator.vetted D.permits other laps (depth + 1)).exec stmt env =
          Run.nested ((Evaluator.vetted D.permits other laps depth).execRule stmt env) :=
        if_pos (List.all_eq_true.mpr hp)
      rw [hvetted]
      exact .nested fun hroom => (inside _ (Levels.room_nest hroom)).execRule (w := w) ho hc hp
    case call =>
      intro w callee args hc hf ha
      refine Discipline.Sound.callRule inside (fun hno => ?_) hf ha
      have hbelow : D.discipline.Sound 2 levels (.withDepth laps depth)
          (.vetted D.permits other laps depth) := by
        refine ih 2 levels (by omega) fun he => ?_
        have htier : 3 ≤ tier := (hc he).resolve_left (by rw [hno]; exact Bool.noConfusion)
        have hfew := hd he
        omega
      exact hbelow.display (fun _ => .inr (Nat.le_refl 2)) hf
    case display =>
      intro w value hv hf
      refine Discipline.Sound.displayRule inside (fun hno => ih 1 levels (Nat.le_refl 1) fun he => ?_) hf
      have htier : 2 ≤ tier := (hv he).resolve_left (by rw [hno]; exact Bool.noConfusion)
      have hfew := hd he
      omega
    case laps => exact .refl laps

theorem popJob {throws : Unit → ScriptError → Prop} : D.discipline.Pops levels throws := by
  intro _ m hm hl
  have hrun := Tandem.popJob_apply m
  rcases hj : m.jobs.pop? with _ | ⟨job, jobs⟩
  · simp only [hj] at hrun
    exact .of_apply hrun hrun (fun _ hv => nomatch hv) hm rfl
  · simp only [hj] at hrun
    obtain ⟨hjob, hrest⟩ := hm.pop hj
    refine .of_apply hrun hrun (fun value hv => ?_) hrest rfl
    cases hv
    exact hjob

theorem install : D.Runs levels Run.install Run.install fun _ => True := by
  have hinstalls : D.discipline.Installs levels _ := Discipline.Installs.all fun _ _ => .native trivial
  exact Agrees.bind (Agrees.alloc allowsCell_scope) fun _ _ => hinstalls () trivial trivial

/-- A fresh machine has functions of every dialect only, and no level is raised on it. -/
theorem holds_new (D : Dialect) (outlet : Outlet) (fuzz : Sink) (console : Console) :
    D.Holds (.new outlet fuzz console) ∧ (Machine.new outlet fuzz console).levels = ⟨0, 0, []⟩ := by
  have hblank : D.Holds { outlet, fuzz, console } :=
    ⟨fun _ hmem => absurd hmem (Array.not_mem_empty _), fun _ hmem => absurd hmem List.not_mem_nil⟩
  obtain ⟨-, -, hholds, hlevels⟩ := install _ hblank rfl
  exact ⟨hholds, hlevels⟩

end Dialect

end Reprl
