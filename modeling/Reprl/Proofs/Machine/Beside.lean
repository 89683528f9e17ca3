import Reprl.Proofs.Intrinsic.Print

/-! Machines that have sent the fuzzer the same, and may have printed different things for people.
As long as no output fails, scripts do the same on them, and a value is converted the same way
inside a line and outside of it. -/

namespace Reprl

open Coupling Reprl.Stream

theorem Stream.Sink.Uniform.steady {β : Type} {operation : Sink → β × Sink} (h : Sink.Uniform operation)
    {sink other : Sink} (hs : sink.Steady) (hs' : other.Steady) :
    (operation sink).1 = (operation other).1 ∧ (operation sink).2.Steady ∧ (operation other).2.Steady := by
  obtain ⟨answer, written, hall⟩ := h
  obtain ⟨after, he, ha, -⟩ := hall sink hs
  obtain ⟨after', he', ha', -⟩ := hall other hs'
  simp only [he, he']
  exact ⟨trivial, ha, ha'⟩

/-- Machines that have sent the fuzzer the same and may have printed other things for people. -/
structure Machine.Beside (m n : Machine) : Prop where
  inner : m.inner = n.inner
  inBounds : m.levels.InBounds
  outlet : m.outlet = .fuzzer ∧ n.outlet = .fuzzer
  fuzz : m.fuzz.Follows [] n.fuzz
  stdout : m.console.stdout.Steady
  stdout' : n.console.stdout.Steady

def Coupling.beside : Coupling where
  rel := Machine.Beside
  inner_eq h := h.inner
  inBounds h := h.inBounds
  withInner h i hi := ⟨rfl, hi, h.outlet, h.fuzz, h.stdout, h.stdout'⟩
  outlet {m n _ operation} h hu := by
    obtain ⟨hf, hfuzz⟩ := hu.follows h.fuzz
    simp only [Machine.operate_exchangeOutlet, h.outlet.1, h.outlet.2]
    exact ⟨hf, h.inner, h.inBounds, h.outlet, hfuzz, h.stdout, h.stdout'⟩
  stdout h hu := by
    obtain ⟨he, hs, hs'⟩ := hu.steady h.stdout h.stdout'
    exact ⟨he, h.inner, h.inBounds, h.outlet, h.fuzz, hs, hs'⟩
  report h _ := ⟨h.inner, h.inBounds, h.outlet, h.fuzz, h.stdout, h.stdout'⟩

/-- As long as no output of the first machine fails, so do evaluations of arguments leave it. -/
theorem Machine.Beside.evalArgs {laps depth : Nat} {env : Env} {args : List Source.Element} {m m' : Machine}
    {values : List Value} (h : m.Beside m)
    (hargs : (Evaluator.withDepth laps depth).evalArgs env args m = (.ok values, m')) : m'.Beside m' := by
  have htandem : Tandem .beside (.withDepth laps depth) (.withDepth laps depth) :=
    .withDepth (Nat.le_refl _) (Nat.le_refl _)
  have hstep := htandem.evalArgs env args m m h
  simp only [StepAt, hargs] at hstep
  rcases hstep with he | ⟨-, hrel, -⟩
  · cases he
  · exact hrel

namespace Evaluator

end Evaluator

end Reprl
