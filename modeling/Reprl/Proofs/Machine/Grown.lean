import Reprl.Proofs.Intrinsic.Host
import Reprl.Proofs.Machine.Appended

/-! Machines whose outputs only grow. Whatever is evaluated, sinks that never fail go on so, and
keep what they had. So every conversion of a value that ends is one that writes to the sink of the
intrinsics, as their host may do. -/

namespace Reprl

open Coupling Reprl.Stream
open Reprl.Text (Bytes)

/-- A sink that never fails and began with some bytes. -/
structure Stream.Sink.Grown (before : Bytes) (sink : Sink) : Prop where
  steady : sink.Steady
  began : before <+: sink.contents

theorem Stream.Sink.Uniform.grown {β : Type} {operation : Sink → β × Sink}
    (h : Sink.Uniform operation) {before : Bytes} {sink : Sink} (hg : sink.Grown before) :
    (operation sink).2.Grown before := by
  obtain ⟨answer, written, hall⟩ := h
  obtain ⟨after, he, hs, hc⟩ := hall sink hg.steady
  rw [he]
  exact ⟨hs, hc ▸ hg.began.trans (List.prefix_append _ _)⟩

/-- A machine in bounds with an outlet, whose outputs began with some bytes. -/
structure Machine.Grown (outlet : Outlet) (fuzz stdout : Bytes) (m : Machine) : Prop where
  inBounds : m.levels.InBounds
  outlet : m.outlet = outlet
  fuzz : m.fuzz.Grown fuzz
  stdout : m.console.stdout.Grown stdout

/-- A machine beside itself, as long as it has grown. -/
def Coupling.grown (outlet : Outlet) (fuzz stdout : Bytes) : Coupling where
  rel m n := m = n ∧ m.Grown outlet fuzz stdout
  inner_eq h := congrArg Machine.inner h.1
  inBounds h := h.2.inBounds
  withInner h i hi := ⟨congrArg (Machine.withInner · i) h.1, hi, h.2.outlet, h.2.fuzz, h.2.stdout⟩
  outlet {m n _ operation} h hu := by
    obtain ⟨rfl, hb, ho, hf, hs⟩ := h
    refine ⟨rfl, rfl, ?_⟩
    rw [Machine.operate_exchangeOutlet]
    cases hm : m.outlet with
    | fuzzer => exact ⟨hb, ho, hu.grown hf, hs⟩
    | standard => exact ⟨hb, ho, hf, hu.grown hs⟩
  stdout h hu := by
    obtain ⟨rfl, hb, ho, hf, hs⟩ := h
    exact ⟨rfl, rfl, hb, ho, hf, hu.grown hs⟩
  report h line := by
    obtain ⟨rfl, hb, ho, hf, hs⟩ := h
    exact ⟨rfl, hb, ho, hf, hs⟩

namespace Evaluator

open Intrinsic.Host (Converts)

theorem sink_fuzzHost (E : Evaluator) (m : Machine) :
    E.fuzzHost.sink m =
      match m.outlet with
      | .fuzzer => m.fuzz
      | .standard => m.console.stdout := by
  obtain ⟨_, _, _, _, _, _, _, outlet, _, _⟩ := m
  cases outlet <;> rfl

theorem lawful_fuzzHost (E : Evaluator) : E.fuzzHost.Lawful where
  exchange_eq sink m := by
    obtain ⟨_, _, _, _, _, _, _, outlet, _, _⟩ := m
    cases outlet <;> rfl
  withSink_withSink first second m := by
    obtain ⟨_, _, _, _, _, _, _, outlet, _, _⟩ := m
    cases outlet <;> rfl
  withSink_sink m := by
    obtain ⟨_, _, _, _, _, _, _, outlet, _, _⟩ := m
    cases outlet <;> rfl

/-- Conversions of an evaluator write to the sink of its intrinsics, if they end at all. -/
theorem converts_display {fuel : Fuel} {m m' : Machine} {value : Value}
    (answer : Except Value String) (hb : m.levels.InBounds) (hf : m.fuzz.Steady) (hs : m.console.stdout.Steady)
    (h : (Evaluator.ofFuel fuel).display value m = (answer.mapError .thrown, m')) :
    (∃ written, Converts (Evaluator.ofFuel fuel).fuzzHost m value answer written m') ∧
      m'.levels = m.levels ∧ m'.fuzz.Steady ∧ m'.console.stdout.Steady := by
  let K := Coupling.grown m.outlet m.fuzz.contents m.console.stdout.contents
  have htandem : Tandem K (.ofFuel fuel) (.ofFuel fuel) := .withDepth (Nat.le_refl _) (Nat.le_refl _)
  have hm : K.rel m m :=
    ⟨rfl, hb, rfl, ⟨hf, List.prefix_rfl⟩, ⟨hs, List.prefix_rfl⟩⟩
  rcases htandem.display value m m hm with he | ⟨-, hrel, hlevels⟩
  · rw [h] at he
    cases answer <;> cases he
  · rw [h] at hrel hlevels
    obtain ⟨-, -, ho, hfuzz, hstdout⟩ := hrel
    refine ⟨?_, hlevels, hfuzz.steady, hstdout.steady⟩
    cases hm : m.outlet with
    | fuzzer =>
      obtain ⟨written, hw⟩ := hfuzz.began
      refine ⟨written, h, ?_, ?_⟩
      · rw [sink_fuzzHost, ho, hm]
        exact hfuzz.steady
      · rw [sink_fuzzHost, sink_fuzzHost, ho, hm]
        exact hw.symm
    | standard =>
      obtain ⟨written, hw⟩ := hstdout.began
      refine ⟨written, h, ?_, ?_⟩
      · rw [sink_fuzzHost, ho, hm]
        exact hstdout.steady
      · rw [sink_fuzzHost, sink_fuzzHost, ho, hm]
        exact hw.symm

end Evaluator

end Reprl
