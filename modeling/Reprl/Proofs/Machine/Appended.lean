import Reprl.Proofs.Machine.Tandem

/-! A machine whose outputs hold something already. As long as the sinks never fail, it
does what a machine with empty outputs does, and appends what that one writes. -/

namespace Reprl

open Coupling Reprl.Stream

namespace Stream

open Reprl.Text (Bytes)

/-- Steady sinks of which the second holds some bytes before those of the first. -/
structure Sink.Follows (before : Bytes) (sink other : Sink) : Prop where
  steady : sink.Steady
  steady' : other.Steady
  contents : other.contents = before ++ sink.contents

theorem Sink.Uniform.follows {β : Type} {operation : Sink → β × Sink} (h : Sink.Uniform operation)
    {before : Bytes} {sink other : Sink} (hf : sink.Follows before other) :
    (operation sink).1 = (operation other).1 ∧
      (operation sink).2.Follows before (operation other).2 := by
  obtain ⟨answer, written, hall⟩ := h
  obtain ⟨after, he, hs, hc⟩ := hall sink hf.steady
  obtain ⟨after', he', hs', hc'⟩ := hall other hf.steady'
  simp only [he, he']
  exact ⟨trivial, hs, hs', by rw [hc', hc, hf.contents, List.append_assoc]⟩

end Stream

open Reprl.Text (Bytes)

/-- A machine, and the same one after some bytes on each of its outputs. -/
structure Machine.Appended (fuzz stdout : Bytes) (m n : Machine) : Prop where
  inner : m.inner = n.inner
  inBounds : m.levels.InBounds
  outlet : m.outlet = n.outlet
  fuzz : m.fuzz.Follows fuzz n.fuzz
  stdout : m.console.stdout.Follows stdout n.console.stdout

def Coupling.appended (fuzz stdout : Bytes) : Coupling where
  rel := Machine.Appended fuzz stdout
  inner_eq h := h.inner
  inBounds h := h.inBounds
  withInner h i hi := ⟨rfl, hi, h.outlet, h.fuzz, h.stdout⟩
  outlet {m n _ operation} h hu := by
    obtain ⟨hf, hfuzz⟩ := hu.follows h.fuzz
    obtain ⟨hs, hstdout⟩ := hu.follows h.stdout
    simp only [Machine.operate_exchangeOutlet, ← h.outlet]
    cases m.outlet with
    | fuzzer => exact ⟨hf, h.inner, h.inBounds, h.outlet, hfuzz, h.stdout⟩
    | standard => exact ⟨hs, h.inner, h.inBounds, h.outlet, h.fuzz, hstdout⟩
  stdout h hu := by
    obtain ⟨hs, hstdout⟩ := hu.follows h.stdout
    exact ⟨hs, h.inner, h.inBounds, h.outlet, h.fuzz, hstdout⟩
  report h _ := ⟨h.inner, h.inBounds, h.outlet, h.fuzz, h.stdout⟩

/-- More fuel changes nothing for what ends with less. -/
theorem Tandem.withDepth {K : Coupling} {laps laps' depth depth' : Nat} (hl : laps ≤ laps')
    (hd : depth ≤ depth') :
    Tandem K (Evaluator.withDepth laps depth) (Evaluator.withDepth laps' depth') :=
  Congruence.Related.withDepth (.inr ⟨trivial, hl⟩) (.inr ⟨trivial, hd⟩)

/-- Fresh machines differ in their outputs only. -/
theorem Machine.appended_new {outlet : Outlet} {fuzz : Sink} {console : Console} (hf : fuzz.Steady)
    (hs : console.stdout.Steady) :
    Machine.Appended fuzz.contents console.stdout.contents (.new outlet default {})
      (.new outlet fuzz console) := by
  have hstart : Machine.Appended fuzz.contents console.stdout.contents { outlet }
      { outlet, fuzz, console } :=
    ⟨rfl, ⟨Nat.zero_le _, Nat.zero_le _⟩, rfl, ⟨Sink.reliable_steady, hf, (List.append_nil _).symm⟩,
      ⟨Sink.reliable_steady, hs, (List.append_nil _).symm⟩⟩
  let K := Coupling.appended fuzz.contents console.stdout.contents
  rcases K.congruence.install _ _ hstart with he | ⟨-, hrel, -⟩
  · have hok : (Run.install { outlet }).1 = .ok () := by
      cases outlet <;> exact Action.ok_of_toOption (by decide +kernel)
    rw [hok] at he
    cases he
  · exact hrel

end Reprl
