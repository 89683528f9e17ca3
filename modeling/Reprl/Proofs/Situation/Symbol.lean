import Mathlib.Logic.Function.Basic
import Reprl.Proofs.Situation.Contents
import Reprl.Proofs.Situation.Script

/-! Symbols are told apart by their identities alone. Identities are given away once only, so
on one machine all symbols of one identity have one description. -/

namespace Reprl.Situation

/-- Symbols have identities that were given away, and the descriptions that go with them. -/
def Describes (describe : Nat → Option String) (identities : Nat) : Value → Prop
  | .symbol identity description => identity < identities ∧ description = describe identity
  | _ => True

variable {describe : Nat → Option String} {identities : Nat} {value : Value} {s s' : Situation}

theorem describes_plain (h : value.isPlain = true) : Describes describe identities value := by
  cases value with
  | symbol identity description => cases h
  | _ => trivial

theorem Describes.mono (h : Describes describe identities value) {identities' : Nat}
    (hle : identities ≤ identities') : Describes describe identities' value := by
  cases value with
  | symbol identity description => exact ⟨Nat.lt_of_lt_of_le h.1 hle, h.2⟩
  | _ => trivial

/-- The identity that is given away next may have any description. -/
theorem Describes.update (h : Describes describe identities value) (description : Option String) :
    Describes (Function.update describe identities description) (identities + 1) value := by
  cases value with
  | symbol identity d =>
    refine ⟨Nat.lt_succ_of_lt h.1, ?_⟩
    rw [Function.update_of_ne (Nat.ne_of_lt h.1)]
    exact h.2
  | _ => trivial

theorem Step.identities_le (h : Step s s') : s.machine.identities ≤ s'.machine.identities := by
  cases h with
  | native | closure | symbol => exact Nat.le_succ _
  | _ => exact Nat.le_refl _

def Described (s : Situation) : Prop := ∃ describe, s.All (Describes describe s.machine.identities)

theorem Step.described (h : Step s s') (hs : s.Described) : s'.Described := by
  obtain ⟨describe, ha⟩ := hs
  by_cases hsymbol :
    ∃ description, s' = s.identify.gain (.symbol s.machine.identities description)
  · obtain ⟨description, rfl⟩ := hsymbol
    have hnew : Function.update describe s.machine.identities description s.machine.identities =
      description := Function.update_self ..
    refine ⟨Function.update describe s.machine.identities description, ?_⟩
    refine (ha.mono fun _ hv => hv.update description).identify.gain ?_
    exact ⟨Nat.lt_succ_self _, hnew.symm⟩
  · -- No other step makes a symbol.
    refine ⟨describe, h.all (fun _ => describes_plain) (fun value hmade => ?_)
      (ha.mono fun _ hv => hv.mono h.identities_le)⟩
    cases hmade with
    | symbol description heq => exact absurd ⟨description, heq⟩ hsymbol
    | native | closure | object | array => trivial

open Reprl.Stream in
theorem described_initial (outlet : Outlet) (fuzz : Sink) (console : Console) :
    (initial outlet fuzz console).Described := by
  refine ⟨fun _ => none, fun _ hv => hv.elim, ?_, fun _ hmem => absurd hmem List.not_mem_nil⟩
  refine Heap.All.add (fun _ hmem => absurd hmem (Array.not_mem_empty _)) ?_
  exact fun _ hmem => absurd hmem List.not_mem_nil

theorem Reachable.described (h : Reachable s) : s.Described := by
  obtain ⟨outlet, fuzz, console, hs⟩ := h
  exact hs.keeps (fun _ _ => Step.described) (described_initial outlet fuzz console)

theorem Reachable.description_eq (h : Reachable s) {identity : Nat} {d e : Option String}
    (hd : s.Has (.symbol identity d)) (he : s.Has (.symbol identity e)) : d = e := by
  obtain ⟨describe, ha⟩ := h.described
  have hboth : ∀ {d}, s.Has (.symbol identity d) → d = describe identity := fun hv =>
    (ha.has (fun _ => describes_plain) hv).2
  rw [hboth hd, hboth he]

end Reprl.Situation
