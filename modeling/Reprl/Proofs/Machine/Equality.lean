import Reprl.Machine.Expression
import Reprl.Proofs.Situation.Symbol
import Reprl.Proofs.Value.Equality

/-! The equalities of values and what code can observe of values. -/

namespace Reprl

/-- Values that code may hold at one time. -/
def Coexist (a b : Value) : Prop := ∃ s : Situation, s.Reachable ∧ s.Has a ∧ s.Has b

variable {a b : Value}

theorem Coexist.of_plain (ha : a.isPlain = true) (hb : b.isPlain = true) : Coexist a b :=
  have hs : (Situation.initial .standard default {}).Reachable := ⟨_, _, _, .refl⟩
  ⟨_, hs, .inl ha, .inl hb⟩

/-- The operands of an operator, evaluated one after the other. -/
theorem Coexist.of_eval {s : Situation} (hs : s.Reachable) {env : Env} (he : s.chains env)
    {fuel : Fuel} {left right : Source.Expr} {m m' : Machine}
    (hl : (Evaluator.ofFuel fuel).eval left env s.machine = (.ok a, m))
    (hr : (Evaluator.ofFuel fuel).eval right env m = (.ok b, m')) : Coexist a b := by
  have hsound := Situation.sound_ofFuel fuel
  obtain ⟨s₁, hs₁, hg₁, hm₁, ha⟩ := hs.traced (hsound.eval he (Situation.permits_all left.parts))
  rw [hl] at hm₁ ha
  have hright := hsound.eval (hg₁.chain he) (Situation.permits_all right.parts)
  obtain ⟨s₂, hs₂, hg₂, -, hb⟩ := hs₁.traced hright
  rw [hm₁, hr] at hb
  exact ⟨s₂, hs₂, hg₂.has ha, hb⟩

theorem text_eq_of_beq {x y : Float} (h : (x == y) = true) : Number.text x = Number.text y :=
  eq_of_beq_of_zeros Number.text (by decide +kernel) h

/-- Equal values that are no references have a text, which needs no code to be run. -/
theorem Value.Same.shown (h : Same a b) (hr : Evaluator.isReference a = false) (hc : Coexist a b) :
    ∃ text : String, ∀ E : Evaluator, E.displayRule a = pure text ∧ E.displayRule b = pure text := by
  cases h with
  | undefined => exact ⟨_, fun _ => ⟨rfl, rfl⟩⟩
  | null => exact ⟨_, fun _ => ⟨rfl, rfl⟩⟩
  | bool value => exact ⟨_, fun _ => ⟨rfl, rfl⟩⟩
  | string text => exact ⟨_, fun _ => ⟨rfl, rfl⟩⟩
  | @number x y h =>
    have htext : Number.text y = Number.text x := (text_eq_of_beq h).symm
    exact ⟨Number.text x, fun _ => ⟨rfl, congrArg pure htext⟩⟩
  | symbol identity d e =>
    obtain ⟨s, hs, ha, hb⟩ := hc
    have hdescription : e = d := hs.description_eq hb ha
    exact ⟨symbolText d, fun _ => ⟨rfl, congrArg (fun d => pure (symbolText d)) hdescription⟩⟩
  | object ref | array ref | function identity f g => cases hr

/-- Without conversion equality is symmetric and transitive, and relates every value but NaN to
itself. What is equal so is equal with conversion, too, and looks the same. With conversion
equality is symmetric, relates the nullish values to one another only, is the same as without
within each kind, and compares numbers, strings and booleans of different kinds as numbers. -/
theorem equalities_agree_with_observers (a b c : Value) :
    a.strictEquals b = b.strictEquals a ∧
    (a.strictEquals b = true → b.strictEquals c = true → a.strictEquals c = true) ∧
    (a.strictEquals a = false ↔ ∃ x : Float, a = .number x ∧ x.isNaN = true) ∧
    (a.strictEquals b = true →
      a.looseEquals b = true ∧
      a.typeOf = b.typeOf ∧ a.truthy = b.truthy ∧ a.isNullish = b.isNullish ∧
      (Evaluator.isReference a = false → Coexist a b → ∃ text : String, ∀ E : Evaluator,
        E.displayRule a = pure text ∧ E.displayRule b = pure text)) ∧
    a.looseEquals b = b.looseEquals a ∧
    (a = .undefined ∨ a = .null → (a.looseEquals b = true ↔ b = .undefined ∨ b = .null)) ∧
    (a.kind = b.kind → a.looseEquals b = a.strictEquals b) ∧
    (a.isConvertible = true → b.isConvertible = true → a.kind ≠ b.kind → ∃ x y : Float,
      a.primitiveNumber = some x ∧ b.primitiveNumber = some y ∧ a.looseEquals b = (x == y)) := by
  refine ⟨Value.strictEquals_comm a b, fun hab hbc => ?_, ?_, fun hab => ?_,
    Value.looseEquals_comm a b, fun ha => ?_, Value.looseEquals_of_kind, fun ha hb hkind => ?_⟩
  · rw [Value.strictEquals_iff] at hab hbc ⊢
    exact hab.trans hbc
  · rw [Value.isNaN_iff.symm, ← Bool.not_eq_true, Value.strictEquals_iff, Value.Same.self_iff,
      Bool.not_eq_false]
  · have hsame := Value.strictEquals_iff.mp hab
    obtain ⟨htype, htruthy, hnullish⟩ := hsame.observed
    exact ⟨(Value.looseEquals_of_kind hsame.kind_eq).trans hab, htype, htruthy, hnullish, hsame.shown⟩
  · rw [← Value.isNullish_iff] at ha ⊢
    rw [Value.looseEquals_of_nullish (by rw [ha, Bool.true_or]), ha, Bool.true_and]
  · obtain ⟨x, hx⟩ := Value.primitiveNumber_of_convertible ha
    obtain ⟨y, hy⟩ := Value.primitiveNumber_of_convertible hb
    refine ⟨x, y, hx, hy, ?_⟩
    rw [Value.looseEquals_of_convertible ha hb hkind, hx, hy]
    rfl

/-- A symbol that code has just made is equal to itself and shown by its description. -/
theorem symbol_equals_itself :
    Coexist (.symbol 0 (some "x")) (.symbol 0 (some "x")) ∧
      ∃ text : String, ∀ E : Evaluator, E.displayRule (.symbol 0 (some "x")) = pure text := by
  let start := Situation.initial .standard default {}
  have hmade : Situation.Step start (start.identify.gain (.symbol 0 (some "x"))) := .symbol _
  have hs : (start.identify.gain (.symbol 0 (some "x"))).Reachable := ⟨_, _, _, .single hmade⟩
  have hheld := Situation.has_gain start.identify (.symbol 0 (some "x"))
  have hboth : Coexist (.symbol 0 (some "x")) (.symbol 0 (some "x")) := ⟨_, hs, hheld, hheld⟩
  obtain ⟨-, -, -, hequal, -⟩ := equalities_agree_with_observers (.symbol 0 (some "x"))
    (.symbol 0 (some "x")) .undefined
  obtain ⟨-, -, -, -, hshown⟩ := hequal rfl
  obtain ⟨text, htext⟩ := hshown rfl hboth
  exact ⟨hboth, text, fun E => (htext E).1⟩

end Reprl
