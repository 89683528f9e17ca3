import Reprl.Machine.Conversion
import Reprl.Proofs.Number.Exact

/-! The two equalities of values. Without conversion two values are equal if they are the same
number, the same text, or one thing with one identity; numbers are the same as doubles, so both
zeros are and no NaN is. With conversion, numbers, strings and booleans meet as numbers. -/

namespace Reprl

/-- What a value is. The types of values are coarser. -/
inductive Kind where
  | undefined
  | null
  | bool
  | number
  | string
  | symbol
  | object
  | array
  | function
  deriving DecidableEq

namespace Value

def kind : Value → Kind
  | undefined => .undefined
  | null => .null
  | bool _ => .bool
  | number _ => .number
  | string _ => .string
  | symbol .. => .symbol
  | object _ => .object
  | array _ => .array
  | function .. => .function

/-- Values that are converted to one another's kinds by the looser equality. -/
def isConvertible : Value → Bool
  | bool _ | number _ | string _ => true
  | _ => false

/-- Numbers that are not equal to themselves. -/
def isNaN : Value → Bool
  | number x => x.isNaN
  | _ => false

variable {a : Value}

theorem isNaN_iff : a.isNaN = true ↔ ∃ x : Float, a = .number x ∧ x.isNaN = true := by
  cases a with
  | number x => exact ⟨fun h => ⟨x, rfl, h⟩, fun ⟨_, heq, h⟩ => Value.number.inj heq ▸ h⟩
  | _ => exact ⟨fun h => absurd h Bool.false_ne_true, fun ⟨_, heq, _⟩ => nomatch heq⟩

theorem isNullish_iff : a.isNullish = true ↔ a = undefined ∨ a = null := by
  cases a with
  | undefined => exact iff_of_true rfl (.inl rfl)
  | null => exact iff_of_true rfl (.inr rfl)
  | _ => exact iff_of_false Bool.false_ne_true (by rintro (h | h) <;> cases h)

end Value

section Doubles

variable {x y z : Float}

theorem beq_self_eq_not_isNaN (x : Float) : (x == x) = !x.isNaN := by
  rw [Float.isNaN_eq_decide_eq_nan]
  by_cases hx : x = Float.nan
  · rw [Float.beq_self_eq_false_iff.mpr hx, decide_eq_true hx]
    rfl
  · rw [Float.beq_self_iff.mpr hx, decide_eq_false hx]
    rfl

theorem beq_symm (h : (x == y) = true) : (y == x) = true := by
  rw [Float.beq_iff_ne_nan_and_eq] at h ⊢
  obtain ⟨hx, hy, heq⟩ := h
  refine ⟨hy, hx, ?_⟩
  rcases heq with rfl | ⟨hx, hy⟩ | ⟨hx, hy⟩
  · exact .inl rfl
  · exact .inr (.inr ⟨hy, hx⟩)
  · exact .inr (.inl ⟨hy, hx⟩)

theorem beq_comm (x y : Float) : (x == y) = (y == x) := Bool.eq_iff_iff.mpr ⟨beq_symm, beq_symm⟩

/-- What is the same for both zeros is the same for equal doubles. -/
theorem eq_of_beq_of_zeros {α : Type} (f : Float → α) (hf : f 0 = f (-0)) (h : (x == y) = true) :
    f x = f y := by
  obtain ⟨-, -, rfl | ⟨rfl, rfl⟩ | ⟨rfl, rfl⟩⟩ := Float.beq_iff_ne_nan_and_eq.mp h
  · rfl
  · exact hf
  · exact hf.symm

theorem beq_trans (h : (x == y) = true) (h' : (y == z) = true) : (x == z) = true := by
  obtain ⟨hx, -, heq⟩ := Float.beq_iff_ne_nan_and_eq.mp h
  obtain ⟨-, hz, heq'⟩ := Float.beq_iff_ne_nan_and_eq.mp h'
  have hzeros : ((0 : Float) == -0) = true := by decide +kernel
  rcases heq with rfl | ⟨rfl, rfl⟩ | ⟨rfl, rfl⟩
  · exact h'
  · rcases heq' with rfl | ⟨-, rfl⟩ | ⟨-, rfl⟩
    · exact h
    · exact h
    · exact Float.beq_self_iff.mpr hx
  · rcases heq' with rfl | ⟨-, rfl⟩ | ⟨-, rfl⟩
    · exact h
    · exact Float.beq_self_iff.mpr hx
    · exact h

end Doubles

namespace Value

/-- The pairs of values that are equal without conversion. -/
inductive Same : Value → Value → Prop where
  | undefined : Same .undefined .undefined
  | null : Same .null .null
  | bool (b : Bool) : Same (.bool b) (.bool b)
  | number {x y : Float} (h : (x == y) = true) : Same (.number x) (.number y)
  | string (s : String) : Same (.string s) (.string s)
  | symbol (identity : Nat) (d e : Option String) : Same (.symbol identity d) (.symbol identity e)
  | object (ref : Ref) : Same (.object ref) (.object ref)
  | array (ref : Ref) : Same (.array ref) (.array ref)
  | function (identity : Nat) (f g : Callable) : Same (.function identity f) (.function identity g)

variable {a b c : Value}

theorem strictEquals_iff : a.strictEquals b = true ↔ Same a b := by
  constructor
  · intro h
    unfold strictEquals at h
    split at h
    · exact .undefined
    · exact .null
    · rw [beq_iff_eq] at h
      exact h ▸ .bool _
    · exact .number h
    · rw [beq_iff_eq] at h
      exact h ▸ .string _
    · rw [beq_iff_eq] at h
      exact h ▸ .symbol _ _ _
    · rw [beq_iff_eq] at h
      exact h ▸ .object _
    · rw [beq_iff_eq] at h
      exact h ▸ .array _
    · rw [beq_iff_eq] at h
      exact h ▸ .function _ _ _
    · cases h
  · intro h
    cases h with
    | undefined | null => rfl
    | number h => exact h
    | bool | string | symbol | object | array | function => exact beq_self_eq_true _

namespace Same

theorem symm (h : Same a b) : Same b a := by
  cases h with
  | undefined => exact .undefined
  | null => exact .null
  | bool b => exact .bool b
  | number h => exact .number (beq_symm h)
  | string s => exact .string s
  | symbol identity d e => exact .symbol identity e d
  | object ref => exact .object ref
  | array ref => exact .array ref
  | function identity f g => exact .function identity g f

theorem trans (h : Same a b) (h' : Same b c) : Same a c := by
  cases h with
  | undefined | null | bool | string | object | array => exact h'
  | number h =>
    cases h' with
    | number h' => exact .number (beq_trans h h')
  | symbol identity d e =>
    cases h' with
    | symbol _ _ e' => exact .symbol identity d e'
  | function identity f g =>
    cases h' with
    | function _ _ g' => exact .function identity f g'

theorem self_iff (a : Value) : Same a a ↔ a.isNaN = false := by
  cases a with
  | undefined => exact iff_of_true .undefined rfl
  | null => exact iff_of_true .null rfl
  | bool b => exact iff_of_true (.bool b) rfl
  | string s => exact iff_of_true (.string s) rfl
  | symbol identity d => exact iff_of_true (.symbol identity d d) rfl
  | object ref => exact iff_of_true (.object ref) rfl
  | array ref => exact iff_of_true (.array ref) rfl
  | function identity f => exact iff_of_true (.function identity f f) rfl
  | number x =>
    have hself := beq_self_eq_not_isNaN x
    constructor
    · intro h
      cases h with
      | number h =>
        rw [h] at hself
        exact (Bool.not_eq_true' _).mp hself.symm
    · intro h
      have hx : x.isNaN = false := h
      rw [hx] at hself
      exact .number hself

theorem kind_eq (h : Same a b) : a.kind = b.kind := by cases h <;> rfl

/-- Equal values look the same to all observers. -/
theorem observed (h : Same a b) :
    a.typeOf = b.typeOf ∧ a.truthy = b.truthy ∧ a.isNullish = b.isNullish := by
  cases h with
  | number h =>
    exact ⟨rfl, eq_of_beq_of_zeros (fun x => (Value.number x).truthy) (by decide +kernel) h, rfl⟩
  | undefined | null | bool | string | symbol | object | array | function => exact ⟨rfl, rfl, rfl⟩

end Same

theorem strictEquals_comm (a b : Value) : a.strictEquals b = b.strictEquals a :=
  Bool.eq_iff_iff.mpr (by rw [strictEquals_iff, strictEquals_iff]; exact ⟨Same.symm, Same.symm⟩)

theorem looseEquals_of_nullish (h : (a.isNullish || b.isNullish) = true) :
    a.looseEquals b = (a.isNullish && b.isNullish) := if_pos h

/-- Values of one kind need no conversion. -/
theorem looseEquals_of_kind (h : a.kind = b.kind) : a.looseEquals b = a.strictEquals b := by
  cases a <;> cases b <;> first | rfl | cases h

theorem looseEquals_of_convertible (ha : a.isConvertible) (hb : b.isConvertible)
    (h : a.kind ≠ b.kind) : a.looseEquals b = (a.primitiveNumber == b.primitiveNumber) := by
  cases a <;> cases b <;>
    first
    | exact absurd ha Bool.false_ne_true
    | exact absurd hb Bool.false_ne_true
    | exact absurd rfl h
    | rfl

/-- Values of two kinds, both there, that are not both converted are never equal. -/
theorem looseEquals_of_kinds_apart (ha : a.isNullish = false) (hb : b.isNullish = false)
    (hconvertible : (a.isConvertible && b.isConvertible) = false) (h : a.kind ≠ b.kind) :
    a.looseEquals b = false := by
  cases a <;> cases b <;> first | exact absurd rfl h | rfl | nomatch ha, hb, hconvertible

theorem primitiveNumber_of_convertible (ha : a.isConvertible) : ∃ x, a.primitiveNumber = some x := by
  cases a <;> first | exact ⟨_, rfl⟩ | exact absurd ha Bool.false_ne_true

theorem looseEquals_comm (a b : Value) : a.looseEquals b = b.looseEquals a := by
  by_cases hkind : a.kind = b.kind
  · rw [looseEquals_of_kind hkind, looseEquals_of_kind hkind.symm, strictEquals_comm]
  by_cases hnullish : (a.isNullish || b.isNullish) = true
  · have hflipped : (b.isNullish || a.isNullish) = true := Bool.or_comm _ _ ▸ hnullish
    rw [looseEquals_of_nullish hnullish, looseEquals_of_nullish hflipped, Bool.and_comm]
  by_cases hconvertible : (a.isConvertible && b.isConvertible) = true
  · obtain ⟨ha, hb⟩ := Bool.and_eq_true_iff.mp hconvertible
    obtain ⟨x, hx⟩ := primitiveNumber_of_convertible ha
    obtain ⟨y, hy⟩ := primitiveNumber_of_convertible hb
    rw [looseEquals_of_convertible ha hb hkind, looseEquals_of_convertible hb ha (Ne.symm hkind),
      hx, hy]
    exact beq_comm x y
  · obtain ⟨ha, hb⟩ := not_or.mp (mt Bool.or_eq_true_iff.mpr hnullish)
    rw [Bool.not_eq_true] at ha hb hconvertible
    rw [looseEquals_of_kinds_apart ha hb hconvertible hkind,
      looseEquals_of_kinds_apart hb ha (Bool.and_comm _ _ ▸ hconvertible) (Ne.symm hkind)]

end Value

end Reprl
