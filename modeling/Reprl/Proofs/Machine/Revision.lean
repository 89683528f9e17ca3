import Reprl.Proofs.Machine.Join
import Reprl.Proofs.Machine.Levels
import Reprl.Proofs.Policy.Rooted

/-! Targets of assignments that read before they write. A property `o[k]` is found by evaluating
`o` and `k`, once to read it and once more to write it. Where neither runs code and both mean
what they meant before, the property that is found again is the same. -/

namespace Reprl

open Source

namespace Evaluator

/-- The value and the name of the property that a member target stands for. -/
def takeApart (E : Evaluator) (env : Env) (object : Expr) (key : Key) : Run (Value × String) := do
  let target ← E.eval object env
  let name ← E.memberName env key
  return (target, name)

/-- The property that a member target stands for, with what it holds. -/
def readApart (E : Evaluator) (env : Env) (object : Expr) (key : Key) :
    Run ((Value × String) × Value) := do
  let (target, name) ← E.takeApart env object key
  let old ← Run.getProperty target name
  return ((target, name), old)

end Evaluator

/-- What can be done with a property by reading it first. -/
inductive Revision where
  | compound (op : BinaryOp) (value : Expr)
  | logical (op : LogicalOp) (value : Expr)
  | update (op : UpdateOp) (before : Bool)

namespace Revision

open Evaluator

def on (r : Revision) (object : Expr) (key : Key) : Expr :=
  match r with
  | compound op value => .assign (.compound op) (.place (.member object key)) value
  | logical op value => .assign (.logical op) (.place (.member object key)) value
  | update op before => .update op before (.member object key)

/-- The result of a revision of an old value, and the value to be written if there is one. -/
def revise (E : Evaluator) (env : Env) (old : Value) : Revision → Run (Value × Option Value)
  | compound op value => do
    let operand ← E.eval value env
    let new ← E.binary op old operand
    return (new, some new)
  | logical op value => do
    if decides op old then return (old, none)
    else
      let new ← E.eval value env
      return (new, some new)
  | update op before => do
    let old ← E.numberOf old
    let new := match op with
      | .increment => old + 1.0
      | .decrement => old - 1.0
    return (.number (if before then new else old), some (.number new))

def write (place : Run (Value × String)) (result : Value) : Option Value → Run Value
  | none => return result
  | some new => do
    let (target, name) ← place
    Run.setProperty target name new
    return result

/-- A revision of a property that is found before it is read, and again before it is written. -/
def perform (r : Revision) (inner E : Evaluator) (env : Env) (object : Expr) (key : Key)
    (again : Value × String → Run (Value × String)) : Run Value := do
  let (place, old) ← Run.nested (inner.readApart env object key)
  let (result, new) ← r.revise E env old
  write (again place) result new

def twice (r : Revision) (inner E : Evaluator) (env : Env) (object : Expr) (key : Key) : Run Value :=
  r.perform inner E env object key fun _ => E.takeApart env object key

def once (r : Revision) (inner E : Evaluator) (env : Env) (object : Expr) (key : Key) : Run Value :=
  r.perform inner E env object key pure

/-- If there is something to write, the property that was read is found again, and nothing
changes. -/
def FindsAgain (r : Revision) (inner E : Evaluator) (env : Env) (object : Expr) (key : Key)
    (m : Machine) : Prop :=
  ∀ place old m₁ result new m₂,
    Run.nested (inner.readApart env object key) m = (.ok (place, old), m₁) →
    r.revise E env old m₁ = (.ok (result, some new), m₂) →
    E.takeApart env object key m₂ = (.ok place, m₂)

theorem FindsAgain.twice_eq_once {r : Revision} {inner E : Evaluator} {env : Env} {object : Expr}
    {key : Key} {m : Machine} (h : r.FindsAgain inner E env object key m) :
    r.twice inner E env object key m = r.once inner E env object key m := by
  simp only [twice, once, perform]
  rcases hread : Run.nested (inner.readApart env object key) m with ⟨e | ⟨place, old⟩, m₁⟩
  · rw [Action.bind_of_error hread, Action.bind_of_error hread]
  rw [Action.bind_of_ok hread, Action.bind_of_ok hread]
  rcases hrevise : r.revise E env old m₁ with ⟨e | ⟨result, new⟩, m₂⟩
  · rw [Action.bind_of_error hrevise, Action.bind_of_error hrevise]
  rw [Action.bind_of_ok hrevise, Action.bind_of_ok hrevise]
  cases new with
  | none => rfl
  | some new =>
    simp only [write]
    rw [Action.bind_of_ok (h place old m₁ result new m₂ hread hrevise), pure_bind]

end Revision

theorem nested_map {α β : Type} (f : α → β) (a : Run α) : Run.nested (f <$> a) = f <$> Run.nested a := by
  funext m
  rw [map_eq_pure_bind, map_eq_pure_bind, Action.bind_apply, nested_apply, nested_apply]
  split
  · rfl
  · simp only [Run.between, Action.bind_apply]
    rcases a { m with nesting := m.nesting + 1 } with ⟨_ | _, _⟩ <;> rfl

variable {laps depth : Nat} {env : Env} {object : Expr} {key : Key}

theorem Evaluator.eval_member (laps depth : Nat) (env : Env) (object : Expr) (key : Key) :
    (withDepth laps (depth + 1)).eval (.member object key) env =
      Prod.snd <$> Run.nested ((withDepth laps depth).readApart env object key) := by
  rw [← nested_map]
  change Run.nested _ = _
  congr 1
  simp only [Evaluator.evalRule, readApart, takeApart, bind_assoc, pure_bind, map_bind, map_pure, bind_pure]

theorem Revision.evalRule_on (r : Revision) (laps depth : Nat) (env : Env) (object : Expr) (key : Key) :
    (Evaluator.withDepth laps (depth + 1)).evalRule (r.on object key) env =
      r.twice (.withDepth laps depth) (.withDepth laps (depth + 1)) env object key := by
  cases r with
  | compound op value =>
    simp only [on, Evaluator.evalRule, Evaluator.evalAssign, Evaluator.assignTo, Evaluator.assignedValue,
      Evaluator.eval_member, twice, perform, revise, write, Evaluator.storeIn, Evaluator.takeApart,
      bind_assoc, pure_bind, bind_map_left]
  | logical op value =>
    simp only [on, Evaluator.evalRule, Evaluator.evalAssign, Evaluator.assignTo, Evaluator.assignedValue,
      Evaluator.eval_member, twice, perform, revise, write, Evaluator.storeIn, Evaluator.takeApart,
      bind_assoc, pure_bind, bind_map_left]
    refine bind_congr fun found => ?_
    split <;> simp only [bind_assoc, pure_bind]
  | update op before =>
    cases op <;>
      simp only [on, Evaluator.evalRule, Evaluator.evalUpdate, Evaluator.bare, Evaluator.eval_member, twice,
        perform, revise, write, Evaluator.storeIn, Evaluator.takeApart, bind_assoc, pure_bind,
        bind_map_left]

theorem Revision.runs {D : Discipline} {base : D.Base} {w : D.World} {E F : Evaluator}
    (h : D.Sound 3 base E F) (he : D.Chain w env) (hp : ∀ e : Expr, D.Permits e.parts) {old : Value}
    (ho : D.Has w old) (r : Revision) :
    D.Runs base w (r.revise E env old) (r.revise F env old) D.Any := by
  cases r with
  | compound op value =>
    exact D.bind (h.eval he (hp value)) fun _ _ hg hoperand =>
      D.bind (h.binary op (D.has_later hg ho) hoperand) fun _ _ _ _ => D.pure trivial
  | logical op value =>
    simp only [revise]
    split
    · exact D.pure trivial
    · exact D.bind (h.eval he (hp value)) fun _ _ _ _ => D.pure trivial
  | update op before => exact D.bind (h.numberOf ho) fun _ _ _ _ => D.pure trivial

theorem Revision.restores (env : Env) (old : Value) (r : Revision) :
    Restores fun E => r.revise E env old :=
  restores_of_lockstep fun _ _ h =>
    Congruence.forget (Revision.runs h.sound trivial (fun _ => Congruence.permits_all _ _) trivial r)

/-- What is read on a rooted machine is rooted. -/
theorem Machine.Rooted.getProperty {m : Machine} (h : m.Rooted) {target old : Value} {name : String}
    (hold : (Run.getProperty target name m).1 = .ok old) : old.Rooted := by
  have htarget : target.Rooted ∨ ∃ identity f, target = .function identity f := by
    cases target with
    | function identity f => exact .inr ⟨identity, f, rfl⟩
    | _ => exact .inl trivial
  rcases htarget with htarget | ⟨identity, f, rfl⟩
  · let D := Policy.rooted.discipline
    have hread : D.Runs () (fun _ => False) (Run.getProperty target name) (Run.getProperty target name)
        D.Has := D.getProperty htarget name
    obtain ⟨_, -, hanswer⟩ := (hread m h).answer
    rw [hold] at hanswer
    exact hanswer
  · cases hold
    trivial

/-- The text of a value that is shown without running code. -/
def Value.plainText? : Value → Option String
  | .undefined => some "undefined"
  | .null => some "null"
  | .bool b => some (if b then "true" else "false")
  | .number x => some (Number.text x)
  | .string s => some s
  | .function _ f => some (functionText f)
  | .symbol .. | .object _ | .array _ => none

namespace Source

/-- The value of a literal or a name, which is found without running code. -/
def Expr.meaning? (h : Heap) (env : Env) : Expr → Option Value
  | .number value => some (.number value)
  | .string value => some (.string value)
  | .bool value => some (.bool value)
  | .null => some .null
  | .identifier name => h.lookup env name
  | .paren inner => inner.meaning? h env
  | _ => none

def Key.meaning? (h : Heap) (env : Env) : Key → Option String
  | .name text => some text
  | .computed value => (value.meaning? h env).bind Value.plainText?
  | _ => none

end Source

/-- If the first action returns on its machine, it returns the first value and leaves the machine
as it was. Then the second action returns the second value on the other machine, which it leaves
as it was, too. -/
def Repeats {α : Type} (a b : Run α) (m n : Machine) (value again : α) : Prop :=
  ∀ found after, a m = (.ok found, after) → found = value ∧ after = m ∧ b n = (.ok again, n)

namespace Repeats

variable {α β : Type} {a b : Run α} {m n : Machine} {value again : α}

theorem pure (value again : α) (m n : Machine) :
    Repeats (Pure.pure value) (Pure.pure again) m n value again := by
  intro found after h
  cases h
  exact ⟨rfl, rfl, rfl⟩

theorem exhaust (b : Run α) (m n : Machine) (value again : α) :
    Repeats Action.exhaust b m n value again :=
  fun _ _ h => nomatch h

theorem bind {next next' : α → Run β} {last last' : β} (h : Repeats a b m n value again)
    (hn : Repeats (next value) (next' again) m n last last') :
    Repeats (a >>= next) (b >>= next') m n last last' := by
  intro found after hrun
  rcases ha : a m with ⟨e | x, m'⟩
  · rw [Action.bind_of_error ha] at hrun
    cases hrun
  · obtain ⟨rfl, rfl, hb⟩ := h x m' ha
    rw [Action.bind_of_ok ha] at hrun
    rw [Action.bind_of_ok hb]
    exact hn found after hrun

theorem nested (hlevel : n.nesting ≤ m.nesting)
    (h : Repeats a b { m with nesting := m.nesting + 1 } { n with nesting := n.nesting + 1 } value again) :
    Repeats (Run.nested a) (Run.nested b) m n value again := by
  intro found after hrun
  rw [nested_apply] at hrun
  split at hrun
  · cases hrun
  · next hroom =>
    rw [nested_apply, if_neg (by omega)]
    simp only [Run.between] at hrun ⊢
    rcases ha : a { m with nesting := m.nesting + 1 } with ⟨e | x, m'⟩
    · rw [ha] at hrun
      cases hrun
    · obtain ⟨rfl, rfl, hb⟩ := h x m' ha
      rw [ha] at hrun
      cases hrun
      rw [hb]
      exact ⟨rfl, rfl, rfl⟩

end Repeats

theorem Run.lookup_of_some {m : Machine} {name : String} {value : Value}
    (h : m.heap.lookup env name = some value) : Run.lookup env name m = (.ok value, m) := by
  simp only [Run.lookup, Action.bind_of_ok (get_apply m), h]
  rfl

theorem Evaluator.evalRule_of_meaning (E : Evaluator) {m : Machine} {e : Expr} {value : Value}
    (hp : ∀ inner, e ≠ .paren inner) (h : e.meaning? m.heap env = some value) :
    E.evalRule e env m = (.ok value, m) := by
  cases e with
  | identifier name => exact Run.lookup_of_some h
  | paren inner => exact absurd rfl (hp inner)
  | number | string | bool | null =>
    cases h
    rfl
  | _ => cases h

section Again

variable {m n : Machine} {later : Nat}

theorem repeats_eval {e : Expr} {value again : Value} (hm : e.meaning? m.heap env = some value)
    (hn : e.meaning? n.heap env = some again) (hlevel : n.nesting ≤ m.nesting) (hd : depth ≤ later) :
    Repeats ((Evaluator.withDepth laps depth).eval e env) ((Evaluator.withDepth laps later).eval e env)
      m n value again := by
  fun_induction Evaluator.bare e generalizing depth later m n with
  | case1 inner ih =>
    simp only [Expr.meaning?] at hm hn
    cases depth with
    | zero => exact .exhaust _ m n value again
    | succ depth =>
      obtain ⟨later, rfl⟩ : ∃ more, later = more + 1 := ⟨later - 1, by omega⟩
      refine .nested hlevel (ih hm hn ?_ (Nat.le_of_succ_le_succ hd))
      exact Nat.succ_le_succ hlevel
  | case2 e hp =>
    cases depth with
    | zero => exact .exhaust _ m n value again
    | succ depth =>
      obtain ⟨later, rfl⟩ : ∃ more, later = more + 1 := ⟨later - 1, by omega⟩
      refine .nested hlevel fun found after hrun => ?_
      have hfirst := Evaluator.evalRule_of_meaning (.withDepth laps depth)
        (m := { m with nesting := m.nesting + 1 }) hp hm
      cases hfirst.symm.trans hrun
      exact ⟨rfl, rfl, Evaluator.evalRule_of_meaning _ hp hn⟩

theorem stringOf_of_plain {value : Value} {text : String} (h : value.plainText? = some text)
    (hd : 0 < depth) : (Evaluator.withDepth laps depth).stringOf value = pure text := by
  obtain ⟨less, rfl⟩ : ∃ less, depth = less + 1 := ⟨depth - 1, by omega⟩
  cases value <;> cases h <;> rfl

theorem repeats_memberName {name again : String} (hm : key.meaning? m.heap env = some name)
    (hn : key.meaning? n.heap env = some again) (hlevel : n.nesting ≤ m.nesting) (hd : depth ≤ later) :
    Repeats ((Evaluator.withDepth laps depth).memberName env key)
      ((Evaluator.withDepth laps later).memberName env key) m n name again := by
  cases key with
  | name text =>
    cases hm
    cases hn
    exact .pure _ _ m n
  | computed value =>
    obtain ⟨shown, hvalue, htext⟩ := Option.bind_eq_some_iff.mp hm
    obtain ⟨shown', hvalue', htext'⟩ := Option.bind_eq_some_iff.mp hn
    rcases Nat.eq_zero_or_pos depth with rfl | hpos
    · exact fun _ _ hrun => nomatch hrun
    · refine (repeats_eval hvalue hvalue' hlevel hd).bind ?_
      rw [stringOf_of_plain htext hpos, stringOf_of_plain htext' (Nat.lt_of_lt_of_le hpos hd)]
      exact .pure name again m n
  | _ => cases hm

theorem repeats_takeApart {target : Value} {name : String}
    (ho : object.meaning? m.heap env = some target) (hk : key.meaning? m.heap env = some name)
    (ho' : object.meaning? n.heap env = some target) (hk' : key.meaning? n.heap env = some name)
    (hlevel : n.nesting ≤ m.nesting) (hd : depth ≤ later) :
    Repeats ((Evaluator.withDepth laps depth).takeApart env object key)
      ((Evaluator.withDepth laps later).takeApart env object key) m n (target, name) (target, name) :=
  (repeats_eval ho ho' hlevel hd).bind <| (repeats_memberName hk hk' hlevel hd).bind <| .pure _ _ m n

end Again

theorem Run.after_getProperty {target old : Value} {name : String} {m m' : Machine}
    (h : Run.getProperty target name m = (.ok old, m')) : m' = m := by
  cases target with
  | undefined | null => cases h
  | symbol identity description => cases description <;> cases h <;> rfl
  | _ =>
    cases h
    rfl

theorem Run.getProperty_nesting (target : Value) (name : String) (m : Machine) (nesting : Nat) :
    (Run.getProperty target name { m with nesting }).1 = (Run.getProperty target name m).1 := by
  cases target with
  | symbol identity description => cases description <;> rfl
  | _ => rfl

section Read

variable {m : Machine} {target : Value} {name : String}

/-- What is found without running code is found again wherever it means the same. -/
theorem read_of_meaning (ho : object.meaning? m.heap env = some target)
    (hk : key.meaning? m.heap env = some name) {place : Value × String} {old : Value} {m' : Machine}
    (h : Run.nested ((Evaluator.withDepth laps depth).readApart env object key) m =
      (.ok (place, old), m')) :
    place = (target, name) ∧ m' = m ∧ (Run.getProperty target name m).1 = .ok old ∧
      ∀ n : Machine, n.nesting ≤ m.nesting + 1 → object.meaning? n.heap env = some target →
        key.meaning? n.heap env = some name →
        (Evaluator.withDepth laps (depth + 1)).takeApart env object key n = (.ok (target, name), n) := by
  let inside : Machine := { m with nesting := m.nesting + 1 }
  rw [nested_apply] at h
  split at h
  · cases h
  simp only [Run.between, Evaluator.readApart] at h
  rcases hplace : (Evaluator.withDepth laps depth).takeApart env object key inside with ⟨e | found, mid⟩
  · rw [Action.bind_of_error hplace] at h
    cases h
  have hfind (n : Machine) (hlevel : n.nesting ≤ inside.nesting)
      (ho' : object.meaning? n.heap env = some target) (hk' : key.meaning? n.heap env = some name) :=
    repeats_takeApart (m := inside) ho hk ho' hk' hlevel (Nat.le_succ depth) found mid hplace
  obtain ⟨rfl, rfl, -⟩ := hfind inside (Nat.le_refl _) ho hk
  rw [Action.bind_of_ok hplace] at h
  dsimp only at h
  rcases hget : Run.getProperty target name inside with ⟨e | got, last⟩
  · rw [Action.bind_of_error hget] at h
    cases h
  obtain rfl := Run.after_getProperty hget
  rw [Action.bind_of_ok hget] at h
  cases h
  refine ⟨rfl, rfl, ?_, fun n hlevel ho' hk' => (hfind n hlevel ho' hk').2.2⟩
  rw [← Run.getProperty_nesting target name m (m.nesting + 1), hget]

/-- A target that is found without running code is found again after the revision, if the
revision leaves its meaning as it was. -/
theorem Revision.findsAgain_of_meaning {r : Revision} (hb : m.levels.InBounds)
    (ho : object.meaning? m.heap env = some target) (hk : key.meaning? m.heap env = some name)
    (hkept : ∀ old result new m', (Run.getProperty target name m).1 = .ok old →
      r.revise (.withDepth laps (depth + 1)) env old m = (.ok (result, some new), m') →
      object.meaning? m'.heap env = some target ∧ key.meaning? m'.heap env = some name) :
    r.FindsAgain (.withDepth laps depth) (.withDepth laps (depth + 1)) env object key m := by
  intro place old m₁ result new m₂ hread hrevise
  obtain ⟨rfl, hsame, hold, hagain⟩ := read_of_meaning ho hk hread
  rw [hsame] at hrevise
  obtain ⟨ho', hk'⟩ := hkept old result new m₂ hold hrevise
  -- The target is found at the level of the revision, which ends where it began.
  have hreturns : ∃ answer, r.revise (.ofFuel ⟨depth + 1, laps⟩) env old m = (answer, m₂) ∧
      Returned answer := ⟨_, hrevise, trivial⟩
  have hlevels := (r.restores env old).levels_eq hb hreturns
  have hnesting : m₂.nesting = m.nesting := congrArg Levels.nesting hlevels
  exact hagain m₂ (by omega) ho' hk'

end Read

/-- The nearest binding of a name is a constant, and no name can be gained in the scopes before it. -/
def Heap.Pins (h : Heap) (name : String) : Env → Prop
  | [] => False
  | scope :: outer =>
    match (h.bindings scope).get? name with
    | some binding => binding.mutable = false
    | none => scope < h.next ∧ scope ≠ globalScope ∧ h.Pins name outer

namespace Source

/-- Literals and constants. -/
def Expr.Pinned (h : Heap) (env : Env) : Expr → Prop
  | .number _ | .string _ | .bool _ | .null => True
  | .identifier name => h.Pins name env
  | .paren inner => inner.Pinned h env
  | _ => False

def Key.Pinned (h : Heap) (env : Env) : Key → Prop
  | .name _ => True
  | .computed value => value.Pinned h env
  | _ => False

end Source

namespace Heap.Framed

variable {h h' : Heap}

theorem lookup_of_pins (hf : h.Framed h') {name : String} (hp : h.Pins name env) :
    h'.lookup env name = h.lookup env name := by
  induction env with
  | nil => rfl
  | cons scope outer ih =>
    cases hb : (h.bindings scope).get? name with
    | some binding =>
      simp only [Pins, hb] at hp
      obtain ⟨value, hb', hvalue⟩ := hf.kept hb
      simp only [Heap.lookup, hb, hb', hvalue hp]
    | none =>
      simp only [Pins, hb] at hp
      obtain ⟨hold, hlocal, hp⟩ := hp
      -- Only the global scope gains names.
      have hb' : (h'.bindings scope).get? name = none :=
        Option.eq_none_iff_forall_not_mem.mpr fun binding hgained =>
          hlocal (hf.gained hold hb hgained).1
      simp only [Heap.lookup, hb, hb']
      exact ih hp

theorem meaning_of_pinned (hf : h.Framed h') {e : Expr} (hp : e.Pinned h env) :
    e.meaning? h' env = e.meaning? h env := by
  fun_induction Expr.Pinned h env e with
  | case5 name => exact hf.lookup_of_pins hp
  | case6 inner ih => exact ih hp
  | case7 => exact hp.elim
  | _ => rfl

theorem key_meaning_of_pinned (hf : h.Framed h') {key : Key} (hp : key.Pinned h env) :
    key.meaning? h' env = key.meaning? h env := by
  cases key with
  | computed value => exact congrArg (Option.bind · Value.plainText?) (hf.meaning_of_pinned hp)
  | _ => rfl

end Heap.Framed

/-- An operation that reads a property before it writes it takes the target apart to read it, and
again to write it, if it writes. This comes to the same as taking it apart once where the same
property is found again and nothing changes. So it is if object and key need no code to run and
mean the same after the operand is evaluated, as literals and constants do. -/
theorem targets_are_taken_apart_twice (r : Revision) (object : Expr) (key : Key) (env : Env)
    (laps depth : Nat) :
    let inner := Evaluator.withDepth laps depth
    let E := Evaluator.withDepth laps (depth + 1)
    E.evalRule (r.on object key) env = r.twice inner E env object key ∧
    (∀ m, r.FindsAgain inner E env object key m →
      E.evalRule (r.on object key) env m = r.once inner E env object key m) ∧
    ∀ m target name, m.levels.InBounds → object.meaning? m.heap env = some target →
      key.meaning? m.heap env = some name →
      ((∀ old result new m', (Run.getProperty target name m).1 = .ok old →
          r.revise E env old m = (.ok (result, some new), m') →
          object.meaning? m'.heap env = some target ∧ key.meaning? m'.heap env = some name) →
        r.FindsAgain inner E env object key m) ∧
      (m.Rooted → globalScope ∈ env → object.Pinned m.heap env → key.Pinned m.heap env →
        r.FindsAgain inner E env object key m) := by
  intro inner E
  have hrule := r.evalRule_on laps depth env object key
  refine ⟨hrule, fun m hagain => ?_, fun m target name hb ho hk => ⟨?_, ?_⟩⟩
  · rw [hrule]
    exact hagain.twice_eq_once
  · exact Revision.findsAgain_of_meaning hb ho hk
  · intro hroot hglobal hpo hpk
    refine Revision.findsAgain_of_meaning hb ho hk fun old result new m' hread hrevise => ?_
    have hsound := Policy.rooted.sound_withDepth laps (depth + 1)
    have hruns := Revision.runs (w := fun _ => False) hsound hglobal
      (fun e => Policy.permits_rooted e.parts) (hroot.getProperty hread) r
    have hframed := (Policy.Abides.frames hruns hroot).framed
    rw [hrevise] at hframed
    rw [hframed.meaning_of_pinned hpo, hframed.key_meaning_of_pinned hpk]
    exact ⟨ho, hk⟩

namespace Revision

/-- A machine with a constant `o`, which is an empty object, and a variable `s`, which is an empty
text. -/
def start : Machine :=
  let heap : Heap := ⟨#[.scope {}, .object {}]⟩
  { heap := (heap.declare globalScope "o" (.object 1) false).declare globalScope "s" (.string "") true }

theorem rooted_start : start.Rooted := by
  let bare : Machine := { heap := ⟨#[.scope {}, .object {}]⟩ }
  have hbare : bare.Rooted := by
    refine ⟨fun cell hmem => ?_, fun job hmem => absurd hmem List.not_mem_nil⟩
    simp only [bare, List.mem_toArray, List.mem_cons, List.not_mem_nil, or_false] at hmem
    rcases hmem with rfl | rfl
    · exact fun _ hentry => absurd hentry List.not_mem_nil
    · exact Object.All.empty .plain
  have hobject : Policy.rooted.Allows (.object 1) := trivial
  have htext : Policy.rooted.Allows (.string "") := trivial
  exact (hbare.declare globalScope (fun _ => hobject) false).declare globalScope (fun _ => htext) true

/-- What `o[s] ??= "a"` does with `o[s]`. -/
def constantWrite : Revision := .logical .nullish (.string "a")

/-- What `o.n ??= s = "a"` does with `o.n`. -/
def textWrite : Revision :=
  .logical .nullish (.assign .plain (.place (.identifier "s")) (.string "a"))

theorem nullishWrites_find_their_properties :
    let inner := Evaluator.withDepth 0 10
    let E := Evaluator.withDepth 0 11
    let object := Expr.identifier "o"
    let text := Key.computed (.identifier "s")
    start.levels.InBounds ∧ start.Rooted ∧ globalScope ∈ globalEnv ∧
      object.meaning? start.heap globalEnv = some (.object 1) ∧
      text.meaning? start.heap globalEnv = some "" ∧ object.Pinned start.heap globalEnv ∧
      (∀ old result new m', (Run.getProperty (.object 1) "" start).1 = .ok old →
        constantWrite.revise E globalEnv old start = (.ok (result, some new), m') →
        object.meaning? m'.heap globalEnv = some (.object 1) ∧
          text.meaning? m'.heap globalEnv = some "") ∧
      E.evalRule (constantWrite.on object text) globalEnv start =
        constantWrite.once inner E globalEnv object text start ∧
      E.evalRule (textWrite.on object (.name "n")) globalEnv start =
        textWrite.once inner E globalEnv object (.name "n") start := by
  intro inner E object text
  have hb : start.levels.InBounds := by decide
  have hglobal : globalScope ∈ globalEnv := by decide
  have hpinned : object.Pinned start.heap globalEnv := rfl
  have hkept : ∀ old result new m', (Run.getProperty (.object 1) "" start).1 = .ok old →
      constantWrite.revise E globalEnv old start = (.ok (result, some new), m') →
      object.meaning? m'.heap globalEnv = some (.object 1) ∧
        text.meaning? m'.heap globalEnv = some "" := by
    intro old result new m' hold hrevise
    cases hold
    cases hrevise
    exact ⟨rfl, rfl⟩
  obtain ⟨-, hconstant, hvariable⟩ := targets_are_taken_apart_twice constantWrite object text globalEnv 0 10
  obtain ⟨-, htext, hname⟩ := targets_are_taken_apart_twice textWrite object (.name "n") globalEnv 0 10
  have hfirst := (hvariable start (.object 1) "" hb rfl rfl).1 hkept
  have hsecond := (hname start (.object 1) "n" hb rfl rfl).2 rooted_start hglobal hpinned trivial
  exact ⟨hb, rooted_start, hglobal, rfl, rfl, hpinned, hkept, hconstant start hfirst,
    htext start hsecond⟩

/-- `o[s += "a"] += "b"` reads the property `a` and writes the property `aa`. -/
theorem growing_key_is_evaluated_twice :
    ∃ (r : Revision) (object : Expr) (key : Key),
      let E := Evaluator.withDepth 0 11
      let revised := E.evalRule (r.on object key) globalEnv start
      let evaluatedOnce := r.once (.withDepth 0 10) E globalEnv object key start
      (revised.2.heap.object 1).properties.keys = ["aa"] ∧
        (evaluatedOnce.2.heap.object 1).properties.keys = ["a"] ∧ revised ≠ evaluatedOnce := by
  refine ⟨.compound .add (.string "b"), .identifier "o",
    .computed (.assign (.compound .add) (.place (.identifier "s")) (.string "a")), ?_⟩
  intro E revised evaluatedOnce
  have hrevised : (revised.2.heap.object 1).properties.keys = ["aa"] := by decide +kernel
  have honce : (evaluatedOnce.2.heap.object 1).properties.keys = ["a"] := by decide +kernel
  refine ⟨hrevised, honce, fun heq => ?_⟩
  rw [heq, honce] at hrevised
  exact absurd hrevised (by decide)

end Revision

end Reprl
