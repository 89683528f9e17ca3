import Reprl.Proofs.Discipline.Call
import Reprl.Proofs.Policy.Reach

/-! Actions that abide by a policy, and the ways to combine them. On a machine from which code
reaches nothing that it must not hold, such an action makes permitted changes only, and what it
returns or throws code may hold again. -/

namespace Reprl

namespace Policy

/-- What comes out of an action. Only code with intrinsics crashes. -/
def Answers (P : Policy) {ε α : Type} (returns : α → Prop) (throws : ε → Prop) :
    Except (Abrupt ε) α → Prop
  | .ok x => returns x
  | .error (.thrown e) => throws e
  | .error (.crashed _) => P.intrinsics
  | .error .exhausted => True

theorem Answers.error {P : Policy} {ε α β : Type} {returns : α → Prop} {throws : ε → Prop}
    {e : Abrupt ε} (h : P.Answers returns throws (.error e)) (gives : β → Prop) :
    P.Answers gives throws (.error e) := by
  cases e with
  | thrown e => exact h
  | crashed signal => exact h
  | exhausted => trivial

/-- An action declares names in scopes that code owns and in scopes that it opens. Those that it
hands out code owns afterwards. -/
structure AbidesAt (P : Policy) {ε α : Type} (own : Ref → Prop) (a : Action Machine ε α)
    (returns : (Ref → Prop) → α → Prop) (throws : (Ref → Prop) → ε → Prop) (m : Machine) : Prop where
  reach : P.Reach own m (a m).2
  answer : ∃ own', Opens m own own' ∧ P.Answers (returns own') (throws own') (a m).1
  /-- Code without intrinsics neither uses nor notices the sink behind them. -/
  blind : ¬P.intrinsics → ∀ fuzz, a { m with fuzz } = ((a m).1, { (a m).2 with fuzz })

namespace AbidesAt

variable {P : Policy} {ε α : Type} {own own' : Ref → Prop} {returns : (Ref → Prop) → α → Prop}
  {throws : (Ref → Prop) → ε → Prop} {a b : Action Machine ε α} {m : Machine}

theorem of_apply {m' : Machine} {r : Except (Abrupt ε) α} (ha : a m = (r, m'))
    (hreach : P.Reach own m m') (ho : Opens m own own')
    (hanswer : P.Answers (returns own') (throws own') r)
    (hblind : ¬P.intrinsics → ∀ fuzz, a { m with fuzz } = (r, { m' with fuzz })) :
    P.AbidesAt own a returns throws m := by
  refine ⟨?_, ⟨own', ho, ?_⟩, fun hi fuzz => ?_⟩
  · rw [ha]
    exact hreach
  · rw [ha]
    exact hanswer
  · rw [ha]
    exact hblind hi fuzz

/-- An action that makes one change. -/
theorem change {m' : Machine} {x : α} (ha : a m = (.ok x, m'))
    (hb : ∀ fuzz, a { m with fuzz } = (.ok x, { m' with fuzz }))
    (hc : P.Change (fun scope => own scope ∨ m.heap.next ≤ scope) m m')
    (hx : returns own x) : P.AbidesAt own a returns throws m :=
  .of_apply ha (.of_change hc) (.refl m own) hx fun _ => hb

theorem congr (h : P.AbidesAt own b returns throws m)
    (he : ∀ fuzz, a { m with fuzz } = b { m with fuzz }) : P.AbidesAt own a returns throws m := by
  obtain ⟨hreach, ⟨own', ho, hanswer⟩, hblind⟩ := h
  exact .of_apply (he m.fuzz) hreach ho hanswer fun hi fuzz => (he fuzz).trans (hblind hi fuzz)

end AbidesAt

def Abides (P : Policy) {ε α : Type} (own : Ref → Prop) (a : Action Machine ε α)
    (returns : (Ref → Prop) → α → Prop) (throws : (Ref → Prop) → ε → Prop) : Prop :=
  ∀ m, P.Holds m → P.AbidesAt own a returns throws m

/-- The worlds of code are the scopes that it owns, in which it may declare names. -/
abbrev setting (P : Policy) : Setting where
  World := Ref → Prop
  Later own own' := ∀ scope, own scope → own' scope
  Base := Unit
  Deeper _ _ := True
  permits node := P.Spells node.identifiers
  names := P.names
  natives f := P.AllowsCallable (.native f)
  ends := False
  lags := False
  Has _ := P.Allows
  Chain _ := P.envs
  Owns own env := ∀ scope, env.head? = some scope → own scope
  Sees _ _ := P.Holds
  Rel _ own _ a returns throws := P.Abides own a returns throws

/-- Actions of scripts throw values, which code may catch. -/
abbrev Runs (P : Policy) {α : Type} (own : Ref → Prop) (a : Run α)
    (returns : (Ref → Prop) → α → Prop) : Prop :=
  P.Abides own a returns P.setting.Has

namespace Abides

variable {P : Policy} {ε δ α β : Type} {own : Ref → Prop} {returns : (Ref → Prop) → α → Prop}
  {gives : (Ref → Prop) → β → Prop} {throws : (Ref → Prop) → ε → Prop}
  {raises : (Ref → Prop) → δ → Prop} {a : Action Machine ε α}

theorem pure {x : α} (hx : returns own x) :
    P.Abides own (Pure.pure x : Action Machine ε α) returns throws :=
  fun m _ => ⟨.refl own m, ⟨own, .refl m own, hx⟩, fun _ _ => rfl⟩

theorem throw {e : Abrupt ε} (he : P.Answers (returns own) (throws own) (.error e)) :
    P.Abides own (MonadExcept.throw e : Action Machine ε α) returns throws :=
  fun m _ => ⟨.refl own m, ⟨own, .refl m own, he⟩, fun _ _ => rfl⟩

theorem raise {e : ε} (he : throws own e) :
    P.Abides own (Action.raise e : Action Machine ε α) returns throws := throw he

theorem bind {next : α → Action Machine ε β} (h : P.Abides own a returns throws)
    (hn : ∀ own' x, P.setting.Later own own' → returns own' x → P.Abides own' (next x) gives throws) :
    P.Abides own (a >>= next) gives throws := by
  intro m hm
  obtain ⟨hreach, ⟨own', ho, hanswer⟩, hblind⟩ := h m hm
  rcases ha : a m with ⟨e | x, m'⟩
  all_goals simp only [ha] at hreach hanswer hblind
  · exact .of_apply (Action.bind_of_error ha next) hreach ho (hanswer.error (gives own'))
      fun hi fuzz => Action.bind_of_error (hblind hi fuzz) next
  · obtain ⟨hreach', ⟨own'', ho', hanswer'⟩, hblind'⟩ :=
      hn own' x ho.kept hanswer m' (hreach.holds hm)
    exact .of_apply (Action.bind_of_ok ha next) (hreach.trans hreach' ho.young)
      (ho.trans ho' hreach.next_le) hanswer'
      fun hi fuzz => (Action.bind_of_ok (hblind hi fuzz) next).trans (hblind' hi fuzz)

theorem attempt (h : P.Abides own a returns throws) :
    P.Abides own (Action.attempt a : Action Machine δ (Except ε α)) (P.setting.Settled returns throws)
      raises := by
  intro m hm
  obtain ⟨hreach, ⟨own', ho, hanswer⟩, hblind⟩ := h m hm
  rcases ha : a m with ⟨(e | signal | _) | x, m'⟩
  all_goals
    simp only [ha] at hreach hanswer hblind
    refine .of_apply (Action.attempt_of_apply ha) hreach ho ?_
      fun hi fuzz => Action.attempt_of_apply (hblind hi fuzz)
  · exact hanswer
  · exact hanswer
  · trivial
  · exact hanswer

/-- An action that looks at the machine may not look at the sink of the intrinsics. -/
theorem get_bind {next : Machine → Action Machine ε α}
    (hb : ∀ m fuzz, next { m with fuzz } = next m)
    (h : ∀ m, P.Holds m → P.AbidesAt own (next m) returns throws m) :
    P.Abides own (get >>= next) returns throws := by
  intro m hm
  obtain ⟨hreach, ⟨own', ho, hanswer⟩, hblind⟩ := h m hm
  have hrun : ∀ m, (get >>= next : Action Machine ε α) m = next m m := fun _ => rfl
  refine .of_apply (hrun m) hreach ho hanswer fun hi fuzz => ?_
  rw [hrun, hb]
  exact hblind hi fuzz

/-- An action that makes the same change on every machine. -/
theorem change (answer : Machine → α) (after : Machine → Machine)
    (ha : ∀ m, a m = (.ok (answer m), after m))
    (hb : ∀ m fuzz, answer { m with fuzz } = answer m ∧ after { m with fuzz } = { after m with fuzz })
    (hc : ∀ m, P.Change (fun scope => own scope ∨ m.heap.next ≤ scope) m (after m)) :
    P.Abides own a P.setting.Any throws := by
  intro m hm
  refine .change (ha m) (fun fuzz => ?_) (hc m) trivial
  rw [ha, (hb m fuzz).1, (hb m fuzz).2]

theorem onMachine {after : Machine → Machine}
    (hb : ∀ m fuzz, after { m with fuzz } = { after m with fuzz })
    (hc : ∀ m, P.Change (fun scope => own scope ∨ m.heap.next ≤ scope) m (after m)) :
    P.Abides own (modify after : Action Machine ε Unit) P.setting.Any throws :=
  change (fun _ => ()) after (fun _ => rfl) (fun m fuzz => ⟨rfl, hb m fuzz⟩) hc

/-- The levels may be moved before an action and after it. -/
theorem between {enter leave : Machine → Machine} {a : Run α} (h : P.Runs own a returns)
    (he : ∀ m, ∃ depth nesting joining, enter m = { m with depth, nesting, joining })
    (hl : ∀ m, ∃ depth nesting joining, leave m = { m with depth, nesting, joining })
    (hb : ∀ m fuzz, enter { m with fuzz } = { enter m with fuzz } ∧
      leave { m with fuzz } = { leave m with fuzz }) :
    P.Runs own (Run.between enter leave a) returns := by
  intro m hm
  obtain ⟨depth, nesting, joining, hm'⟩ := he m
  have hin : P.Reach own m (enter m) := hm' ▸ .of_change (.levels depth nesting joining)
  obtain ⟨hreach, ⟨own', ho, hanswer⟩, hblind⟩ := h (enter m) (hin.holds hm)
  obtain ⟨depth', nesting', joining', hm''⟩ := hl (a (enter m)).2
  have hout : P.Reach own (a (enter m)).2 (leave (a (enter m)).2) :=
    hm'' ▸ .of_change (.levels depth' nesting' joining')
  have hback : P.Reach own (enter m) (leave (a (enter m)).2) := hreach.trans hout fun _ => .inl
  have hrun : ∀ m, Run.between enter leave a m = ((a (enter m)).1, leave (a (enter m)).2) :=
    fun _ => rfl
  have hopens : Opens m own own' := (Opens.refl m own).trans ho hin.next_le
  refine .of_apply (hrun m) (hin.trans hback fun _ => .inl) hopens hanswer fun hi fuzz => ?_
  rw [hrun, (hb m fuzz).1, hblind hi fuzz, (hb _ fuzz).2]

end Abides

end Policy

end Reprl
