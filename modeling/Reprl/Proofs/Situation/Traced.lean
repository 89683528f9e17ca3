import Reprl.Proofs.Discipline.Call
import Reprl.Proofs.Outcome
import Reprl.Proofs.Situation.Basic

/-! Actions that are sequences of steps. What such an action returns or throws code holds
afterwards. -/

namespace Reprl.Situation

variable {ε δ α β : Type} {s : Situation}

/-- What comes out of an action, seen from the situation after it. -/
def Answers (returns : Situation → α → Prop) (throws : Situation → ε → Prop) (s : Situation) :
    Except (Abrupt ε) α → Prop
  | .ok x => returns s x
  | .error (.thrown e) => throws s e
  | .error _ => True

def Traced (s : Situation) (a : Action Machine ε α) (returns : Situation → α → Prop)
    (throws : Situation → ε → Prop) : Prop :=
  ∃ s', Steps s s' ∧ (a s.machine).2 = s'.machine ∧ Answers returns throws s' (a s.machine).1

/-- The worlds of code are its situations. Code may do as it likes. -/
abbrev setting : Setting where
  World := Situation
  Later := Grows
  Base := Unit
  Deeper _ _ := True
  permits _ := True
  names _ := True
  natives _ := True
  ends := False
  lags := False
  Has := Has
  Chain := chains
  Owns _ _ := True
  Sees _ s m := s.machine = m
  Rel _ s a _ returns throws := Traced s a returns throws

/-- Actions of scripts throw values, which code may catch. -/
abbrev Runs (s : Situation) (a : Run α) (returns : Situation → α → Prop) : Prop :=
  Traced s a returns Has

namespace Traced

variable {returns : Situation → α → Prop} {gives : Situation → β → Prop}
  {throws : Situation → ε → Prop} {raises : Situation → δ → Prop} {a b : Action Machine ε α}

theorem of_apply {t : Situation} {r : Except (Abrupt ε) α} (ha : a s.machine = (r, t.machine))
    (hs : Steps s t) (hr : Answers returns throws t r) : Traced s a returns throws := by
  refine ⟨t, hs, ?_, ?_⟩
  · rw [ha]
  · rw [ha]
    exact hr

/-- An action that is one step. -/
theorem step {s' : Situation} {x : α} (hs : Step s s') (ha : a s.machine = (.ok x, s'.machine))
    (hx : returns s' x) : Traced s a returns throws := .of_apply ha (.single hs) hx

theorem congr (h : Traced s b returns throws) (he : a s.machine = b s.machine) :
    Traced s a returns throws := by
  unfold Traced
  rw [he]
  exact h

theorem pure {x : α} (hx : returns s x) : Traced s (Pure.pure x : Action Machine ε α) returns throws :=
  ⟨s, .refl, rfl, hx⟩

theorem throw {e : Abrupt ε} (he : Answers returns throws s (.error e)) :
    Traced s (MonadExcept.throw e : Action Machine ε α) returns throws := ⟨s, .refl, rfl, he⟩

theorem raise {e : ε} (he : throws s e) :
    Traced s (Action.raise e : Action Machine ε α) returns throws := throw he

theorem exhaust : Traced s (Action.exhaust : Action Machine ε α) returns throws := throw trivial

theorem bind {next : α → Action Machine ε β} (h : Traced s a returns throws)
    (hn : ∀ s' x, Grows s s' → returns s' x → Traced s' (next x) gives throws) :
    Traced s (a >>= next) gives throws := by
  obtain ⟨s', hs, hm, hr⟩ := h
  rcases ha : a s.machine with ⟨e | x, m⟩
  all_goals
    simp only [ha] at hm hr
    subst hm
  · exact .of_apply (Action.bind_of_error ha next) hs (by cases e <;> exact hr)
  · obtain ⟨s'', hs', hm', hr'⟩ := hn s' x hs.grows hr
    exact ⟨s'', hs.trans hs', by rw [Action.bind_of_ok ha, hm'], by rwa [Action.bind_of_ok ha]⟩

theorem attempt (h : Traced s a returns throws) :
    Traced s (Action.attempt a : Action Machine δ (Except ε α)) (setting.Settled returns throws)
      raises := by
  obtain ⟨s', hs, hm, hr⟩ := h
  rcases ha : a s.machine with ⟨(e | signal | _) | x, m⟩
  all_goals
    simp only [ha] at hm hr
    subst hm
    refine .of_apply (Action.attempt_of_apply ha) hs ?_
  · exact hr
  · trivial
  · trivial
  · exact hr

theorem get_bind {next : Machine → Action Machine ε α}
    (h : Traced s (next s.machine) returns throws) : Traced s (get >>= next) returns throws := h

/-- Code may get hold of more before it acts. -/
theorem after {s' : Situation} (hs : Step s s') (hm : s'.machine = s.machine)
    (h : Traced s' a returns throws) : Traced s a returns throws := by
  obtain ⟨s'', hs', hm', hr⟩ := h
  rw [hm] at hm' hr
  exact ⟨s'', .head hs hs', hm', hr⟩

/-- The levels may be moved before an action and after it. -/
theorem between {enter leave : Machine → Machine} {a : Run α} {returns : Situation → α → Prop}
    (hl : setting.Lasting returns) (h : ∀ s', Grows s s' → Runs s' a returns)
    (he : ∀ m, ∃ depth nesting joining, enter m = { m with depth, nesting, joining })
    (hb : ∀ m, ∃ depth nesting joining, leave m = { m with depth, nesting, joining }) :
    Runs s (Run.between enter leave a) returns := by
  have hmoved : ∀ (s : Situation) (move : Machine → Machine),
      (∃ depth nesting joining, move s.machine = { s.machine with depth, nesting, joining }) →
        Step s (s.onMachine (move s.machine)) := by
    rintro s move ⟨depth, nesting, joining, hmove⟩
    rw [hmove]
    exact .levels depth nesting joining
  have hin := hmoved s enter (he s.machine)
  obtain ⟨s', hs, hm, hr⟩ := h _ hin.grows
  have hout := hmoved s' leave (hb s'.machine)
  -- What is known of a result is known of it also with the levels lowered again.
  have hlater : Answers returns Has (s'.onMachine (leave s'.machine)) (a (enter s.machine)).1 := by
    have hr : Answers returns Has s' (a (enter s.machine)).1 := hr
    rcases hres : (a (enter s.machine)).1 with (thrown | signal | _) | x
    all_goals rw [hres] at hr
    · exact hout.grows.has hr
    · trivial
    · trivial
    · exact hl _ _ x hout.grows hr
  refine .of_apply (t := s'.onMachine (leave s'.machine)) (r := (a (enter s.machine)).1) ?_
    ((Relation.ReflTransGen.single hin).trans (hs.tail hout)) hlater
  show ((a (enter s.machine)).1, leave (a (enter s.machine)).2) = _
  rw [show (a (enter s.machine)).2 = s'.machine from hm]
  rfl

end Traced

end Reprl.Situation
