import Reprl.Proofs.Dialect.Basic

/-! Ways to combine actions that agree. Where a counter is raised, the actions inside begin at
higher levels, and there is room for them only below the limits. -/

namespace Reprl

namespace Dialect

variable {D : Dialect} {ε δ α β : Type} {levels : Levels}

namespace AgreesAt

variable {a b : Action Machine ε α} {returns : α → Prop} {throws : ε → Prop} {m : Machine}

theorem of_apply {m' : Machine} {r : Except (Abrupt ε) α} (ha : a m = (r, m')) (hb : b m = (r, m'))
    (hr : D.Answers returns throws r) (hm : D.Holds m') (hl : m'.levels = m.levels) :
    D.AgreesAt a b returns throws m := by
  refine ⟨hb.trans ha.symm, ?_, ?_, ?_⟩
  · rw [ha]
    exact hr
  · rw [ha]
    exact hm
  · rw [ha]
    exact hl

end AgreesAt

namespace Agrees

variable {returns : α → Prop} {gives : β → Prop} {throws : ε → Prop} {raises : δ → Prop}
  {a b : Action Machine ε α}

theorem throw {e : Abrupt ε} (he : D.Answers returns throws (.error e)) :
    D.Agrees levels (MonadExcept.throw e : Action Machine ε α) (MonadExcept.throw e) returns throws :=
  fun _ hm _ => .of_apply rfl rfl he hm rfl

theorem pure {x : α} (hx : returns x) :
    D.Agrees levels (Pure.pure x : Action Machine ε α) (Pure.pure x) returns throws :=
  fun _ hm _ => .of_apply rfl rfl hx hm rfl

theorem raise {e : ε} (he : throws e) :
    D.Agrees levels (Action.raise e : Action Machine ε α) (Action.raise e) returns throws := throw he

theorem bind {next next' : α → Action Machine ε β} (h : D.Agrees levels a b returns throws)
    (hn : ∀ x, returns x → D.Agrees levels (next x) (next' x) gives throws) :
    D.Agrees levels (a >>= next) (b >>= next') gives throws := by
  intro m hm hl
  obtain ⟨hsame, hanswer, hholds, hlevels⟩ := h m hm hl
  rcases ha : a m with ⟨e | x, m'⟩
  all_goals simp only [ha] at hsame hanswer hholds hlevels
  · exact .of_apply (Action.bind_of_error ha next) (Action.bind_of_error hsame next')
      (hanswer.error gives) hholds hlevels
  · obtain ⟨hsame', hanswer', hholds', hlevels'⟩ := hn x hanswer m' hholds (hlevels.trans hl)
    have hb : (b >>= next') m = next x m' := (Action.bind_of_ok hsame next').trans hsame'
    exact .of_apply (Action.bind_of_ok ha next) hb hanswer' hholds' (hlevels'.trans hlevels)

theorem attempt {w : Unit} {returns : Unit → α → Prop} {throws : Unit → ε → Prop}
    (h : D.Agrees levels a b (returns w) (throws w)) :
    D.Agrees levels (Action.attempt a : Action Machine δ (Except ε α)) (Action.attempt b)
      (D.setting.Settled returns throws w) raises := by
  intro m hm hl
  obtain ⟨hsame, hanswer, hholds, hlevels⟩ := h m hm hl
  rcases ha : a m with ⟨(e | signal | _) | x, m'⟩
  all_goals
    simp only [ha] at hsame hanswer hholds hlevels
    refine .of_apply (Action.attempt_of_apply ha) (Action.attempt_of_apply hsame) ?_ hholds hlevels
  · exact hanswer
  · trivial
  · exact hanswer
  · exact hanswer

theorem get_bind {next next' : Machine → Action Machine ε α}
    (h : ∀ m, D.Holds m → m.levels = levels → D.AgreesAt (next m) (next' m) returns throws m) :
    D.Agrees levels (get >>= next) (get >>= next') returns throws := by
  intro m hm hl
  obtain ⟨hsame, hanswer, hholds, hlevels⟩ := h m hm hl
  exact ⟨hsame, hanswer, hholds, hlevels⟩

/-- An action that changes a machine without an end and moves no level. -/
theorem change (answer : Machine → α) (after : Machine → Machine)
    (ha : ∀ m, a m = (.ok (answer m), after m)) (hl : ∀ m, (after m).levels = m.levels)
    (hm : ∀ m, D.Holds m → D.Holds (after m)) (hr : ∀ m, D.Holds m → returns (answer m)) :
    D.Agrees levels a a returns throws :=
  fun m hholds _ => .of_apply (ha m) (ha m) (hr m hholds) (hm m hholds) (hl m)

/-- An action that uses only what scripts cannot see. -/
theorem unseen (answer : Machine → α) (after : Machine → Machine)
    (ha : ∀ m, a m = (.ok (answer m), after m)) (hl : ∀ m, (after m).inner = m.inner) :
    D.Agrees levels a a (fun _ => True) throws := by
  refine change answer after ha (fun m => Machine.levels_eq_of_inner_eq (hl m)) (fun m hm => ?_)
    fun _ _ => trivial
  exact hm.congr (congrArg Machine.Inner.heap (hl m)) (congrArg Machine.Inner.jobs (hl m))

section Levels

variable {a b : Run α}

theorem between (up down : Levels → Levels) (h : D.Runs (up levels) a b returns)
    {enter leave : Machine → Machine} (hu : ∀ m, enter m = m.withLevels (up m.levels))
    (hd : ∀ m, leave m = m.withLevels (down m.levels)) (hback : down (up levels) = levels) :
    D.Runs levels (Run.between enter leave a) (Run.between enter leave b) returns := by
  rintro m hm rfl
  have henter : (enter m).levels = up m.levels := by rw [hu, Machine.levels_withLevels]
  have hin : D.Holds (enter m) := by
    rw [hu]
    exact hm.congr rfl rfl
  obtain ⟨hsame, hanswer, hholds, hlevels⟩ := h (enter m) hin henter
  have hrun : ∀ a : Run α, Run.between enter leave a m = ((a (enter m)).1, leave (a (enter m)).2) :=
    fun _ => rfl
  refine .of_apply (hrun a) ?_ hanswer ?_ ?_
  · rw [hrun b, hsame]
  · rw [hd]
    exact hholds.congr rfl rfl
  · rw [hd, Machine.levels_withLevels, hlevels, henter, hback]

theorem raiseError (name message : String) :
    D.Runs levels (Run.raiseError name message : Run α) (Run.raiseError name message) returns := by
  have alloc : D.Runs levels (Run.alloc (.object (.error name message)))
      (Run.alloc (.object (.error name message))) fun _ => True :=
    change (·.heap.next) (fun m => { m with heap := m.heap.add _ }) (fun _ => rfl) (fun _ => rfl)
      (fun _ hm => hm.add (allowsCell_error name message)) fun _ _ => trivial
  have hmade : ∀ ref, D.Allows (.object ref) := fun _ => trivial
  exact bind (bind alloc fun ref _ => pure (hmade ref)) fun _ hv => raise hv

theorem nested (h : levels.nesting < maxNesting → D.Runs levels.nest a b returns) :
    D.Runs levels (Run.nested a) (Run.nested b) returns := by
  refine get_bind fun m hm hl => ?_
  have hnesting : m.nesting = levels.nesting := congrArg Levels.nesting hl
  by_cases hfull : maxNesting ≤ m.nesting
  · simp only [if_pos hfull]
    exact raiseError _ _ m hm hl
  · simp only [if_neg hfull]
    let down (levels : Levels) : Levels := { levels with nesting := levels.nesting - 1 }
    have hinside : D.Runs levels.nest a b returns := h (by omega)
    exact between Levels.nest down hinside (fun _ => rfl) (fun _ => rfl) rfl m hm hl

theorem inCall (h : levels.depth < maxCallDepth → D.Runs levels.call a b returns) :
    D.Runs levels (Run.inCall a) (Run.inCall b) returns := by
  refine get_bind fun m hm hl => ?_
  have hdepth : m.depth = levels.depth := congrArg Levels.depth hl
  by_cases hfull : maxCallDepth ≤ m.depth
  · simp only [if_pos hfull]
    exact raiseError _ _ m hm hl
  · simp only [if_neg hfull]
    let down (levels : Levels) : Levels := { levels with depth := levels.depth - 1 }
    have hinside : D.Runs levels.call a b returns := h (by omega)
    exact between Levels.call down hinside (fun _ => rfl) (fun _ => rfl) rfl m hm hl

theorem whileJoining (ref : Ref) (h : D.Runs (levels.join ref) a b returns) :
    D.Runs levels (Run.whileJoining ref a) (Run.whileJoining ref b) returns := by
  let down (levels : Levels) : Levels := { levels with joining := levels.joining.tail }
  exact between (Levels.join · ref) down h (fun _ => rfl) (fun _ => rfl) rfl

end Levels

end Agrees

end Dialect

end Reprl
