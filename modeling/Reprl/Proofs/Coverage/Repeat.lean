import Reprl.Proofs.Coverage.History

/-! Installing a table again. Whether a table is installed already is told by its first guard,
and recording clears that guard. So the same table is passed over while the guard is ready, and
is taken for another table while it is not. -/

namespace Reprl.Coverage

theorem record_cases (c : Coverage) (i : Nat) :
    c.record i = c ∨ ∃ t region, c.table = some t ∧
      c.record i = { c with
        cells := c.cells.setIfInBounds i 0
        table := some { t with region } } := by
  rcases ht : c.table with _ | t
  · left
    simp only [record, ht]
  · by_cases hi : t.start ≤ i ∧ i - t.start < c.used t
    · by_cases h : 0 < (c.cell i).toNat ∧ (c.cell i).toNat < edgeLimit
      · exact .inr ⟨t, _, rfl, record_of_armed ht hi h⟩
      · left
        simp only [record, ht, dif_neg h, ite_self]
    · exact .inl (record_of_stray ht hi)

/-- A table is installed, and its first guard tells whether it was recorded since the last
reset. Without any guard in use it stays zero. -/
structure Led (start stop cap : Nat) (ops : List Op) (c : Coverage) : Prop where
  table : ∃ region, c.table = some ⟨start, stop, region⟩
  capped : c.cap = cap
  inside : start < c.cells.size
  ready : 0 < cap → ¬ RecordedSinceReset ops start → c.cell start = 1
  spent : cap = 0 ∨ RecordedSinceReset ops start → c.cell start = 0

namespace Led

variable {start stop cap : Nat} {ops : List Op} {c : Coverage}

theorem of_reset {region : Region} (ht : c.table = some ⟨start, stop, region⟩) (hlt : start < stop)
    (hin : start < c.cells.size) (hzero : c.cap = 0 → c.cell start = 0)
    (hnone : ¬ RecordedSinceReset ops start) : Led start stop c.cap ops c.reset := by
  have hused : c.used ⟨start, stop, region⟩ = min (stop - start) c.cap := rfl
  have hcell := cell_reset ht start
  have hreset : c.reset = { c with cells := number start (min (stop - start) c.cap) c.cells } := by
    simp only [reset, ht, hused]
  simp only [hused] at hcell
  refine ⟨⟨region, ?_⟩, ?_, ?_, fun hpos _ => ?_, fun hspent => ?_⟩
  · rw [hreset]
    exact ht
  · rw [hreset]
  · rw [hreset]
    exact hin.trans_eq (size_number _ _ _).symm
  · rw [hcell, if_pos (by omega), Nat.sub_self]
    rfl
  · have hcap := hspent.resolve_right hnone
    rw [hcell, if_neg (by omega)]
    exact hzero hcap

theorem reset (h : Led start stop cap ops c) (hlt : start < stop) :
    Led start stop cap (ops ++ [.reset]) c.reset := by
  obtain ⟨region, ht⟩ := h.table
  have hcap := h.capped
  subst hcap
  exact .of_reset ht hlt h.inside (fun hcap => h.spent (.inl hcap)) (not_recorded_append_reset ops start)

theorem record_first (h : Led start stop cap ops c) (hlt : start < stop) :
    (c.record start).cell start = 0 := by
  by_cases hspent : cap = 0 ∨ RecordedSinceReset ops start
  · rw [record_of_zero (h.spent hspent), h.spent hspent]
  · have hcap : 0 < cap := by omega
    have hone := h.ready hcap fun hr => hspent (.inr hr)
    obtain ⟨region, ht⟩ := h.table
    have hused : c.used ⟨start, stop, region⟩ = min (stop - start) cap := by rw [used, h.capped]
    have htracked : start ≤ start ∧ start - start < c.used ⟨start, stop, region⟩ := by omega
    rw [record_of_armed ht htracked (by rw [hone]; decide), cell_setIfInBounds h.inside, if_pos rfl]

theorem record (h : Led start stop cap ops c) (hlt : start < stop) (i : Nat) :
    Led start stop cap (ops ++ [.record i]) (c.record i) := by
  obtain ⟨before, ht⟩ := h.table
  have hcell : i ≠ start → (c.record i).cell start = c.cell start := by
    intro hne
    rcases record_cases c i with hsame | ⟨t, after, -, hset⟩
    · rw [hsame]
    · simp only [hset, cell, Array.getD_eq_getD_getElem?, Array.getElem?_setIfInBounds_ne hne]
  refine ⟨?_, ?_, ?_, fun hcap hr => ?_, fun hspent => ?_⟩
  · rcases record_cases c i with hsame | ⟨t, after, ht', hset⟩
    · exact ⟨before, by rw [hsame, ht]⟩
    · obtain rfl : ⟨start, stop, before⟩ = t := Option.some.inj (ht.symm.trans ht')
      exact ⟨after, by rw [hset]⟩
  · rcases record_cases c i with hsame | ⟨t, after, -, hset⟩
    · rw [hsame, h.capped]
    · rw [hset]
      exact h.capped
  · rcases record_cases c i with hsame | ⟨t, after, -, hset⟩
    · rw [hsame]
      exact h.inside
    · rw [hset]
      exact h.inside.trans_eq Array.size_setIfInBounds.symm
  · rw [recorded_append_record, not_or] at hr
    rw [hcell (Ne.symm hr.1)]
    exact h.ready hcap hr.2
  · by_cases hi : i = start
    · rw [hi]
      exact h.record_first hlt
    · rw [hcell hi]
      refine h.spent (hspent.imp_right fun hr => ?_)
      exact ((recorded_append_record ops start i).mp hr).resolve_left (Ne.symm hi)

theorem run (h : Led start stop cap [] c) (hlt : start < stop) (ops : List Op) :
    Led start stop cap ops (c.afterAll ops) := by
  induction ops using List.reverseRecOn with
  | nil => exact h
  | append_singleton ops op ih =>
    rw [afterAll, List.foldl_append]
    cases op with
    | reset => exact ih.reset hlt
    | record i => exact ih.record hlt i

end Led

variable {c : Coverage} {start stop : Nat}

theorem install_of_passed (h : start = stop ∨ c.cell start ≠ 0)
    (acquired : List String × Except CoverageError Region) :
    c.install start stop acquired = (.ok false, [], c) := if_pos h

theorem install_of_installed (h : ¬ (start = stop ∨ c.cell start ≠ 0)) (ht : c.table.isSome)
    (acquired : List String × Except CoverageError Region) :
    c.install start stop acquired = (.error .duplicateModule, [], c) := by
  simp only [install, if_neg h, if_pos ht]

theorem install_of_failed (h : ¬ (start = stop ∨ c.cell start ≠ 0)) (ht : c.table = none)
    (lines : List String) (e : CoverageError) :
    c.install start stop (lines, .error e) = (.error e, lines, c) := by
  simp only [install, if_neg h, ht, Option.isSome_none, Bool.false_eq_true, if_false]

theorem install_of_region (h : ¬ (start = stop ∨ c.cell start ≠ 0)) (ht : c.table = none)
    (lines : List String) (region : Region) :
    (c.install start stop (lines, .ok region)).1 = .ok true := by
  simp only [install, if_neg h, ht, Option.isSome_none, Bool.false_eq_true, if_false]

/-- When the table that is installed is installed again, it is passed over exactly as long as its
first guard is in use and was not recorded since the last reset; otherwise it is refused as a
second table. Nothing changes in either case, nor in any other that does not install a table, and
after a region could not be acquired a table can still be installed. -/
theorem repeats_and_refusals_change_nothing (c : Coverage) (start stop : Nat)
    (acquired : List String × Except CoverageError Region) :
    (∀ {cells : Array UInt32} {cap : Nat} {lines text : List String} {region : Region}
        {installed : Coverage}, start ≤ stop ∧ stop ≤ cells.size →
      (withCap cells cap).install start stop (lines, .ok region) = (.ok true, text, installed) →
      ∀ ops : List Op,
        let now := installed.afterAll ops
        (0 < cap ∧ ¬ RecordedSinceReset ops start →
          now.install start stop acquired = (.ok false, [], now)) ∧
        (cap = 0 ∨ RecordedSinceReset ops start →
          now.install start stop acquired = (.error .duplicateModule, [], now))) ∧
    ((c.install start stop acquired).1 ≠ .ok true →
      (c.install start stop acquired).2.2 = c ∧
      ∀ e, (c.install start stop acquired).1 = .error e →
        (c.table.isSome ∧ e = .duplicateModule) ∨
        (c.table = none ∧ acquired.2 = .error e ∧
          ∀ lines region, (c.install start stop (lines, .ok region)).1 = .ok true)) := by
  constructor
  · intro cells cap lines text region installed hfit hi ops now
    have hfirst : ¬ (start = stop ∨ (withCap cells cap).cell start ≠ 0) := by
      intro hpassed
      rw [install_of_passed hpassed] at hi
      cases hi
    have hlt : start < stop := by omega
    have hled : Led start stop (min cap (edgeLimit - 1)) [] installed := by
      let placed : Coverage := { withCap cells cap with
        table := some ⟨start, stop, { region with edgeCount := UInt32.ofNat (stop - start) }⟩ }
      have hin : start < placed.cells.size := hlt.trans_le hfit.2
      have hzero : placed.cell start = 0 := Decidable.of_not_not (not_or.mp hfirst).2
      rw [installed_of_ok hi]
      exact .of_reset rfl hlt hin (fun _ => hzero) (not_recorded_nil start)
    have hlimit : 0 < edgeLimit - 1 := by decide
    have hall : Led start stop (min cap (edgeLimit - 1)) ops now := hled.run hlt ops
    constructor
    · rintro ⟨hcap, hr⟩
      have hone := hall.ready (by omega) hr
      exact install_of_passed (.inr (by rw [hone]; decide)) acquired
    · intro hspent
      have hzero := hall.spent (hspent.imp_left fun hcap => by rw [hcap, Nat.zero_min])
      obtain ⟨after, ht⟩ := hall.table
      refine install_of_installed (fun hpassed => ?_) (by rw [ht]; rfl) acquired
      exact hpassed.elim (Nat.ne_of_lt hlt) fun hne => hne hzero
  · intro hno
    by_cases hpassed : start = stop ∨ c.cell start ≠ 0
    · rw [install_of_passed hpassed]
      exact ⟨rfl, fun e he => nomatch he⟩
    · rcases ht : c.table with _ | t
      · obtain ⟨lines, error | region⟩ := acquired
        · rw [install_of_failed hpassed ht]
          refine ⟨rfl, fun e he => .inr ⟨rfl, ?_, install_of_region hpassed ht⟩⟩
          exact congrArg Except.error (Except.error.inj he)
        · exact absurd (install_of_region hpassed ht lines region) hno
      · rw [install_of_installed hpassed (by rw [ht]; rfl)]
        refine ⟨rfl, fun e he => .inl ⟨rfl, ?_⟩⟩
        exact (Except.error.inj he).symm

/-- Two guards between foreign cells. The first guard is recorded before a reset, then after it;
before that the region could not be acquired. -/
theorem repeats_over_pairedCells :
    ∃ text installed, (withCap #[7, 0, 0, 9] 2).install 1 3 ([], .ok { key := none }) =
        (.ok true, text, installed) ∧
      (∃ c, c = installed.afterAll [.record 1, .reset, .record 2] ∧
        c.install 1 3 ([], .ok { key := none }) = (.ok false, [], c)) ∧
      (∃ c, c = installed.afterAll [.reset, .record 1] ∧
        c.install 1 3 ([], .ok { key := none }) = (.error .duplicateModule, [], c)) ∧
      ((withCap #[7, 0, 0, 9] 2).install 1 3 ([], .error (.invalidKey ""))).2.2 =
        withCap #[7, 0, 0, 9] 2 := by
  let fresh := withCap #[7, 0, 0, 9] 2
  obtain ⟨hrepeat, -⟩ := repeats_and_refusals_change_nothing fresh 1 3 ([], .ok { key := none })
  obtain ⟨-, hrefused⟩ := repeats_and_refusals_change_nothing fresh 1 3 ([], .error (.invalidKey ""))
  obtain ⟨text, installed, hi⟩ : ∃ text installed,
      (withCap #[7, 0, 0, 9] 2).install 1 3 ([], .ok { key := none }) = (.ok true, text, installed) :=
    ⟨_, _, rfl⟩
  have hops := hrepeat (by decide) hi
  have hready : ¬ RecordedSinceReset ([.record 1] ++ [.reset] ++ [.record 2]) 1 := by
    rw [recorded_append_record, not_or]
    exact ⟨by decide, not_recorded_append_reset [.record 1] 1⟩
  have hspent : RecordedSinceReset ([.reset] ++ [.record 1]) 1 :=
    (recorded_append_record [.reset] 1 1).mpr (.inl rfl)
  have hfailed : ((withCap #[7, 0, 0, 9] 2).install 1 3 ([], .error (.invalidKey ""))).1 =
      .error (.invalidKey "") := rfl
  exact ⟨text, installed, hi, ⟨_, rfl, (hops _).1 ⟨by decide, hready⟩⟩,
    ⟨_, rfl, (hops _).2 (.inr hspent)⟩, (hrefused (by rw [hfailed]; exact nofun)).1⟩

/-- Once its first guard is recorded, the only table there is counts as a second one. -/
theorem recorded_table_is_refused :
    ∃ text installed, (withCap #[0, 0, 0, 0] (edgeLimit - 1)).install 0 4 ([], .ok { key := none }) =
        (.ok true, text, installed) ∧
      ((installed.afterAll [.record 0]).install 0 4 ([], .ok { key := none })).1 =
        .error .duplicateModule :=
  ⟨_, _, rfl, rfl⟩

end Reprl.Coverage
