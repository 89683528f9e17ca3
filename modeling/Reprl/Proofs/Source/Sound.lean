import Reprl.Proofs.Source.Estimate

/-! What holds before and after every piece of a scan: the scan is at a place between two characters,
and its estimate counts its frames and all that is chained in them. -/

namespace Reprl.Source

open Reprl.Text

namespace Nesting

/-- The estimate is within the limit. Levels are taken off freely, and every level that is put on
is held against the limit. -/
def Shallow (s : Nesting) : Prop := s.total ≤ maxDepth

namespace Shallow

variable {s next : Nesting} {b : UInt8} {rest : List UInt8}

theorem of_guarded (h : s.guarded = some next) : Shallow next := by
  obtain ⟨hle, rfl⟩ := guarded_eq_some.mp h
  exact hle

theorem of_openFrame {template : Bool} (h : s.openFrame template = some next) : Shallow next := by
  obtain ⟨chained, -, hguarded⟩ := Option.bind_eq_some_iff.mp h
  exact of_guarded hguarded

theorem settle (h : Shallow s) (rest : List UInt8) : Shallow (s.settle rest) := by
  rw [Nesting.settle]
  split
  · exact h
  · exact Nat.le_trans (Nat.sub_le _ _) h

theorem template (h : Shallow s) (hn : (s.template rest).1 = some next) : Shallow next := by
  simp only [Nesting.template] at hn
  split at hn
  · exact of_openFrame hn
  · cases hn
    exact h

theorem closed (h : Shallow s) (hn : (s.closed b rest).1 = some next) : Shallow next := by
  have hsettled {t : Nesting} (ht : Shallow t) :
      Shallow (if b = closeBrace then t.settle rest else t) := by
    split
    · exact ht.settle rest
    · exact ht
  simp only [Nesting.closed] at hn
  split at hn
  · next frame outer hclose =>
    have houter : Shallow outer := by
      rw [Nesting.close] at hclose
      split at hclose
      · cases hclose
      · cases hclose
        exact Nat.le_trans (Nat.sub_le _ _) h
    split at hn
    · exact houter.template hn
    · cases hn
      exact hsettled houter
  · cases hn
    exact hsettled h

theorem word (h : Shallow s) (hn : (s.word b rest).1 = some next) : Shallow next := by
  simp only [Nesting.word] at hn
  split at hn
  · exact of_guarded hn
  · cases hn
    exact h

theorem step (h : Shallow s) (hn : (s.step b rest).1 = some next) : Shallow next := by
  rw [step_eq_take] at hn
  have hsame {t : Nesting} (ht : Shallow t) (hs : some t = some next) : Shallow next :=
    Option.some.inj hs ▸ ht
  cases hpiece : pieceOf b rest.head? with
  | quoted | lineComment | blockComment | number | other =>
    rw [hpiece] at hn
    exact hsame h hn
  | template =>
    rw [hpiece] at hn
    exact h.template hn
  | opener =>
    rw [hpiece] at hn
    exact of_openFrame hn
  | closer =>
    rw [hpiece] at hn
    exact h.closed hn
  | separator =>
    rw [hpiece] at hn
    exact hsame (h.settle rest) hn
  | operator =>
    rw [hpiece] at hn
    exact of_guarded hn
  | word =>
    rw [hpiece] at hn
    exact h.word hn

end Shallow

end Nesting

namespace Positions

open Estimate

/-- What holds before and after every piece: the scan stands between two characters, its estimate
counts the frames above the bottom one and all that is chained in frames, and at least two levels
go with every frame above the bottom one. -/
structure Sound (source : String) (e : Estimate) (i : Nat) : Prop where
  between : String.Pos.Raw.IsValid source ⟨i⟩
  frames : e.frames ≠ []
  total : e.total = (e.frames.length - 1) + Nesting.chains e.frames
  twice : 2 * (e.frames.length - 1) ≤ e.total
  few : e.frames.length - 1 ≤ 250

theorem le_chains {frames : List Frame} (h : ∀ f ∈ frames, 0 < f.chain) :
    frames.length ≤ Nesting.chains frames := by
  induction frames with
  | nil => exact Nat.le_refl 0
  | cons f rest ih =>
    obtain ⟨hf, hrest⟩ := List.forall_mem_cons.mp h
    have hle := ih hrest
    rw [List.length_cons, Nesting.chains_cons]
    omega

theorem sound_ofNesting {source : String} {s : Nesting} {rest : Bytes} (hs : s.Balanced)
    (hshallow : s.Shallow) (hsplits : Splits source rest) :
    Sound source (ofNesting s) ((encode source).length - rest.length) := by
  have hchains := le_chains hs.chained
  have htotal := hs.total
  have hlimit : s.total ≤ 500 := hshallow
  have hframes : (ofNesting s).frames.length - 1 = s.below.length := rfl
  simp only [Nesting.frames, Nesting.chains_cons] at htotal
  refine ⟨hsplits.isValid, List.cons_ne_nil _ _, ?_, ?_, ?_⟩
  · rw [hframes]
    exact hs.total
  · rw [hframes]
    change 2 * s.below.length ≤ s.total
    omega
  · rw [hframes]
    omega

/-- The scan by positions goes the way of the scan of what is left. -/
theorem Visits.exists_nesting {source : String} {e : Estimate} {i : Nat} (h : Visits source e i) :
    ∃ s : Nesting, ∃ rest, e = ofNesting s ∧ s.Balanced ∧ s.Shallow ∧ Splits source rest ∧
      rest <:+ encode source ∧ i = (encode source).length - rest.length := by
  induction h with
  | start =>
    refine ⟨{}, encode source, rfl, Nesting.balanced_start, Nat.zero_le _, .start source,
      List.suffix_rfl, (Nat.sub_self _).symm⟩
  | @piece e e' i j _ hi hstep ih =>
    obtain ⟨s, rest, rfl, hs, hshallow, hsplits, hsuffix, rfl⟩ := ih
    have hdrop := drop_of_suffix hsuffix
    cases rest with
    | nil => exact absurd hi (Nat.lt_irrefl _)
    | cons b rest =>
      rw [step_eq hs hsplits hdrop] at hstep
      have hafter := Nesting.splits_step s hsplits
      have hleft := (Nesting.step_suffix s b rest).trans (suffix_of_drop (drop_succ hdrop))
      rcases hnext : s.step b rest with ⟨_ | next, after⟩
      · rw [hnext] at hstep
        cases hstep
      · rw [hnext] at hstep hafter hleft
        cases hstep
        have hfst := congrArg Prod.fst hnext
        exact ⟨next, after, rfl, hs.step hfst, hshallow.step hfst, hafter, hleft, rfl⟩

/-- Every state of the scan of the text is an estimate that the scan by positions visits. -/
theorem Visits.of_reaches {source : String} {s t : Nesting} {text rest : Bytes}
    (h : Nesting.Reaches s text t rest) (hs : s.Balanced) (hsplits : Splits source text)
    (hsuffix : text <:+ encode source)
    (hvisits : Visits source (ofNesting s) ((encode source).length - text.length)) :
    Visits source (ofNesting t) ((encode source).length - rest.length) := by
  induction h with
  | here s text => exact hvisits
  | @piece s next t b rest after text hnext _ ih =>
    have hdrop := drop_of_suffix hsuffix
    have hstep := step_eq hs hsplits hdrop
    have hafter := Nesting.splits_step s hsplits
    have hleft := (Nesting.step_suffix s b rest).trans (suffix_of_drop (drop_succ hdrop))
    rw [hnext] at hstep hafter hleft
    exact ih (hs.step (congrArg Prod.fst hnext)) hafter hleft (.piece hvisits (lt_of_drop hdrop) hstep)

/-- Whatever the source is, no check of the scan by positions fails, it accepts what the scan of the
text accepts, and it visits all states of that scan. Before and after every piece its estimate is
sound, and every piece ends further on, unless the source nests too deeply there. -/
theorem scan_breaks_down_nowhere (source : String) :
    (∀ fault, check source ≠ .error (.broken fault)) ∧
    (withinDepth source = true ↔ ∃ e, check source = .ok e) ∧
    (∀ s rest, Nesting.Reaches {} (encode source) s rest →
      Visits source (ofNesting s) ((encode source).length - rest.length)) ∧
    ∀ e i, Visits source e i → Sound source e i ∧ (i < (encode source).length →
      step source e i = .error .tooDeep ∨ ∃ e' j, step source e i = .ok (e', j) ∧ i < j) := by
  have hcheck : check source = verdict (Nesting.scan {} (encode source)) :=
    scan_eq Nesting.balanced_start (.start source) rfl (Nat.le_refl _)
  have hstart : Visits source (ofNesting {}) ((encode source).length - (encode source).length) := by
    rw [Nat.sub_self]
    exact .start
  refine ⟨fun fault hfault => ?_, ?_, fun s rest hreaches => ?_, fun e i hvisits => ?_⟩
  · rw [hcheck] at hfault
    cases hscan : Nesting.scan {} (encode source) <;> simp [hscan, verdict] at hfault
  · rw [withinDepth_eq, hcheck]
    cases Nesting.scan {} (encode source) <;> simp [verdict]
  · exact .of_reaches hreaches Nesting.balanced_start (.start source) List.suffix_rfl hstart
  · obtain ⟨s, rest, rfl, hs, hshallow, hsplits, hsuffix, rfl⟩ := hvisits.exists_nesting
    refine ⟨sound_ofNesting hs hshallow hsplits, fun hi => ?_⟩
    have hdrop := drop_of_suffix hsuffix
    cases rest with
    | nil => exact absurd hi (Nat.lt_irrefl _)
    | cons b rest =>
      have hlength := Nesting.length_step s b rest
      rw [step_eq hs hsplits hdrop]
      rcases hstep : s.step b rest with ⟨_ | next, after⟩
      · exact .inl rfl
      · rw [hstep] at hlength
        have hle : after.length ≤ rest.length := hlength
        have htotal := hsuffix.length_le
        refine .inr ⟨ofNesting next, _, rfl, ?_⟩
        rw [List.length_cons] at htotal ⊢
        omega

/-- A substitution that is not closed, and in it a string that is not closed either, with a
backslash before a character of two bytes. The skip stands inside the character, the pieces do not. -/
theorem openString_is_scanned :
    let source := "`$\x7b'\\é"
    let e : Estimate := ⟨[{ template := true }, { chain := 1 }], 2⟩
    Visits source e 3 ∧ Sound source e 3 ∧ Visits source e 7 ∧ Sound source e 7 ∧
      (∃ e' j, step source e 3 = .ok (e', j) ∧ 3 < j) ∧ ∃ e', check source = .ok e' := by
  intro source e
  obtain ⟨-, haccepts, hstates, hvisited⟩ := scan_breaks_down_nowhere source
  let s : Nesting := ⟨{ template := true }, [{ chain := 1 }], 2⟩
  have hopened : Nesting.Reaches {} (encode source) s [0x27, 0x5C, 0xC3, 0xA9] := .piece rfl (.here _ _)
  have hended : Nesting.Reaches {} (encode source) s [] := .piece rfl (.piece rfl (.here _ _))
  have hwithin : withinDepth source = true := by
    rw [withinDepth_eq, hended.scan_eq, Nesting.scan]
    rfl
  have hthree : Visits source e 3 := hstates _ _ hopened
  have hseven : Visits source e 7 := hstates _ _ hended
  obtain ⟨hsound, hnext⟩ := hvisited e 3 hthree
  have hsplits : Splits source [0x27, 0x5C, 0xC3, 0xA9] :=
    Nesting.splits_step {} (show Splits source (0x60 :: [0x24, 0x7B, 0x27, 0x5C, 0xC3, 0xA9]) from .start source)
  have hstep : step source e 3 = .ok (e, 7) :=
    step_eq (s := s) (hopened.balanced Nesting.balanced_start) hsplits rfl
  have hdeep : step source e 3 ≠ .error .tooDeep := by simp [hstep]
  exact ⟨hthree, hsound, hseven, (hvisited e 7 hseven).1, (hnext (by decide)).resolve_left hdeep,
    haccepts.mp hwithin⟩

end Positions

end Reprl.Source
