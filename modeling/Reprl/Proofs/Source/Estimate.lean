import Reprl.Proofs.Source.Positions

/-! The scan by positions is the scan of what is left of the text, so no check in it ever fails. -/

namespace Reprl.Source

open Reprl.Text

namespace Estimate

variable {s : Nesting}

def ofNesting (s : Nesting) : Estimate := ⟨s.frames, s.total⟩

def verdict : Option Nesting → Checked Estimate
  | some s => .ok (ofNesting s)
  | none => .error .tooDeep

theorem guarded_ofNesting (s : Nesting) : (ofNesting s).guarded = verdict s.guarded := by
  rw [guarded, Nesting.guarded]
  by_cases h : s.total ≤ maxDepth
  · rw [if_pos h, if_pos (show (ofNesting s).total ≤ maxDepth from h)]
    rfl
  · rw [if_neg h, if_neg (show ¬(ofNesting s).total ≤ maxDepth from h)]
    rfl

theorem chain_ofNesting (s : Nesting) : (ofNesting s).chain = verdict s.chain :=
  guarded_ofNesting { s with top := { s.top with chain := s.top.chain + 1 }, total := s.total + 1 }

theorem openFrame_ofNesting (s : Nesting) (template : Bool) :
    (ofNesting s).openFrame template = verdict (s.openFrame template) := by
  rw [openFrame, chain_ofNesting, Nesting.openFrame]
  cases s.chain with
  | none => rfl
  | some s => exact guarded_ofNesting (s.push template)

theorem less_of_le {e : Estimate} {levels : Nat} (h : levels ≤ e.total) :
    e.less levels = .ok (e.total - levels) := by
  rw [less, Checked.require, decide_eq_true h]
  rfl

/-- The frame that is left and what is chained in it are levels of the estimate. -/
theorem close_ofNesting (h : s.Balanced) :
    (ofNesting s).close = .ok (match s.close with
      | some (frame, outer) => (some frame, ofNesting outer)
      | none => (none, ofNesting s)) := by
  obtain ⟨htotal, -, -⟩ := h
  obtain ⟨top, below, total⟩ := s
  cases below with
  | nil => rfl
  | cons outer below =>
    have hle : top.chain + 1 ≤ (ofNesting ⟨top, outer :: below, total⟩).total := by
      simp only [Nesting.frames, Nesting.chains_cons, List.length_cons] at htotal
      change top.chain + 1 ≤ total
      omega
    change ((ofNesting ⟨top, outer :: below, total⟩).less (top.chain + 1) >>= _) = _
    rw [less_of_le hle]
    rfl

theorem reset_ofNesting (h : s.Balanced) : (ofNesting s).reset = .ok (ofNesting s.reset) := by
  have hle : s.top.chain ≤ (ofNesting s).total := by
    have htotal := h.total
    simp only [Nesting.frames, Nesting.chains_cons] at htotal
    change s.top.chain ≤ s.total
    omega
  change ((ofNesting s).less s.top.chain >>= _) = _
  rw [less_of_le hle]
  rfl

end Estimate

namespace Positions

open Estimate

section Pieces

variable {source : String} {text rest : Bytes} {i : Nat} {b : UInt8} {s : Nesting}

/-- A state and what is left of a text, as an estimate and a position. -/
def outcome (text : Bytes) : Option Nesting × Bytes → Checked (Estimate × Nat)
  | (some s, rest) => .ok (ofNesting s, text.length - rest.length)
  | (none, _) => .error .tooDeep

theorem outcome_verdict (text : Bytes) (result : Option Nesting) (rest : Bytes) :
    (verdict result >>= fun e => .ok (e, text.length - rest.length)) = outcome text (result, rest) := by
  cases result <;> rfl

theorem settle_eq (hs : s.Balanced) (h : text.drop i = rest) (hi : i ≤ text.length) :
    settle text (ofNesting s) i = .ok (ofNesting (s.settle rest)) := by
  rw [settle, elseFollows_eq h hi, Nesting.settle]
  change (if Source.elseFollows rest = true then _ else _) = _
  by_cases helse : Source.elseFollows rest = true
  · rw [if_pos helse, if_pos helse]
    rfl
  · rw [if_neg helse, if_neg helse]
    exact reset_ofNesting hs

theorem template_eq (s : Nesting) (h : text.drop i = rest) :
    template text (ofNesting s) i = outcome text (s.template rest) := by
  rw [template, skipTemplate_eq h, Nesting.template]
  rcases Source.skipTemplate rest with ⟨after, _ | _⟩
  · rfl
  · change ((ofNesting s).openFrame true >>= _) = outcome text (s.openFrame true, after)
    rw [openFrame_ofNesting]
    exact outcome_verdict text _ after

theorem closed_eq (hs : s.Balanced) (b : UInt8) (h : text.drop i = rest) (hi : i ≤ text.length) :
    closed text (ofNesting s) b i = outcome text (s.closed b rest) := by
  have settled {t : Nesting} (ht : t.Balanced) :
      (if b = closeBrace then (settle text (ofNesting t) i >>= fun e => .ok (e, i))
        else Except.ok (ofNesting t, i)) =
      outcome text (some (if b = closeBrace then t.settle rest else t), rest) := by
    by_cases hb : b = closeBrace
    · rw [if_pos hb, if_pos hb, settle_eq ht h hi, outcome, length_sub h hi]
      rfl
    · rw [if_neg hb, if_neg hb, outcome, length_sub h hi]
  rw [closed, close_ofNesting hs, Nesting.closed]
  cases hclose : s.close with
  | none => exact settled hs
  | some result =>
    obtain ⟨frame, outer⟩ := result
    change (if frame.template = true then _ else _) = _
    by_cases htemplate : frame.template = true
    · simp only [if_pos htemplate]
      exact template_eq outer h
    · simp only [if_neg htemplate]
      exact settled (hs.close hclose).1

/-- A word begins and ends between characters. -/
theorem word_eq (s : Nesting) (hsplits : Splits source (b :: rest)) (hb : isWordByte b = true)
    (h : (encode source).drop i = b :: rest) :
    word source (ofNesting s) i = outcome (encode source) (s.word b rest) := by
  have hi := Nat.le_of_lt (lt_of_drop h)
  have hdrop : (b :: rest).dropWhile isWordByte = rest.dropWhile isWordByte :=
    List.dropWhile_cons_of_pos hb
  have hword : (b :: rest).takeWhile isWordByte = b :: rest.takeWhile isWordByte :=
    List.takeWhile_cons_of_pos hb
  have hlast : Splits source (rest.dropWhile isWordByte) :=
    hsplits.ragged.tail.dropWhile fun _ => isWordByte_of_high
  have hsplit := List.takeWhile_append_dropWhile (p := isWordByte) (l := b :: rest)
  rw [hdrop, hword] at hsplit
  have hlength := congrArg List.length hsplit
  rw [List.length_append] at hlength
  have hfirst := length_sub h hi
  -- The slice is as long as the word.
  have hslice : slice source i ((encode source).length - (rest.dropWhile isWordByte).length) =
      .ok (b :: rest.takeWhile isWordByte) := by
    have hvalid := hsplits.isValid
    rw [hfirst, ← String.Pos.Raw.isValid_eq_true_iff] at hvalid
    have hle : i ≤ (encode source).length - (rest.dropWhile isWordByte).length := by omega
    have hcut : (encode source).length - (rest.dropWhile isWordByte).length - i =
        (b :: rest.takeWhile isWordByte).length := by
      have htotal : (b :: rest).length = (encode source).length - i := by rw [← h, List.length_drop]
      omega
    rw [slice, h, hcut, ← hsplit, List.take_left, Checked.require, hvalid,
      String.Pos.Raw.isValid_eq_true_iff.mpr hlast.isValid, decide_eq_true hle]
    rfl
  rw [word, skipWhile_eq h hi, hdrop]
  change (slice source i _ >>= _) = _
  rw [hslice, Nesting.word]
  change (if chainingWords.contains (b :: rest.takeWhile isWordByte) then _ else _) = _
  by_cases hchains : b :: rest.takeWhile isWordByte ∈ chainingWords
  · rw [if_pos (List.contains_iff_mem.mpr hchains), if_pos hchains, chain_ofNesting]
    exact outcome_verdict _ _ _
  · rw [if_neg (fun h => hchains (List.contains_iff_mem.mp h)), if_neg hchains]
    rfl

theorem next_of_comment {next : Option UInt8}
    (h : Nesting.pieceOf b next = .lineComment ∨ Nesting.pieceOf b next = .blockComment) :
    next ≠ none := by
  grind [Nesting.pieceOf]

theorem isDigitByte_of_number {next : Option UInt8} (h : Nesting.pieceOf b next = .number) :
    isDigitByte b = true := by
  grind [Nesting.pieceOf]

theorem isWordByte_of_word {next : Option UInt8} (h : Nesting.pieceOf b next = .word) :
    isWordByte b = true := by
  grind [Nesting.pieceOf]

theorem skipPast_eq_of_comment (h : (encode source).drop i = b :: rest) (hne : rest.head? ≠ none)
    (mark : Bytes) : skipPast (encode source) mark (i + 2) =
      .ok ((encode source).length - (pastMark mark (rest.drop 1)).length) := by
  have hnext := drop_succ h
  have hdrop : (encode source).drop (i + 2) = rest.drop 1 := by rw [← hnext, List.drop_drop]
  cases rest with
  | nil => exact absurd rfl hne
  | cons next rest => exact skipPast_eq hdrop (lt_of_drop hnext) mark

/-- The piece at a position is the piece that what is left of the text begins with. -/
theorem take_eq (hs : s.Balanced) (hsplits : Splits source (b :: rest))
    (h : (encode source).drop i = b :: rest) {piece : Nesting.Piece}
    (hpiece : Nesting.pieceOf b rest.head? = piece) :
    take source (ofNesting s) b i piece = outcome (encode source) (s.take b rest piece) := by
  have hlt := lt_of_drop h
  have hnext := drop_succ h
  have hbehind : (encode source).length - rest.length = i + 1 := length_sub hnext hlt
  cases piece with
  | quoted =>
    rw [take, skipString, byteAt_of_drop h]
    change (skipQuoted (encode source) b (i + 1) >>= _) = _
    rw [skipQuoted_eq hnext]
    rfl
  | template => exact template_eq s hnext
  | lineComment =>
    rw [take, skipPast_eq_of_comment h (next_of_comment (.inl hpiece)), ← skipLine_eq]
    rfl
  | blockComment =>
    rw [take, skipPast_eq_of_comment h (next_of_comment (.inr hpiece)), ← skipBlock_eq]
    rfl
  | opener =>
    rw [take, openFrame_ofNesting, ← hbehind]
    exact outcome_verdict _ _ rest
  | closer => exact closed_eq hs b hnext hlt
  | separator =>
    rw [take, settle_eq hs hnext hlt, ← hbehind]
    rfl
  | operator =>
    rw [take, chain_ofNesting, ← hbehind]
    exact outcome_verdict _ _ rest
  | number =>
    have hnumber : isNumberByte b = true := by
      simp [isNumberByte, isAlphanumericByte, isDigitByte_of_number hpiece]
    rw [take, skipWhile_eq h (Nat.le_of_lt hlt), List.dropWhile_cons_of_pos hnumber]
    rfl
  | word => exact word_eq s hsplits (isWordByte_of_word hpiece) h
  | other =>
    rw [take, ← hbehind]
    rfl

theorem step_eq (hs : s.Balanced) (hsplits : Splits source (b :: rest))
    (h : (encode source).drop i = b :: rest) :
    step source (ofNesting s) i = outcome (encode source) (s.step b rest) := by
  rw [step, byteAt_of_drop h, Nesting.step_eq_take]
  change take source (ofNesting s) b i (Nesting.pieceOf b (encode source)[i + 1]?) = _
  rw [getElem?_succ h]
  exact take_eq hs hsplits h rfl

theorem drop_of_suffix {after : Bytes} (h : after <:+ text) : text.drop (text.length - after.length) = after :=
  (List.suffix_iff_eq_drop.mp h).symm

/-- The scan by positions is the scan of what is left of the text. -/
theorem scan_eq (hs : s.Balanced) (hsplits : Splits source rest) (h : (encode source).drop i = rest)
    {pieces : Nat} (hpieces : rest.length ≤ pieces) :
    scan source pieces (ofNesting s) i = verdict (s.scan rest) := by
  induction pieces generalizing s rest i with
  | zero =>
    obtain rfl := List.eq_nil_of_length_eq_zero (Nat.le_zero.mp hpieces)
    rw [scan, if_neg (Nat.not_lt.mpr (List.drop_eq_nil_iff.mp h)), Nesting.scan]
    rfl
  | succ pieces ih =>
    cases rest with
    | nil =>
      rw [scan, if_neg (Nat.not_lt.mpr (List.drop_eq_nil_iff.mp h)), Nesting.scan]
      rfl
    | cons b rest =>
      have hlength := Nesting.length_step s b rest
      have hafter := Nesting.splits_step s hsplits
      have hsuffix := (Nesting.step_suffix s b rest).trans (suffix_of_drop (drop_succ h))
      rw [scan, if_pos (lt_of_drop h)]
      change (step source (ofNesting s) i >>= _) = _
      rw [step_eq hs hsplits h]
      rcases hstep : s.step b rest with ⟨_ | next, after⟩
      · rw [Nesting.scan]
        split
        · next heq => simp [hstep] at heq
        · rfl
      · rw [hstep] at hlength hafter hsuffix
        have hfewer : after.length ≤ pieces := by
          have hle : after.length ≤ rest.length := hlength
          rw [List.length_cons] at hpieces
          omega
        rw [Nesting.scan_cons hstep]
        exact ih (hs.step (congrArg Prod.fst hstep)) hafter (drop_of_suffix hsuffix) hfewer

end Pieces

end Positions

end Reprl.Source
