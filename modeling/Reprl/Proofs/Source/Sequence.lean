import Mathlib.Data.List.TakeWhile
import Reprl.Proofs.Source.Nesting

/-! Statements one after another. What a lexical piece takes from a text is the same whatever is
appended behind, as long as something is left over. So the scan of a text whose last byte ends a
statement is the scan of the text alone up to that byte, and from there on it starts anew. -/

namespace Reprl.Source

open Reprl.Text

section Pieces

theorem skipString_cons (quote b : UInt8) (rest : List UInt8) :
    skipString quote (b :: rest) =
      if b = backslash then skipString quote rest.tail
      else if b = lineFeed then b :: rest
      else if b = quote then rest
      else skipString quote rest := by
  cases rest <;> rfl

theorem skipTemplate_cons (b : UInt8) (rest : List UInt8) :
    skipTemplate (b :: rest) =
      if b = backslash then skipTemplate rest.tail
      else if b = backquote then (rest, false)
      else if b = dollar ∧ rest.head? = some openBrace then (rest.tail, true)
      else skipTemplate rest := by
  cases rest <;> simp [skipTemplate]

theorem skipBlock_cons (b : UInt8) (rest : List UInt8) :
    skipBlock (b :: rest) =
      if b = star ∧ rest.head? = some slash then rest.tail else skipBlock rest := by
  cases rest <;> simp [skipBlock]

variable {quote : UInt8} {bytes : List UInt8} {p : UInt8 → Bool}

theorem suffix_cons_cons {after : List UInt8} (h : after <:+ bytes) (a b : UInt8) :
    after <:+ a :: b :: bytes :=
  (h.trans (List.suffix_cons b bytes)).trans (List.suffix_cons a _)

theorem skipString_suffix (quote : UInt8) (bytes : List UInt8) : skipString quote bytes <:+ bytes := by
  fun_induction skipString quote bytes <;> grind [suffix_cons_cons]

theorem skipTemplate_suffix (bytes : List UInt8) : (skipTemplate bytes).1 <:+ bytes := by
  fun_induction skipTemplate bytes <;> grind [suffix_cons_cons]

theorem skipLine_suffix (bytes : List UInt8) : skipLine bytes <:+ bytes := by
  fun_induction skipLine bytes <;> grind

theorem skipBlock_suffix (bytes : List UInt8) : skipBlock bytes <:+ bytes := by
  fun_induction skipBlock bytes <;> grind [suffix_cons_cons]

theorem skipString_append (h : skipString quote bytes ≠ []) (more : List UInt8) :
    skipString quote (bytes ++ more) = skipString quote bytes ++ more := by
  fun_induction skipString quote bytes <;> grind [skipString_cons, skipString]

theorem skipTemplate_append (h : (skipTemplate bytes).1 ≠ []) (more : List UInt8) :
    skipTemplate (bytes ++ more) = ((skipTemplate bytes).1 ++ more, (skipTemplate bytes).2) := by
  fun_induction skipTemplate bytes <;> grind [skipTemplate_cons, skipTemplate]

theorem skipLine_append (h : skipLine bytes ≠ []) (more : List UInt8) :
    skipLine (bytes ++ more) = skipLine bytes ++ more := by
  fun_induction skipLine bytes <;> grind [skipLine]

theorem skipBlock_append (h : skipBlock bytes ≠ []) (more : List UInt8) :
    skipBlock (bytes ++ more) = skipBlock bytes ++ more := by
  fun_induction skipBlock bytes <;> grind [skipBlock_cons, skipBlock]

theorem dropWhile_append_of_ne_nil (h : bytes.dropWhile p ≠ []) (more : List UInt8) :
    (bytes ++ more).dropWhile p = bytes.dropWhile p ++ more := by
  rw [List.dropWhile_append, if_neg (by simpa using h)]

theorem takeWhile_append_of_ne_nil (h : bytes.dropWhile p ≠ []) (more : List UInt8) :
    (bytes ++ more).takeWhile p = bytes.takeWhile p := by
  rw [List.takeWhile_append, if_neg]
  intro hlength
  have hsplit := congrArg List.length (List.takeWhile_append_dropWhile (p := p) (l := bytes))
  rw [List.length_append] at hsplit
  exact h (List.length_eq_zero_iff.mp (by omega))

end Pieces

/-- The text begins with the keyword `else`, after white space. -/
def StartsWithElse (bytes : List UInt8) : Prop :=
  ∃ blanks rest, bytes = blanks ++ elseWord ++ rest ∧ (∀ b ∈ blanks, isSpaceByte b) ∧
    ∀ b ∈ rest.head?, isWordByte b = false

theorem elseFollows_iff (bytes : List UInt8) : elseFollows bytes = true ↔ StartsWithElse bytes := by
  constructor
  · intro h
    obtain ⟨hlead, hword⟩ := Bool.and_eq_true_iff.mp h
    obtain ⟨rest, hrest⟩ := List.isPrefixOf_iff_prefix.mp hlead
    refine ⟨bytes.takeWhile isSpaceByte, rest, ?_, fun _ => List.mem_takeWhile_imp, ?_⟩
    · rw [List.append_assoc, hrest, List.takeWhile_append_dropWhile]
    · rw [← hrest] at hword
      intro b hb
      simpa [elseWord, Option.mem_def.mp hb] using hword
  · rintro ⟨blanks, rest, rfl, hblanks, hrest⟩
    have hword : (blanks ++ elseWord ++ rest).dropWhile isSpaceByte = elseWord ++ rest := by
      rw [List.append_assoc, List.dropWhile_append_of_pos hblanks]
      rfl
    rw [elseFollows, hword]
    have hhead : rest.head?.any isWordByte = false := by
      cases h : rest.head? with
      | none => rfl
      | some b => simpa using hrest b h
    simp [elseWord, hhead]

/-- The bytes that end a statement. -/
def EndsStatement (b : UInt8) : Prop := b = byte ';' ∨ b = closeBrace

/-- An ending byte is neither white space nor a part of `else`, so the lookahead stops there. -/
theorem elseFollows_append {bytes : List UInt8} {c : UInt8} (hc : EndsStatement c)
    (hend : [c] <:+ bytes) (more : List UInt8) : elseFollows (bytes ++ more) = elseFollows bytes := by
  obtain ⟨init, rfl⟩ := hend
  have hspace : isSpaceByte c = false := by rcases hc with rfl | rfl <;> rfl
  have hword : c ∉ elseWord := by rcases hc with rfl | rfl <;> decide
  have hdrop (more : List UInt8) :
      (init ++ [c] ++ more).dropWhile isSpaceByte = init.dropWhile isSpaceByte ++ c :: more := by
    rw [List.append_assoc, List.dropWhile_append]
    split
    · next h => simp [List.isEmpty_iff.mp h, hspace]
    · rfl
  have halone := hdrop []
  rw [List.append_nil] at halone
  rw [elseFollows, elseFollows, hdrop, halone]
  -- The ending byte stands at one of the five places that the lookahead sees, or beyond.
  rcases init.dropWhile isSpaceByte with _ | ⟨_, _ | ⟨_, _ | ⟨_, _ | ⟨_, _ | ⟨_, _⟩⟩⟩⟩⟩ <;>
    grind [elseWord]

namespace Nesting

variable {s next : Nesting} {b c : UInt8} {rest after text : List UInt8}

theorem take_suffix (s : Nesting) (b : UInt8) (rest : List UInt8) (piece : Piece) :
    (s.take b rest piece).2 <:+ rest := by
  have hskipped {after : List UInt8} (h : after <:+ rest.drop 1) : after <:+ rest :=
    h.trans (List.drop_suffix 1 rest)
  cases piece with
  | quoted => exact skipString_suffix b rest
  | template => exact skipTemplate_suffix rest
  | lineComment => exact hskipped (skipLine_suffix _)
  | blockComment => exact hskipped (skipBlock_suffix _)
  | closer =>
    have := skipTemplate_suffix rest
    grind [take, closed, template]
  | number => exact List.dropWhile_suffix isNumberByte
  | word => exact List.dropWhile_suffix isWordByte
  | opener | separator | operator | other => exact List.suffix_rfl

theorem step_suffix (s : Nesting) (b : UInt8) (rest : List UInt8) : (s.step b rest).2 <:+ rest := by
  rw [step_eq_take]
  exact s.take_suffix b rest _

theorem template_append (h : (s.template rest).2 ≠ []) (more : List UInt8) :
    s.template (rest ++ more) = ((s.template rest).1, (s.template rest).2 ++ more) := by
  have hskip := skipTemplate_append h more
  simp only [template, hskip]

theorem settle_append (hc : EndsStatement c) (hend : [c] <:+ rest) (s : Nesting) (more : List UInt8) :
    s.settle (rest ++ more) = s.settle rest := by
  rw [settle, settle, elseFollows_append hc hend]

theorem closed_append (hc : EndsStatement c) (hend : [c] <:+ rest) (h : (s.closed b rest).2 ≠ [])
    (more : List UInt8) :
    s.closed b (rest ++ more) = ((s.closed b rest).1, (s.closed b rest).2 ++ more) := by
  simp only [closed, settle_append hc hend] at h ⊢
  split
  · next frame outer hclose =>
    rw [hclose] at h
    simp only at h
    split
    · next hf =>
      rw [if_pos hf] at h
      exact template_append h more
    · rfl
  · rfl

theorem word_append (h : (s.word b rest).2 ≠ []) (more : List UInt8) :
    s.word b (rest ++ more) = ((s.word b rest).1, (s.word b rest).2 ++ more) := by
  rw [word, word, takeWhile_append_of_ne_nil h, dropWhile_append_of_ne_nil h]

theorem take_append {piece : Piece} (hc : EndsStatement c) (hend : [c] <:+ rest)
    (h : (s.take b rest piece).2 ≠ []) (more : List UInt8) :
    s.take b (rest ++ more) piece =
      ((s.take b rest piece).1, (s.take b rest piece).2 ++ more) := by
  have hne : rest ≠ [] := hend.ne_nil (List.cons_ne_nil c [])
  have hdrop : (rest ++ more).drop 1 = rest.drop 1 ++ more :=
    List.drop_append_of_le_length (List.length_pos_iff.mpr hne)
  cases piece with
  | quoted => exact congrArg (some s, ·) (skipString_append h more)
  | template => exact template_append h more
  | lineComment =>
    simp only [take, hdrop] at h ⊢
    rw [skipLine_append h]
  | blockComment =>
    simp only [take, hdrop] at h ⊢
    rw [skipBlock_append h]
  | closer => exact closed_append hc hend h more
  | separator => exact congrArg (some ·, rest ++ more) (settle_append hc hend s more)
  | number => exact congrArg (some s, ·) (dropWhile_append_of_ne_nil h more)
  | word => exact word_append h more
  | opener | operator | other => rfl

/-- A piece that leaves something over, with an ending byte last, does not see what is behind. -/
theorem step_append (hc : EndsStatement c) (hend : [c] <:+ rest) (h : (s.step b rest).2 ≠ [])
    (more : List UInt8) :
    s.step b (rest ++ more) = ((s.step b rest).1, (s.step b rest).2 ++ more) := by
  have hne : rest ≠ [] := hend.ne_nil (List.cons_ne_nil c [])
  have hhead : (rest ++ more).head? = rest.head? := by
    rw [List.head?_append, List.head?_eq_some_head hne, Option.some_or]
  rw [step_eq_take] at h ⊢
  rw [step_eq_take, hhead]
  exact take_append hc hend h more

/-- The scan of a text arrives in a state at what is left of the text, piece by piece. -/
inductive Reaches : Nesting → List UInt8 → Nesting → List UInt8 → Prop
  | here (s : Nesting) (text : List UInt8) : Reaches s text s text
  | piece {s next t : Nesting} {b : UInt8} {rest after text : List UInt8}
      (step : s.step b rest = (some next, after)) (on : Reaches next after t text) :
      Reaches s (b :: rest) t text

namespace Reaches

variable {t : Nesting} {more : List UInt8}

theorem suffix (h : Reaches s text t rest) : rest <:+ text := by
  induction h with
  | here s text => exact List.suffix_rfl
  | @piece s _ _ b rest after _ hstep _ ih =>
    have hafter : after <:+ rest := by simpa [hstep] using step_suffix s b rest
    exact (ih.trans hafter).trans (List.suffix_cons b rest)

theorem balanced (h : Reaches s text t rest) (hs : Balanced s) : Balanced t := by
  induction h with
  | here s text => exact hs
  | piece hstep _ ih => exact ih (hs.step (congrArg Prod.fst hstep))

theorem scan_eq (h : Reaches s text t rest) : s.scan text = t.scan rest := by
  induction h with
  | here s text => rfl
  | piece hstep _ ih => rw [scan_cons hstep, ih]

theorem append (h : Reaches s text t [c]) (hc : EndsStatement c) (more : List UInt8) :
    Reaches s (text ++ more) t (c :: more) := by
  generalize hlast : [c] = last at h
  induction h with
  | here s text =>
    subst hlast
    exact .here s (c :: more)
  | @piece s next t b rest after _ hstep hon ih =>
    have hend : [c] <:+ after := hlast ▸ hon.suffix
    have hafter : after <:+ rest := by simpa [hstep] using step_suffix s b rest
    have hmore := step_append (s := s) (b := b) hc (hend.trans hafter)
      (by simpa [hstep] using hend.ne_nil (List.cons_ne_nil c [])) more
    rw [hstep] at hmore
    exact .piece hmore (ih hlast)

end Reaches

theorem scan_last {fin : Nesting} (h : s.scan [c] = some fin) : s.step c [] = (some fin, []) := by
  rw [scan] at h
  split at h
  · next next after heq =>
    have hafter := length_step s c []
    rw [heq] at hafter
    obtain rfl := List.eq_nil_of_length_eq_zero (Nat.le_zero.mp hafter)
    rw [scan] at h
    rw [heq, h]
  · cases h

/-- An ending byte that was the last of a text is read the same with more behind it, when nothing
is chained after it. -/
theorem step_last {fin : Nesting} (hs : Balanced s) (hc : EndsStatement c)
    (h : s.step c [] = (some fin, [])) (hchain : fin.top.chain = 0) {more : List UInt8}
    (hmore : elseFollows more = false) : s.step c more = (some fin, more) := by
  have hsettle (t : Nesting) : t.settle more = t.settle [] := by
    rw [settle, hmore]
    rfl
  rcases hc with rfl | rfl
  · have hstep (rest : List UInt8) : s.step (byte ';') rest = (some (s.settle rest), rest) := rfl
    rw [hstep] at h ⊢
    rw [hsettle, (Prod.mk.inj h).1]
  · have hstep (rest : List UInt8) : s.step closeBrace rest = s.closed closeBrace rest := rfl
    rw [hstep] at h ⊢
    simp only [closed, if_true, hsettle] at h ⊢
    split at h
    · next frame outer hclose =>
      obtain ⟨-, hpos⟩ := hs.close hclose
      split at h
      -- The frame around a substitution has the template chained, so it was none.
      · have hfin : outer = fin := Option.some.inj (Prod.mk.inj h).1
        exact absurd hchain (hfin ▸ hpos).ne'
      · next htemplate =>
        rw [if_neg htemplate]
        rw [(Prod.mk.inj h).1]
    · rw [(Prod.mk.inj h).1]

end Nesting

/-- The scan accepts the source, ends with only the bottom frame and nothing chained, and takes
its last byte, which ends a statement, as code. -/
structure Closed (source : String) : Prop where
  accepted : ∃ s, Nesting.scan {} (encode source) = some s ∧ s.below = [] ∧ s.top.chain = 0
  ended : ∃ s c, EndsStatement c ∧ Nesting.Reaches {} (encode source) s [c]

namespace Closed

variable {source : String} {s fin : Nesting} {c : UInt8}

theorem of_reaches (h : Nesting.Reaches {} (encode source) s [c]) (hc : EndsStatement c)
    (hstep : s.step c [] = (some fin, [])) (hbelow : fin.below = []) (hchain : fin.top.chain = 0) :
    Closed source where
  accepted := by
    refine ⟨fin, ?_, hbelow, hchain⟩
    rw [h.scan_eq, Nesting.scan_cons hstep, Nesting.scan]
  ended := ⟨s, c, hc, h⟩

theorem suffix (h : Closed source) : ∃ c, EndsStatement c ∧ [c] <:+ encode source := by
  obtain ⟨-, _, c, hc, hreaches⟩ := h
  exact ⟨c, hc, hreaches.suffix⟩

/-- Behind a closed source the scan starts anew. -/
theorem scan_append (h : Closed source) {more : List UInt8} (hmore : elseFollows more = false) :
    Nesting.scan {} (encode source ++ more) = Nesting.scan {} more := by
  obtain ⟨⟨fin, hscan, hbelow, hchain⟩, s, c, hc, hreaches⟩ := h
  have hbalanced := hreaches.balanced Nesting.balanced_start
  rw [hreaches.scan_eq] at hscan
  have hlast := Nesting.scan_last hscan
  obtain rfl := (hbalanced.step (congrArg Prod.fst hlast)).eq_start hbelow hchain
  rw [(hreaches.append hc more).scan_eq,
    Nesting.scan_cons (Nesting.step_last hbalanced hc hlast hchain hmore)]

theorem withinDepth_append (h : Closed source) {more : String} (hmore : ¬StartsWithElse (encode more)) :
    withinDepth (source ++ more) = withinDepth more := by
  rw [← elseFollows_iff, Bool.not_eq_true] at hmore
  rw [withinDepth_eq, withinDepth_eq, encode_append, h.scan_append hmore]

theorem startsWithElse_append (h : Closed source) (more : String) :
    StartsWithElse (encode (source ++ more)) ↔ StartsWithElse (encode source) := by
  obtain ⟨c, hc, hend⟩ := h.suffix
  rw [encode_append, ← elseFollows_iff, ← elseFollows_iff, elseFollows_append hc hend]

theorem withinDepth_join {parts : List String} (h : ∀ part ∈ parts, Closed part)
    (helse : ∀ part ∈ parts.tail, ¬StartsWithElse (encode part)) :
    withinDepth (String.join parts) = true := by
  induction parts with
  | nil =>
    rw [withinDepth_eq]
    change (Nesting.scan {} []).isSome = true
    rw [Nesting.scan, Option.isSome_some]
  | cons part parts ih =>
    obtain ⟨hpart, hparts⟩ := List.forall_mem_cons.mp h
    rw [String.join_cons, hpart.withinDepth_append]
    · exact ih hparts fun p hp => helse p (List.mem_of_mem_tail hp)
    · cases parts with
      | nil => exact fun hnil => absurd ((elseFollows_iff []).mpr hnil) Bool.false_ne_true
      | cons second parts =>
        rw [String.join_cons, (hparts second List.mem_cons_self).startsWithElse_append]
        exact helse second List.mem_cons_self

end Closed

/-- Behind a closed source, what is accepted is what is accepted alone, unless it goes on with an
`else`. So closed sources one after another are accepted however many they are. -/
theorem closed_sources_are_judged_apart :
    (∀ source more, Closed source → ¬StartsWithElse (encode more) →
      withinDepth (source ++ more) = withinDepth more) ∧
    ∀ parts : List String, (∀ part ∈ parts, Closed part) →
      (∀ part ∈ parts.tail, ¬StartsWithElse (encode part)) →
      withinDepth (String.join parts) = true :=
  ⟨fun _ _ hsource => hsource.withinDepth_append, fun _ => Closed.withinDepth_join⟩

/-- A call in a template, and a block with a string of brackets. -/
theorem template_and_block_are_judged_apart :
    let call := "`$\x7bf()\x7d`;"
    let block := "\x7b '((' \x7d"
    Closed call ∧ Closed block ∧ ¬StartsWithElse (encode block) ∧
      withinDepth (call ++ block) = withinDepth block ∧
      withinDepth (String.join [block, call, block]) = true := by
  intro call block
  have hcall : Closed call :=
    .of_reaches (.piece rfl (.piece rfl (.piece rfl (.piece rfl (.piece rfl (.here _ _))))))
      (Or.inl rfl) rfl rfl rfl
  have hblock : Closed block :=
    .of_reaches (.piece rfl (.piece rfl (.piece rfl (.piece rfl (.here _ _)))))
      (Or.inr rfl) rfl rfl rfl
  have hcallElse : ¬StartsWithElse (encode call) := by
    rw [← elseFollows_iff]
    decide
  have hblockElse : ¬StartsWithElse (encode block) := by
    rw [← elseFollows_iff]
    decide
  obtain ⟨happend, hjoin⟩ := closed_sources_are_judged_apart
  refine ⟨hcall, hblock, hblockElse, happend call block hcall hblockElse, hjoin _ ?_ ?_⟩
  · simp [hcall, hblock]
  · simp [hcallElse, hblockElse]

end Reprl.Source
