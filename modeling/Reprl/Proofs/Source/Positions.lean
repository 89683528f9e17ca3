import Reprl.Proofs.Source.Boundary

/-! The scan for depth by positions in a text, with a check wherever it could break down: when it
reads a byte, cuts a word out of the text, takes levels from its estimate or goes on to the next
piece. What is read at a position is what is read from the rest of the text there. -/

namespace Reprl.Source

open Reprl.Text

/-- How a scan breaks down. -/
inductive Fault where
  /-- A byte is read, or bytes are taken, beyond the end of the text. -/
  | outOfRange
  /-- A word begins or ends inside a character. -/
  | offBoundary
  /-- More levels are taken from the estimate than it has. -/
  | underflow
  /-- The text has more pieces than bytes. -/
  | endless
  deriving DecidableEq

inductive Stop where
  | tooDeep
  | broken (fault : Fault)
  deriving DecidableEq

abbrev Checked := Except Stop

def Checked.require (condition : Bool) (fault : Fault) : Checked Unit :=
  if condition then .ok () else .error (.broken fault)

/-- The open frames, innermost first, and the estimate. Nothing says that there is a frame. -/
structure Estimate where
  frames : List Frame := [{}]
  total : Nat := 0

namespace Estimate

def guarded (e : Estimate) : Checked Estimate :=
  if e.total ≤ maxDepth then .ok e else .error .tooDeep

/-- Takes levels off, which must be there. -/
def less (e : Estimate) (levels : Nat) : Checked Nat := do
  Checked.require (levels ≤ e.total) .underflow
  return e.total - levels

def chain (e : Estimate) : Checked Estimate :=
  match e.frames with
  | [] => e.guarded
  | top :: below =>
    guarded { frames := { top with chain := top.chain + 1 } :: below, total := e.total + 1 }

def openFrame (e : Estimate) (template : Bool) : Checked Estimate := do
  let e ← e.chain
  guarded { frames := { chain := 0, template } :: e.frames, total := e.total + 1 }

/-- Leaves the innermost frame if there are two of them at least. -/
def close (e : Estimate) : Checked (Option Frame × Estimate) :=
  match e.frames with
  | top :: outer :: below => do
    let total ← e.less (top.chain + 1)
    return (some top, { frames := outer :: below, total })
  | _ => return (none, e)

def reset (e : Estimate) : Checked Estimate :=
  match e.frames with
  | [] => return e
  | top :: below => do
    let total ← e.less top.chain
    return { frames := { top with chain := 0 } :: below, total }

end Estimate

namespace Positions

/-- The byte at a position, which must be in the text. -/
def byteAt (text : Bytes) (i : Nat) : Checked UInt8 :=
  match text[i]? with
  | some b => .ok b
  | none => .error (.broken .outOfRange)

/-- The bytes from a position on, which must not be beyond the end. -/
def bytesFrom (text : Bytes) (i : Nat) : Checked Bytes := do
  Checked.require (i ≤ text.length) .outOfRange
  return text.drop i

/-- The bytes between two positions, which must be between characters. -/
def slice (source : String) (first last : Nat) : Checked Bytes := do
  Checked.require (first ≤ last && String.Pos.Raw.isValid source ⟨first⟩ &&
    String.Pos.Raw.isValid source ⟨last⟩) .offBoundary
  return ((encode source).drop first).take (last - first)

def skipWhile (text : Bytes) (keep : UInt8 → Bool) (i : Nat) : Checked Nat :=
  if i < text.length then do
    if keep (← byteAt text i) then skipWhile text keep (i + 1) else return i
  else return i
termination_by text.length - i

/-- The rest of a quoted string. A backslash takes the next byte along, so `i` may pass the end. -/
def skipQuoted (text : Bytes) (quote : UInt8) (i : Nat) : Checked Nat :=
  if i < text.length then do
    let b ← byteAt text i
    if b = backslash then skipQuoted text quote (i + 2)
    else if b = lineFeed then return i
    else if b = quote then return i + 1
    else skipQuoted text quote (i + 1)
  else return text.length
termination_by text.length - i

def skipString (text : Bytes) (start : Nat) : Checked Nat := do
  let quote ← byteAt text start
  skipQuoted text quote (start + 1)

def skipTemplate (text : Bytes) (i : Nat) : Checked (Nat × Bool) :=
  if i < text.length then do
    let b ← byteAt text i
    if b = backslash then skipTemplate text (i + 2)
    else if b = backquote then return (i + 1, false)
    else if b = dollar ∧ text[i + 1]? = some openBrace then return (i + 2, true)
    else skipTemplate text (i + 1)
  else return (text.length, false)
termination_by text.length - i

/-- Where a mark first begins. -/
def find? (mark : Bytes) : Bytes → Option Nat
  | [] => none
  | b :: rest => if mark.isPrefixOf (b :: rest) then some 0 else (find? mark rest).map (· + 1)

def skipPast (text mark : Bytes) (start : Nat) : Checked Nat := do
  let rest ← bytesFrom text (min start text.length)
  return match find? mark rest with
    | some found => start + found + mark.length
    | none => text.length

def elseFollows (text : Bytes) (i : Nat) : Checked Bool := do
  let start ← skipWhile text isSpaceByte i
  let rest ← bytesFrom text (min start text.length)
  return elseWord.isPrefixOf rest && !rest[4]?.any isWordByte

def settle (text : Bytes) (e : Estimate) (i : Nat) : Checked Estimate := do
  if ← elseFollows text i then return e else e.reset

def template (text : Bytes) (e : Estimate) (i : Nat) : Checked (Estimate × Nat) := do
  let (next, opened) ← skipTemplate text i
  if opened then return (← e.openFrame true, next) else return (e, next)

def closed (text : Bytes) (e : Estimate) (b : UInt8) (i : Nat) : Checked (Estimate × Nat) := do
  let (frame, e) ← e.close
  if frame.any (·.template) then template text e i
  else if b = closeBrace then return (← settle text e i, i)
  else return (e, i)

def word (source : String) (e : Estimate) (i : Nat) : Checked (Estimate × Nat) := do
  let last ← skipWhile (encode source) isWordByte i
  if chainingWords.contains (← slice source i last) then return (← e.chain, last)
  else return (e, last)

/-- Reads a piece that starts with a byte: the estimate after it and the position behind it. -/
def take (source : String) (e : Estimate) (b : UInt8) (i : Nat) :
    Nesting.Piece → Checked (Estimate × Nat)
  | .quoted => return (e, ← skipString (encode source) i)
  | .template => template (encode source) e (i + 1)
  | .lineComment => return (e, ← skipPast (encode source) [lineFeed] (i + 2))
  | .blockComment => return (e, ← skipPast (encode source) [star, slash] (i + 2))
  | .opener => return (← e.openFrame false, i + 1)
  | .closer => closed (encode source) e b (i + 1)
  | .separator => return (← settle (encode source) e (i + 1), i + 1)
  | .operator => return (← e.chain, i + 1)
  | .number => return (e, ← skipWhile (encode source) isNumberByte i)
  | .word => word source e i
  | .other => return (e, i + 1)

def step (source : String) (e : Estimate) (i : Nat) : Checked (Estimate × Nat) := do
  let b ← byteAt (encode source) i
  take source e b i (Nesting.pieceOf b (encode source)[i + 1]?)

/-- Reads pieces up to the end of the text, at most as many as `pieces`. -/
def scan (source : String) : Nat → Estimate → Nat → Checked Estimate
  | pieces, e, i =>
    if i < (encode source).length then
      match pieces with
      | 0 => .error (.broken .endless)
      | pieces + 1 => do
        let (e, i) ← step source e i
        scan source pieces e i
    else return e

/-- The scan of a whole text. No text has more pieces than bytes. -/
def check (source : String) : Checked Estimate := scan source (encode source).length {} 0

/-- The estimates at the positions at which the scan begins a piece, or at the end of the text. -/
inductive Visits (source : String) : Estimate → Nat → Prop
  | start : Visits source {} 0
  | piece {e e' : Estimate} {i j : Nat} (h : Visits source e i) (hi : i < (encode source).length)
      (hstep : step source e i = .ok (e', j)) : Visits source e' j

section Reading

variable {text rest : Bytes} {i : Nat} {b : UInt8}

theorem lt_of_drop (h : text.drop i = b :: rest) : i < text.length := by
  by_contra hi
  rw [List.drop_eq_nil_of_le (Nat.not_lt.mp hi)] at h
  cases h

theorem drop_succ (h : text.drop i = b :: rest) : text.drop (i + 1) = rest := by
  rw [← List.tail_drop, h, List.tail_cons]

theorem byteAt_of_drop (h : text.drop i = b :: rest) : byteAt text i = .ok b := by
  have hb : text[i]? = some b := by rw [← List.head?_drop, h, List.head?_cons]
  rw [byteAt, hb]

theorem getElem?_succ (h : text.drop i = b :: rest) : text[i + 1]? = rest.head? := by
  rw [← List.head?_drop, drop_succ h]

theorem length_sub (h : text.drop i = rest) (hi : i ≤ text.length) : text.length - rest.length = i := by
  rw [← h, List.length_drop]
  omega

theorem bytesFrom_of_suffix (h : rest <:+ text) :
    bytesFrom text (min (text.length - rest.length) text.length) = .ok rest := by
  have hmin : min (text.length - rest.length) text.length = text.length - rest.length := by omega
  have hle : text.length - rest.length ≤ text.length := Nat.sub_le _ _
  rw [hmin, bytesFrom, Checked.require, decide_eq_true hle, ← List.suffix_iff_eq_drop.mp h]
  rfl

theorem suffix_of_drop (h : text.drop i = rest) : rest <:+ text := h ▸ List.drop_suffix i text

theorem skipWhile_eq (h : text.drop i = rest) (hi : i ≤ text.length) (keep : UInt8 → Bool) :
    skipWhile text keep i = .ok (text.length - (rest.dropWhile keep).length) := by
  induction rest generalizing i with
  | nil =>
    have hend : text.length ≤ i := List.drop_eq_nil_iff.mp h
    rw [skipWhile, if_neg (Nat.not_lt.mpr hend), List.dropWhile_nil, Nat.le_antisymm hi hend]
    rfl
  | cons b rest ih =>
    have hlt := lt_of_drop h
    rw [skipWhile, if_pos hlt, byteAt_of_drop h]
    change (if keep b = true then _ else _) = _
    by_cases hb : keep b = true
    · rw [if_pos hb, List.dropWhile_cons_of_pos hb]
      exact ih (drop_succ h) hlt
    · rw [if_neg hb, List.dropWhile_cons_of_neg hb, length_sub h hi]
      rfl

theorem skipQuoted_eq (h : text.drop i = rest) (quote : UInt8) :
    skipQuoted text quote i = .ok (text.length - (Source.skipString quote rest).length) := by
  -- On the length of the rest, since an escape takes two bytes.
  induction hn : rest.length using Nat.strong_induction_on generalizing i rest with
  | h n ih =>
    cases rest with
    | nil =>
      rw [skipQuoted, if_neg (Nat.not_lt.mpr (List.drop_eq_nil_iff.mp h))]
      rfl
    | cons b rest =>
      have hlt := lt_of_drop h
      have hnext := drop_succ h
      have hafter : text.drop (i + 2) = rest.tail := by rw [← hnext, List.tail_drop]
      have hlength : rest.length < n := by rw [← hn, List.length_cons]; omega
      rw [skipQuoted, if_pos hlt, byteAt_of_drop h, skipString_cons]
      change (if b = backslash then _ else _) = _
      by_cases hescape : b = backslash
      · rw [if_pos hescape, if_pos hescape]
        exact ih _ (by rw [List.length_tail]; omega) hafter rfl
      · rw [if_neg hescape, if_neg hescape]
        by_cases hfeed : b = lineFeed
        · rw [if_pos hfeed, if_pos hfeed, length_sub h (Nat.le_of_lt hlt)]
          rfl
        · rw [if_neg hfeed, if_neg hfeed]
          by_cases hquote : b = quote
          · rw [if_pos hquote, if_pos hquote, length_sub hnext hlt]
            rfl
          · rw [if_neg hquote, if_neg hquote]
            exact ih _ hlength hnext rfl

theorem skipTemplate_eq (h : text.drop i = rest) :
    skipTemplate text i =
      .ok (text.length - (Source.skipTemplate rest).1.length, (Source.skipTemplate rest).2) := by
  induction hn : rest.length using Nat.strong_induction_on generalizing i rest with
  | h n ih =>
    cases rest with
    | nil =>
      rw [skipTemplate, if_neg (Nat.not_lt.mpr (List.drop_eq_nil_iff.mp h))]
      rfl
    | cons b rest =>
      have hlt := lt_of_drop h
      have hnext := drop_succ h
      have hafter : text.drop (i + 2) = rest.tail := by rw [← hnext, List.tail_drop]
      have hlength : rest.length < n := by rw [← hn, List.length_cons]; omega
      rw [skipTemplate, if_pos hlt, byteAt_of_drop h, skipTemplate_cons]
      change (if b = backslash then _ else _) = _
      by_cases hescape : b = backslash
      · rw [if_pos hescape, if_pos hescape]
        exact ih _ (by rw [List.length_tail]; omega) hafter rfl
      · rw [if_neg hescape, if_neg hescape]
        by_cases hquote : b = backquote
        · rw [if_pos hquote, if_pos hquote, length_sub hnext hlt]
          rfl
        · rw [if_neg hquote, if_neg hquote, getElem?_succ h]
          by_cases hopens : b = dollar ∧ rest.head? = some openBrace
          · have hlt' : i + 1 < text.length := by
              cases rest with
              | nil => cases hopens.2
              | cons _ _ => exact lt_of_drop hnext
            rw [if_pos hopens, if_pos hopens, length_sub hafter hlt']
            rfl
          · rw [if_neg hopens, if_neg hopens]
            exact ih _ hlength hnext rfl

/-- What is left behind the first mark. -/
def pastMark (mark rest : Bytes) : Bytes :=
  match find? mark rest with
  | some found => rest.drop (found + mark.length)
  | none => []

theorem le_length_of_find? {mark : Bytes} {found : Nat} (h : find? mark rest = some found) :
    found + mark.length ≤ rest.length := by
  induction rest generalizing found with
  | nil => cases h
  | cons b rest ih =>
    rw [find?] at h
    split at h
    · next hprefix =>
      cases h
      have hle := (List.isPrefixOf_iff_prefix.mp hprefix).length_le
      omega
    · obtain ⟨k, hk, rfl⟩ := Option.map_eq_some_iff.mp h
      have hle := ih hk
      rw [List.length_cons]
      omega

theorem skipPast_eq (h : text.drop i = rest) (hi : i ≤ text.length) (mark : Bytes) :
    skipPast text mark i = .ok (text.length - (pastMark mark rest).length) := by
  have hrest := bytesFrom_of_suffix (suffix_of_drop h)
  rw [length_sub h hi] at hrest
  have hlength : rest.length = text.length - i := by rw [← h, List.length_drop]
  rw [skipPast, hrest, pastMark]
  change Except.ok _ = Except.ok _
  cases hfound : find? mark rest with
  | none => rfl
  | some found =>
    have hle := le_length_of_find? hfound
    simp only [List.length_drop, Except.ok.injEq]
    omega

theorem skipLine_eq (rest : Bytes) : skipLine rest = pastMark [lineFeed] rest := by
  induction rest with
  | nil => rfl
  | cons b rest ih =>
    by_cases hb : b = lineFeed
    · simp [skipLine, pastMark, find?, hb]
    · have hne : ¬lineFeed = b := fun he => hb he.symm
      rw [skipLine, if_neg hb, ih]
      cases hfound : find? [lineFeed] rest <;> simp [pastMark, find?, hne, hfound]

theorem skipBlock_eq (rest : Bytes) : skipBlock rest = pastMark [star, slash] rest := by
  induction rest with
  | nil => rfl
  | cons b rest ih =>
    rw [skipBlock_cons]
    by_cases hend : b = star ∧ rest.head? = some slash
    · obtain ⟨rfl, hslash⟩ := hend
      cases rest with
      | nil => cases hslash
      | cons next rest =>
        cases hslash
        simp [pastMark, find?]
    · have hmark : ([star, slash].isPrefixOf (b :: rest)) = false := by
        cases rest with
        | nil => simp [List.isPrefixOf]
        | cons next rest =>
          simp only [List.head?_cons, Option.some.injEq] at hend
          by_contra hmark
          simp only [List.isPrefixOf, Bool.not_eq_false, Bool.and_eq_true, beq_iff_eq] at hmark
          exact hend ⟨hmark.1.symm, hmark.2.1.symm⟩
      rw [if_neg hend, ih]
      cases hfound : find? [star, slash] rest <;> simp [pastMark, find?, hmark, hfound]

theorem elseFollows_eq (h : text.drop i = rest) (hi : i ≤ text.length) :
    elseFollows text i = .ok (Source.elseFollows rest) := by
  have hsuffix : rest.dropWhile isSpaceByte <:+ text :=
    (List.dropWhile_suffix isSpaceByte).trans (suffix_of_drop h)
  rw [elseFollows, skipWhile_eq h hi]
  change (bytesFrom text (min _ text.length) >>= _) = _
  rw [bytesFrom_of_suffix hsuffix, Source.elseFollows, List.head?_drop]
  rfl

end Reading

end Positions

end Reprl.Source
