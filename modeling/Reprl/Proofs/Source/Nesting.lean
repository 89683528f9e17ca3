import Reprl.Proofs.Text.Utf8
import Reprl.Source.Nesting

/-! The scan for depth. Its estimate counts the frames above the bottom one and all that is
chained in frames. To open a frame chains in the frame around it, so that every frame with
another one on top has something chained, and the bottom frame never belongs to a template. -/

namespace Reprl.Source

open Reprl.Text

theorem withinDepth_eq (source : String) :
    withinDepth source = (Nesting.scan {} (encode source)).isSome := by
  rw [withinDepth, toList_toUTF8]

namespace Nesting

theorem scan_cons {s next : Nesting} {b : UInt8} {rest after : List UInt8}
    (h : s.step b rest = (some next, after)) : s.scan (b :: rest) = next.scan after := by
  rw [scan]
  split
  · next heq =>
    rw [h] at heq
    cases heq
    rfl
  · next heq =>
    rw [h] at heq
    cases heq

/-- The kinds of lexical pieces. -/
inductive Piece where
  | quoted | template | lineComment | blockComment | opener | closer | separator | operator | number
  | word | other

/-- The kind of the piece that starts with a byte, as the next byte tells. -/
def pieceOf (b : UInt8) (next : Option UInt8) : Piece :=
  if b ∈ quotes then .quoted
  else if b = backquote then .template
  else if b = slash ∧ next = some slash then .lineComment
  else if b = slash ∧ next = some star then .blockComment
  else if b ∈ openers then .opener
  else if b ∈ closers then .closer
  else if b ∈ separators then .separator
  else if b ∈ operators then .operator
  else if isDigitByte b then .number
  else if isWordByte b then .word
  else .other

def take (s : Nesting) (b : UInt8) (rest : List UInt8) : Piece → Option Nesting × List UInt8
  | .quoted => (some s, skipString b rest)
  | .template => s.template rest
  | .lineComment => (some s, skipLine (rest.drop 1))
  | .blockComment => (some s, skipBlock (rest.drop 1))
  | .opener => (s.openFrame false, rest)
  | .closer => s.closed b rest
  | .separator => (some (s.settle rest), rest)
  | .operator => (s.chain, rest)
  | .number => (some s, rest.dropWhile isNumberByte)
  | .word => s.word b rest
  | .other => (some s, rest)

theorem step_eq_take (s : Nesting) (b : UInt8) (rest : List UInt8) :
    s.step b rest = s.take b rest (pieceOf b rest.head?) := by
  simp only [step, pieceOf, apply_ite (s.take b rest)]
  rfl

/-- All frames, the innermost first. -/
def frames (s : Nesting) : List Frame := s.top :: s.below

/-- How much is chained in some frames. -/
def chains (frames : List Frame) : Nat := frames.foldr (fun f n => f.chain + n) 0

@[simp] theorem chains_cons (f : Frame) (rest : List Frame) :
    chains (f :: rest) = f.chain + chains rest := rfl

structure Balanced (s : Nesting) : Prop where
  total : s.total = s.below.length + chains s.frames
  chained : ∀ f ∈ s.below, 0 < f.chain
  bottom : (s.frames.map (·.template)).getLast? = some false

theorem balanced_start : Balanced {} := ⟨rfl, nofun, rfl⟩

theorem guarded_eq_some {s next : Nesting} : s.guarded = some next ↔ s.total ≤ maxDepth ∧ next = s := by
  rw [guarded]
  split
  · next h => simp [h, eq_comm]
  · next h => simp [h]

namespace Balanced

variable {s next : Nesting} {b : UInt8} {rest : List UInt8}

theorem chain (h : Balanced s) (hc : s.chain = some next) : Balanced next ∧ 0 < next.top.chain := by
  obtain ⟨-, rfl⟩ := guarded_eq_some.mp hc
  refine ⟨⟨?_, h.chained, h.bottom⟩, Nat.succ_pos _⟩
  have htotal := h.total
  simp only [frames, chains_cons] at htotal ⊢
  omega

theorem push (h : Balanced s) (hc : 0 < s.top.chain) (template : Bool) : Balanced (s.push template) where
  total := by
    have htotal := h.total
    simp only [frames, Nesting.push, chains_cons, List.length_cons] at htotal ⊢
    omega
  chained := List.forall_mem_cons.mpr ⟨hc, h.chained⟩
  bottom := h.bottom

theorem openFrame (h : Balanced s) {template : Bool} (ho : s.openFrame template = some next) :
    Balanced next := by
  obtain ⟨chained, hc, hg⟩ := Option.bind_eq_some_iff.mp ho
  obtain ⟨hbalanced, hpos⟩ := h.chain hc
  obtain ⟨-, rfl⟩ := guarded_eq_some.mp hg
  exact hbalanced.push hpos template

theorem close (h : Balanced s) {f : Frame} (hc : s.close = some (f, next)) :
    Balanced next ∧ 0 < next.top.chain := by
  obtain ⟨htotal, hchained, hbottom⟩ := h
  simp only [Nesting.close, frames] at hc htotal hbottom
  split at hc
  · cases hc
  · next outer below hbelow =>
    cases hc
    rw [hbelow] at htotal hchained hbottom
    obtain ⟨hpos, hchained⟩ := List.forall_mem_cons.mp hchained
    refine ⟨⟨?_, hchained, hbottom⟩, hpos⟩
    simp only [frames, chains_cons, List.length_cons] at htotal ⊢
    omega

theorem reset (h : Balanced s) : Balanced s.reset := by
  refine ⟨?_, h.chained, h.bottom⟩
  have htotal := h.total
  simp only [frames, Nesting.reset, chains_cons] at htotal ⊢
  omega

theorem settle (h : Balanced s) (rest : List UInt8) : Balanced (s.settle rest) := by
  rw [Nesting.settle]
  split
  · exact h
  · exact h.reset

theorem template (h : Balanced s) (hn : (s.template rest).1 = some next) : Balanced next := by
  simp only [Nesting.template] at hn
  split at hn
  · exact h.openFrame hn
  · cases hn
    exact h

theorem closed (h : Balanced s) (hn : (s.closed b rest).1 = some next) : Balanced next := by
  have hsettled {t : Nesting} (ht : Balanced t) :
      Balanced (if b = closeBrace then t.settle rest else t) := by
    split
    · exact ht.settle rest
    · exact ht
  simp only [Nesting.closed] at hn
  split at hn
  · next f t hc =>
    obtain ⟨ht, -⟩ := h.close hc
    split at hn
    · exact ht.template hn
    · cases hn
      exact hsettled ht
  · cases hn
    exact hsettled h

theorem word (h : Balanced s) (hn : (s.word b rest).1 = some next) : Balanced next := by
  simp only [Nesting.word] at hn
  split at hn
  · exact (h.chain hn).1
  · cases hn
    exact h

theorem take (h : Balanced s) {piece : Piece} (hn : (s.take b rest piece).1 = some next) :
    Balanced next := by
  have hsame {t : Nesting} (ht : Balanced t) (hs : some t = some next) : Balanced next :=
    Option.some.inj hs ▸ ht
  cases piece with
  | quoted | lineComment | blockComment | number | other => exact hsame h hn
  | template => exact h.template hn
  | opener => exact h.openFrame hn
  | closer => exact h.closed hn
  | separator => exact hsame (h.settle rest) hn
  | operator => exact (h.chain hn).1
  | word => exact h.word hn

theorem step (h : Balanced s) (hn : (s.step b rest).1 = some next) : Balanced next :=
  h.take (s.step_eq_take b rest ▸ hn)

/-- Without open frames and without anything chained the state is the one at the start. -/
theorem eq_start (h : Balanced s) (hb : s.below = []) (hc : s.top.chain = 0) : s = {} := by
  obtain ⟨htotal, -, hbottom⟩ := h
  obtain ⟨⟨chain, template⟩, below, total⟩ := s
  obtain rfl : below = [] := hb
  obtain rfl : chain = 0 := hc
  obtain rfl : total = 0 := htotal
  obtain rfl : template = false := Option.some.inj hbottom
  rfl

end Balanced

end Nesting

end Reprl.Source
