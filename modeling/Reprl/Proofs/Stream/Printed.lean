import Reprl.Proofs.Stream.Written
import Reprl.Stream.Line

/-! Printing to steady sinks. It never fails, and what it writes depends on the line
alone, neither on the sink nor on what the sink holds already. -/

namespace Reprl.Stream

open Reprl.Text (Bytes encode)

/-- An operation with the same answer and the same output on all steady sinks. -/
def Sink.Uniform {β : Type} (operation : Sink → β × Sink) : Prop :=
  ∃ answer written, ∀ sink : Sink, sink.Steady →
    ∃ after, operation sink = (answer, after) ∧ after.Steady ∧
      after.contents = sink.contents ++ written

namespace Printing

variable {α β : Type}

/-- An action that does the same to a line on all steady sinks and does not fail there. -/
def Uniform (action : Action α) : Prop :=
  ∀ line, ∃ (a : α) (next : Line) (written : Bytes), ∀ sink : Sink, sink.Steady →
    ∃ after : Sink, action ⟨line, sink⟩ = (.ok a, ⟨next, after⟩) ∧ after.Steady ∧
      after.contents = sink.contents ++ written

namespace Uniform

theorem pure (a : α) : Uniform (Pure.pure a) :=
  fun line => ⟨a, line, [], fun sink h => ⟨sink, rfl, h, (List.append_nil _).symm⟩⟩

theorem bind {action : Action α} {next : α → Action β} (h : Uniform action)
    (hn : ∀ a, Uniform (next a)) : Uniform (action >>= next) := by
  intro line
  obtain ⟨a, middle, first, hf⟩ := h line
  obtain ⟨b, last, second, hs⟩ := hn a middle
  refine ⟨b, last, first ++ second, fun sink steady => ?_⟩
  obtain ⟨after, he, ha, hc⟩ := hf sink steady
  obtain ⟨final, he', hf', hc'⟩ := hs after ha
  exact ⟨final, by rw [Reprl.Action.bind_of_ok he, he'], hf', by rw [hc', hc, List.append_assoc]⟩

theorem get_bind {next : Printing → Action α} (byLine : Line → Action α)
    (hn : ∀ p, next p = byLine p.line) (h : ∀ line, Uniform (byLine line)) :
    Uniform (get >>= next) := by
  intro line
  obtain ⟨a, last, written, hw⟩ := h line line
  refine ⟨a, last, written, fun sink steady => ?_⟩
  obtain ⟨after, he, hs⟩ := hw sink steady
  exact ⟨after, (congrFun (hn ⟨line, sink⟩) ⟨line, sink⟩).trans he, hs⟩

theorem onLine (f : Line → Line) : Uniform (modify fun p => { p with line := f p.line }) :=
  fun line => ⟨(), f line, [], fun sink h => ⟨sink, rfl, h, (List.append_nil _).symm⟩⟩

theorem writeAll (bytes : Bytes) : Uniform (onSink (Sink.writeAll bytes)) := by
  intro line
  refine ⟨(), line, bytes, fun sink steady => ?_⟩
  obtain ⟨after, he, hs, hc⟩ := steady.writeAll bytes
  exact ⟨after, by simp only [onSink, he], hs, hc⟩

theorem flushSink : Uniform (onSink Sink.flush) := by
  intro line
  refine ⟨(), line, [], fun sink steady => ?_⟩
  obtain ⟨after, he, hs, hc⟩ := steady.flush
  exact ⟨after, by simp only [onSink, he], hs, by rw [hc, List.append_nil]⟩

theorem flush : Uniform Printing.flush := by
  refine get_bind (fun line => do
    unless line.pending.isEmpty do
      onSink (Sink.writeAll (encode line.pending))
      setPending ""
    onSink Sink.flush) (fun _ => rfl) fun line => ?_
  dsimp only
  have cleared : Uniform (setPending "") := onLine fun line => { line with pending := "" }
  split
  · exact flushSink
  · exact bind (writeAll _) fun _ => bind cleared fun _ => flushSink

theorem pushPiece (piece : String) : Uniform (Printing.pushPiece piece) := by
  have append : Uniform (modify fun p => { p with line := { p.line with pending := p.line.pending ++ piece } }) :=
    onLine fun line => { line with pending := line.pending ++ piece }
  refine get_bind (fun line => do
    if chunkSize < line.pending.utf8ByteSize + piece.utf8ByteSize then Printing.flush
    modify fun p => { p with line := { p.line with pending := p.line.pending ++ piece } })
    (fun _ => rfl) fun line => ?_
  dsimp only
  split
  · exact bind flush fun _ => append
  · exact append

theorem pushChars (chars : List Char) : Uniform (Printing.pushChars chars) := by
  induction chars with
  | nil => exact pure ()
  | cons c rest ih => exact bind (pushPiece (piece c)) fun _ => ih

theorem pushArg (text : String) : Uniform (Printing.pushArg text) := by
  have chars : Uniform (do
      modify fun p => { p with line := { p.line with args := p.line.args + 1 } }
      Printing.pushChars text.toList) :=
    bind (onLine fun line => { line with args := line.args + 1 }) fun _ => pushChars text.toList
  refine get_bind (fun line => do
    if 0 < line.args then Printing.pushPiece " "
    modify fun p => { p with line := { p.line with args := p.line.args + 1 } }
    Printing.pushChars text.toList) (fun _ => rfl) fun line => ?_
  dsimp only
  split
  · exact bind (pushPiece " ") fun _ => chars
  · exact chars

theorem finish : Uniform Printing.finish := bind (pushPiece "\n") fun _ => flush

end Uniform

theorem uniform_pushArg (line : Line) (text : String) :
    Sink.Uniform fun sink =>
      match pushArg text ⟨line, sink⟩ with
      | (result, ⟨line, sink⟩) => ((result, line), sink) := by
  obtain ⟨a, next, written, h⟩ := Uniform.pushArg text line
  refine ⟨(.ok a, next), written, fun sink steady => ?_⟩
  obtain ⟨after, he, hs⟩ := h sink steady
  exact ⟨after, by simp only [he], hs⟩

theorem uniform_abandon (line : Line) : Sink.Uniform fun sink => ((), abandon ⟨line, sink⟩) := by
  obtain ⟨_, next, written, h⟩ := Uniform.flush line
  refine ⟨(), written, fun sink steady => ?_⟩
  obtain ⟨after, he, hs⟩ := h sink steady
  exact ⟨after, by simp only [abandon, he], hs⟩

theorem uniform_close (line : Line) : Sink.Uniform fun sink => close ⟨line, sink⟩ := by
  obtain ⟨_, next, first, hf⟩ := Uniform.finish line
  obtain ⟨_, second, hs⟩ := uniform_abandon next
  refine ⟨.ok (), first ++ second, fun sink steady => ?_⟩
  obtain ⟨middle, he, hm, hc⟩ := hf sink steady
  obtain ⟨after, he', ha, hc'⟩ := hs middle hm
  refine ⟨after, ?_, ha, by rw [hc', hc, List.append_assoc]⟩
  simp only [close, he]
  exact congrArg (Prod.mk _) (congrArg Prod.snd he')

end Printing

end Reprl.Stream
