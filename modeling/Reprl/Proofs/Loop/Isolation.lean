import Reprl.Proofs.Loop.Serving
import Reprl.Proofs.Machine.Appended
import Reprl.Proofs.Text.Utf8

/-! Scripts that are served in a row. Each one does what it does alone on a fresh machine,
whatever was served before it: the loop keeps nothing of a script but what it wrote. -/

namespace Reprl

open Reprl.Stream Reprl.Text

/-- What a script comes to when it is executed alone. -/
structure Report where
  source : String
  verdict : Verdict
  output : Bytes

namespace Report

/-- What the fuzzer writes to control to have the script executed. -/
def frame (r : Report) : Bytes := encode "exec" ++ bytesOfWord 8 (encode r.source).length

/-- The length of the script fits into the word for it. -/
def Fits (r : Report) : Prop := (encode r.source).length < Nat.pow 256 8

instance (r : Report) : Decidable r.Fits := inferInstanceAs (Decidable (_ < _))

theorem length_frame (r : Report) : r.frame.length = 12 := by
  have he : (encode "exec").length = 4 := by decide +kernel
  rw [frame, List.length_append, he, length_bytesOfWord]

end Report

namespace Channel

theorem send_of_steady {c : Channel} (h : c.replies.Steady) (bytes : Bytes)
    (failure : String → ProtocolError) :
    ∃ replies : Sink, send bytes failure c = (.ok (), { c with replies }) ∧ replies.Steady ∧
      replies.contents = c.replies.contents ++ bytes := by
  obtain ⟨control, sink, data⟩ := c
  obtain ⟨written, hw, hs, hc⟩ := Sink.Steady.writeAll h bytes
  obtain ⟨flushed, hf, hs', hc'⟩ := hs.flush
  refine ⟨flushed, ?_, hs', hc'.trans hc⟩
  simp only [send, Action.bind_of_ok hw, hf]

theorem asks_of_atoms {c : Channel} {script size : Bytes} {control data : List Atom}
    (hl : size.length = 8) (hw : wordOf size = script.length)
    (hc : c.control.atoms = (encode "exec" ++ size).map .byte ++ control)
    (hd : c.data.atoms = script.map .byte ++ data) :
    ∃ after, c.Asks script after ∧ after.control.atoms = control ∧ after.data.atoms = data := by
  have hcontrol := (Source.take_atoms (encode "exec" ++ size).length c.control).2
  have hdata := (Source.take_atoms script.length c.data).2
  rw [hc, takeAtoms_complete] at hcontrol
  rw [hd, takeAtoms_complete] at hdata
  let after : Channel :=
    ⟨(c.control.take (encode "exec" ++ size).length).2, c.replies, (c.data.take script.length).2⟩
  refine ⟨after, ⟨⟨size, hl, hw, ?_⟩, ?_, rfl⟩, hcontrol, hdata⟩
  · rw [hc, show after.control.atoms = control from hcontrol, List.map_append, List.append_assoc]
  · rw [hd, show after.data.atoms = data from hdata]

end Channel

namespace Loop

/-- Requests for scripts are all that control holds, and the scripts are first in the data. How
the bytes are cut into pieces does not matter. -/
structure Asked (l : Loop) (reports : List Report) (rest : List Atom) : Prop where
  control : l.channel.control.atoms = (reports.flatMap Report.frame).map .byte
  data : l.channel.data.atoms = (reports.flatMap fun r => encode r.source).map .byte ++ rest

/-- A loop that is asked to execute scripts and whose outputs never fail. -/
structure Ready (l : Loop) (reports : List Report) (rest : List Atom) : Prop extends
    l.Asked reports rest where
  replies : l.channel.replies.Steady
  fuzz : l.fuzz.Steady
  stdout : l.console.stdout.Steady

theorem Asked.asks {l : Loop} {r : Report} {reports : List Report} {rest : List Atom}
    (h : l.Asked (r :: reports) rest) (hfits : r.Fits) :
    ∃ after, l.channel.Asks (encode r.source) after ∧
      after.control.atoms = (reports.flatMap Report.frame).map .byte ∧
      after.data.atoms = (reports.flatMap fun r => encode r.source).map .byte ++ rest := by
  have hword : wordOf (bytesOfWord 8 (encode r.source).length) = (encode r.source).length := by
    rw [wordOf_bytesOfWord, Nat.mod_eq_of_lt hfits]
  have hcontrol := h.control
  have hdata := h.data
  rw [List.flatMap_cons, List.map_append] at hcontrol hdata
  rw [List.append_assoc] at hdata
  exact Channel.asks_of_atoms (length_bytesOfWord 8 _) hword hcontrol hdata

theorem Asked.iteration {E : Evaluator} {l : Loop} {r : Report} {reports : List Report}
    {rest : List Atom} (h : l.Asked (r :: reports) rest) (hfits : r.Fits)
    (hr : l.channel.replies.Steady) (hv : Verdict.ofResult (l.onFresh E r.source).1 = some r.verdict) :
    ∃ l', iteration E l = (.ok r.verdict, l') ∧ l'.Asked reports rest ∧ l'.channel.replies.Steady ∧
      l'.executions = l.executions + 1 ∧ l'.sent = l.sent ++ r.verdict.bytes ∧
      l'.fuzz = (l.onFresh E r.source).2.fuzz ∧ l'.console = (reported (l.onFresh E r.source)).flush := by
  obtain ⟨after, hasks, hc, hd⟩ := h.asks hfits
  obtain ⟨channel, halike, hi⟩ := iteration_of_asks hasks (decode_encode r.source) hv
  have hreplies : channel.replies = l.channel.replies := halike.replies.trans hasks.replies
  obtain ⟨replies, hsend, hsteady, hsent⟩ :=
    Channel.send_of_steady (hreplies ▸ hr) r.verdict.bytes .statusWrite
  let last : Loop := {
    channel := { channel with replies }
    fuzz := (l.onFresh E r.source).2.fuzz
    console := (reported (l.onFresh E r.source)).flush
    coverage := l.coverage.reset
    executions := l.executions + 1 }
  refine ⟨last, ?_, ⟨halike.control.trans hc, halike.data.trans hd⟩, hsteady, rfl, ?_, rfl, rfl⟩
  · rw [hi, answer, Action.bind_of_ok (onChannel_of_ok hsend)]
    rfl
  · rw [sent, sent, ← hreplies]
    exact hsent

theorem Ready.iteration {E : Evaluator} {l : Loop} {r : Report} {reports : List Report}
    {rest : List Atom} (h : l.Ready (r :: reports) rest) (hfits : r.Fits)
    (hv : Verdict.ofResult (l.onFresh E r.source).1 = some r.verdict)
    (hf : (l.onFresh E r.source).2.fuzz.Steady) (hs : (l.onFresh E r.source).2.console.stdout.Steady) :
    ∃ l', iteration E l = (.ok r.verdict, l') ∧ l'.Ready reports rest ∧
      l'.executions = l.executions + 1 ∧ l'.sent = l.sent ++ r.verdict.bytes ∧
      l'.fuzz = (l.onFresh E r.source).2.fuzz := by
  obtain ⟨l', hi, hasked, hreplies, hex, hsent, hfuzz, hconsole⟩ :=
    h.toAsked.iteration hfits h.replies hv
  obtain ⟨flushed, hflush, hsteady, -⟩ := hs.flush
  refine ⟨l', hi, ⟨hasked, hreplies, hfuzz ▸ hf, ?_⟩, hex, hsent, hfuzz⟩
  rw [hconsole, Console.flush, stdout_reported, hflush]
  exact hsteady

theorem Asked.length_le {l : Loop} {reports : List Report} {rest : List Atom}
    (h : l.Asked reports rest) : reports.length ≤ l.channel.control.size := by
  have hlen : ∀ reports : List Report,
      (reports.flatMap Report.frame).length = 12 * reports.length := fun reports => by
    induction reports with
    | nil => rfl
    | cons r reports ih =>
      rw [List.flatMap_cons, List.length_append, r.length_frame, ih, List.length_cons]
      omega
  rw [Source.size_eq_countP, h.control, Source.countP_bytes, hlen]
  omega

end Loop

end Reprl
