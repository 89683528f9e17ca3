import Reprl.Loop
import Reprl.Proofs.Channel

/-! What one request of the fuzzer can come to: the script that it asks for and the
verdict on it, or the first fault on the way there. All of this is said of what the
streams hold, not of how they are read. -/

namespace Reprl

open Reprl.Stream Reprl.Text

/-- The reason why a number of bytes cannot be read: the source ends or fails before.
An end is put into words by how many bytes came before it. -/
inductive Breaks (count : Nat) (closed : Nat → String) : List Atom → String → Prop
  | ended (bytes : Bytes) (h : bytes.length < count) :
      Breaks count closed (bytes.map .byte) (closed bytes.length)
  | failed (bytes : Bytes) (reason : String) (rest : List Atom) (h : bytes.length < count) :
      Breaks count closed (bytes.map .byte ++ .fault reason :: rest) reason

def shortText : String := "failed to fill whole buffer"

namespace Channel

/-- The sources begin with a request for a script; the other channel is what follows it. -/
structure Asks (c : Channel) (script : Bytes) (after : Channel) : Prop where
  control : ∃ size : Bytes, size.length = 8 ∧ wordOf size = script.length ∧
    c.control.atoms = (encode "exec").map .byte ++ (size.map .byte ++ after.control.atoms)
  data : c.data.atoms = script.map .byte ++ after.data.atoms
  replies : after.replies = c.replies

/-- The first fault of the sources, in the order in which a request is read. -/
inductive Misread (c : Channel) : LoopError → Prop
  | action {reason : String} (h : Breaks 4 (fun _ => shortText) c.control.atoms reason) :
      Misread c (.protocol (.actionRead reason))
  | unknown {word : Bytes} {rest : List Atom} (hl : word.length = 4) (hw : word ≠ encode "exec")
      (h : c.control.atoms = word.map .byte ++ rest) :
      Misread c (.protocol (.unknownAction (wordOf word)))
  | size {rest : List Atom} {reason : String}
      (h : c.control.atoms = (encode "exec").map .byte ++ rest)
      (hb : Breaks 8 (fun _ => shortText) rest reason) :
      Misread c (.protocol (.sizeRead reason))
  | script {size : Bytes} {rest : List Atom} {reason : String} (hl : size.length = 8)
      (h : c.control.atoms = (encode "exec").map .byte ++ (size.map .byte ++ rest))
      (hb : Breaks (wordOf size) (closedText · (wordOf size)) c.data.atoms reason) :
      Misread c (.protocol (.scriptRead reason))
  | encoding {script : Bytes} {after : Channel} {e : Utf8Error} (h : c.Asks script after)
      (hd : decode script = .error e) : Misread c (.invalidEncoding e)

theorem takeAtoms_of_breaks {count : Nat} {closed : Nat → String} {atoms : List Atom} {reason : String}
    (h : Breaks count closed atoms reason) :
    (takeAtoms count atoms).1 = .failed reason ∨
      ∃ bytes : Bytes, (takeAtoms count atoms).1 = .ended bytes ∧ reason = closed bytes.length := by
  cases h with
  | ended bytes hl =>
    obtain ⟨k, hk⟩ : ∃ k, count - bytes.length = k + 1 := ⟨count - bytes.length - 1, by omega⟩
    have ht := takeAtoms_bytes_append (Nat.le_of_lt hl) []
    rw [List.append_nil, hk] at ht
    exact .inr ⟨bytes, by simp [ht, takeAtoms, Taken.after], rfl⟩
  | failed bytes reason rest hl =>
    obtain ⟨k, hk⟩ : ∃ k, count - bytes.length = k + 1 := ⟨count - bytes.length - 1, by omega⟩
    have ht := takeAtoms_bytes_append (Nat.le_of_lt hl) (.fault reason :: rest)
    rw [hk] at ht
    exact .inl (by simp [ht, takeAtoms, Taken.after])

theorem readControl_of_breaks {count : Nat} {c : Channel} {reason : String}
    (h : Breaks count (fun _ => shortText) c.control.atoms reason) (failure : String → ProtocolError) :
    ∃ c', readControl count failure c = (.error (failure reason), c') := by
  obtain ⟨control, replies, data⟩ := c
  have ht := (Source.take_atoms count control).1
  rcases he : control.take count with ⟨taken, rest⟩
  simp only [he] at ht
  refine ⟨⟨rest, replies, data⟩, ?_⟩
  simp only [readControl, he, ht]
  rcases takeAtoms_of_breaks h with hf | ⟨bytes, hb, rfl⟩
  · simp only [hf]
  · simp only [hb]
    rfl

theorem readData_of_breaks {count : Nat} {c : Channel} {reason : String}
    (h : Breaks count (closedText · count) c.data.atoms reason) :
    ∃ c', readData count c = (.error (.scriptRead reason), c') := by
  obtain ⟨control, replies, data⟩ := c
  have ht := (Source.take_atoms count data).1
  rcases he : data.take count with ⟨taken, rest⟩
  simp only [he] at ht
  refine ⟨⟨control, replies, rest⟩, ?_⟩
  simp only [readData, he, ht]
  rcases takeAtoms_of_breaks h with hf | ⟨bytes, hb, rfl⟩
  · simp only [hf]
  · simp only [hb]

theorem readControl_of_bytes {c : Channel} {bytes : Bytes} {rest : List Atom}
    (h : c.control.atoms = bytes.map .byte ++ rest) (failure : String → ProtocolError) :
    ∃ control : Source, readControl bytes.length failure c = (.ok bytes, { c with control }) ∧
      control.atoms = rest := by
  obtain ⟨control, replies, data⟩ := c
  obtain ⟨ht, hr⟩ := Source.take_atoms bytes.length control
  simp only at h
  rw [h, takeAtoms_complete] at ht hr
  rcases he : control.take bytes.length with ⟨taken, after⟩
  simp only [he] at ht hr
  exact ⟨after, by simp only [readControl, he, ht], hr⟩

theorem readData_of_bytes {c : Channel} {bytes : Bytes} {rest : List Atom}
    (h : c.data.atoms = bytes.map .byte ++ rest) :
    ∃ data : Source, readData bytes.length c = (.ok bytes, { c with data }) ∧ data.atoms = rest := by
  obtain ⟨control, replies, data⟩ := c
  obtain ⟨ht, hr⟩ := Source.take_atoms bytes.length data
  simp only at h
  rw [h, takeAtoms_complete] at ht hr
  rcases he : data.take bytes.length with ⟨taken, after⟩
  simp only [he] at ht hr
  exact ⟨after, by simp only [readData, he, ht], hr⟩

theorem readAction_of_exec {c : Channel} {rest : List Atom}
    (h : c.control.atoms = (encode "exec").map .byte ++ rest) :
    ∃ control : Source, readAction c = (.ok (), { c with control }) ∧ control.atoms = rest := by
  obtain ⟨control, hr, hc⟩ := readControl_of_bytes h .actionRead
  refine ⟨control, ?_, hc⟩
  rw [readAction, show 4 = (encode "exec").length by decide +kernel, Action.bind_of_ok hr]
  rfl

theorem Asks.size_control {c after : Channel} {script : Bytes} (h : c.Asks script after) :
    c.control.size = after.control.size + 12 := by
  obtain ⟨⟨size, hl, -, hc⟩, -, -⟩ := h
  have he : (encode "exec").length = 4 := by decide +kernel
  rw [Source.size_eq_countP, hc, List.countP_append, List.countP_append, Source.countP_bytes,
    Source.countP_bytes, he, hl, Source.size_eq_countP]
  omega

theorem Asks.read {c after : Channel} {script : Bytes} (h : c.Asks script after) :
    ∃ middle c', readAction c = (.ok (), middle) ∧ readScript middle = (.ok script, c') ∧
      Alike c' after := by
  obtain ⟨⟨size, hl, hw, hc⟩, hd, hr⟩ := h
  obtain ⟨middle, ha, hm⟩ := readAction_of_exec hc
  obtain ⟨control, hs, hc'⟩ := readControl_of_bytes (c := { c with control := middle }) hm .sizeRead
  obtain ⟨data, hd', hdata⟩ := readData_of_bytes (c := { c with control }) hd
  refine ⟨_, { c with control, data }, ha, ?_, ⟨hc', hr.symm, hdata⟩⟩
  rw [readScript, ← hl, Action.bind_of_ok hs, hw]
  exact hd'

theorem readControl_of_error {count : Nat} {failure : String → ProtocolError} {c c' : Channel}
    {e : ProtocolError} (h : readControl count failure c = (.error e, c')) :
    ∃ reason, e = failure reason ∧ Breaks count (fun _ => shortText) c.control.atoms reason ∧
      c'.replies = c.replies := by
  obtain ⟨control, replies, data⟩ := c
  have hd := Source.take_divides count control
  rcases he : control.take count with ⟨taken, rest⟩
  rw [he] at hd
  simp only [readControl, he] at h
  cases taken with
  | complete bytes => cases h
  | ended bytes =>
    cases h
    obtain ⟨hl, ha, -⟩ := hd
    exact ⟨shortText, rfl, ha ▸ .ended bytes hl, rfl⟩
  | failed reason =>
    cases h
    obtain ⟨bytes, hl, ha⟩ := hd
    exact ⟨reason, rfl, ha ▸ .failed bytes reason _ hl, rfl⟩

theorem readData_of_error {count : Nat} {c c' : Channel} {e : ProtocolError}
    (h : readData count c = (.error e, c')) :
    ∃ reason, e = .scriptRead reason ∧ Breaks count (closedText · count) c.data.atoms reason ∧
      c'.replies = c.replies := by
  obtain ⟨control, replies, data⟩ := c
  have hd := Source.take_divides count data
  rcases he : data.take count with ⟨taken, rest⟩
  rw [he] at hd
  simp only [readData, he] at h
  cases taken with
  | complete bytes => cases h
  | ended bytes =>
    cases h
    obtain ⟨hl, ha, -⟩ := hd
    exact ⟨_, rfl, ha ▸ .ended bytes hl, rfl⟩
  | failed reason =>
    cases h
    obtain ⟨bytes, hl, ha⟩ := hd
    exact ⟨reason, rfl, ha ▸ .failed bytes reason _ hl, rfl⟩

theorem readAction_of_error {c c' : Channel} {e : ProtocolError} (h : readAction c = (.error e, c')) :
    Misread c (.protocol e) ∧ c'.replies = c.replies := by
  simp only [readAction, Action.bind_apply] at h
  rcases hr : readControl 4 .actionRead c with ⟨failure | bytes, after⟩
  · rw [hr] at h
    cases h
    obtain ⟨reason, rfl, hb, hs⟩ := readControl_of_error hr
    exact ⟨.action hb, hs⟩
  · obtain ⟨hl, hc, hs, -⟩ := readControl_of_ok hr
    simp only [hr] at h
    by_cases hw : wordOf bytes = execWord
    · simp only [hw, if_true] at h
      cases h
    · simp only [hw, if_false] at h
      cases h
      exact ⟨.unknown hl (fun he => hw (congrArg wordOf he)) hc, hs⟩

theorem readScript_of_error {c before c' : Channel} {e : ProtocolError}
    (hb : readAction before = (.ok (), c)) (h : readScript c = (.error e, c')) :
    Misread before (.protocol e) ∧ c'.replies = before.replies := by
  obtain ⟨ha, hs, hd⟩ := readAction_of_ok hb
  simp only [readScript, Action.bind_apply] at h
  rcases hr : readControl 8 .sizeRead c with ⟨failure | size, after⟩
  · rw [hr] at h
    cases h
    obtain ⟨reason, rfl, hbreak, hs'⟩ := readControl_of_error hr
    exact ⟨.size ha hbreak, hs'.trans hs⟩
  · obtain ⟨hl, hc, hs', hd'⟩ := readControl_of_ok hr
    rw [hr] at h
    obtain ⟨reason, rfl, hbreak, hs''⟩ := readData_of_error h
    rw [hd', hd] at hbreak
    exact ⟨.script hl (hc ▸ ha) hbreak, hs''.trans (hs'.trans hs)⟩

theorem asks_of_ok {c middle after : Channel} {script : Bytes} (ha : readAction c = (.ok (), middle))
    (hs : readScript middle = (.ok script, after)) : c.Asks script after := by
  obtain ⟨hc, hr, hd⟩ := readAction_of_ok ha
  obtain ⟨size, hl, hw, hc', hd', hr'⟩ := readScript_of_ok hs
  exact ⟨⟨size, hl, hw, hc' ▸ hc⟩, hd ▸ hd', hr'.trans hr⟩

theorem Misread.read {c : Channel} {e : ProtocolError} (h : c.Misread (.protocol e)) :
    (∃ c', readAction c = (.error e, c')) ∨
      ∃ middle c', readAction c = (.ok (), middle) ∧ readScript middle = (.error e, c') := by
  cases h with
  | action hb =>
    obtain ⟨c', hr⟩ := readControl_of_breaks hb .actionRead
    exact .inl ⟨c', by rw [readAction, Action.bind_of_error hr]⟩
  | unknown hl hw hc =>
    obtain ⟨control, hr, -⟩ := readControl_of_bytes hc .actionRead
    have hn : wordOf _ ≠ execWord := fun he => hw (eq_of_wordOf_eq (hl.trans (by decide +kernel)) he)
    refine .inl ⟨{ c with control }, ?_⟩
    rw [readAction, ← hl, Action.bind_of_ok hr]
    simp only [hn, if_false]
    rfl
  | size hc hb =>
    obtain ⟨control, ha, hm⟩ := readAction_of_exec hc
    obtain ⟨c', hr⟩ := readControl_of_breaks (c := { c with control }) (hm ▸ hb) .sizeRead
    exact .inr ⟨_, c', ha, by rw [readScript, Action.bind_of_error hr]⟩
  | script hl hc hb =>
    obtain ⟨middle, ha, hm⟩ := readAction_of_exec hc
    obtain ⟨control, hs, -⟩ := readControl_of_bytes (c := { c with control := middle }) hm .sizeRead
    obtain ⟨c', hr⟩ := readData_of_breaks (c := { c with control }) hb
    exact .inr ⟨_, c', ha, by rw [readScript, ← hl, Action.bind_of_ok hs, hr]⟩

end Channel

end Reprl
