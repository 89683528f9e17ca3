import Reprl.Proofs.Coverage.History
import Reprl.Proofs.Loop.Request

/-! One iteration of the loop. It serves a request, meets the first fault, or does not
end because its script does not. Only an iteration that serves counts and numbers the
edges again. -/

namespace Reprl

open Reprl.Stream Reprl.Text

namespace Verdict

/-- The verdict on an execution that ends. -/
def ofResult : Except (Abrupt ScriptError) Unit → Option Verdict
  | .ok () => some success
  | .error (.thrown _) => some exception
  | .error (.crashed _) => none
  | .error .exhausted => none

def bytes (v : Verdict) : Bytes := bytesOfWord 4 v.status

@[simp] theorem length_bytes (v : Verdict) : v.bytes.length = 4 := length_bytesOfWord 4 v.status

theorem wordOf_bytes (v : Verdict) : wordOf v.bytes = v.status := by
  rw [bytes, wordOf_bytesOfWord]
  cases v <;> rfl

end Verdict

namespace Channel

def deliver (bytes : Bytes) : Sink.Action Unit := do
  Sink.writeAll bytes
  Sink.flush

theorem send_cases (bytes : Bytes) (failure : String → ProtocolError) (c : Channel) :
    (∃ replies : Sink, send bytes failure c = (.ok (), { c with replies }) ∧
      (deliver bytes c.replies).1 = .ok () ∧ replies.contents = c.replies.contents ++ bytes) ∨
    ∃ (reason : String) (replies : Sink) (count : Nat),
      send bytes failure c = (.error (failure reason), { c with replies }) ∧
      (deliver bytes c.replies).1 = .error reason ∧
      count ≤ bytes.length ∧ replies.contents = c.replies.contents ++ bytes.take count := by
  obtain ⟨control, sink, data⟩ := c
  simp only [send, deliver, Action.bind_apply]
  obtain ⟨count, hle, hc, hall⟩ := Sink.writeTimes_prefix bytes.length bytes sink
  rw [Sink.writeAll]
  rcases hw : Sink.writeTimes bytes.length bytes sink with ⟨reason | _, written⟩
  · rw [hw] at hc
    exact .inr ⟨reason, written, count, rfl, rfl, hle, hc⟩
  · rw [hw] at hc hall
    have hf := Sink.contents_flush written
    simp only
    rcases he : Sink.flush written with ⟨reason | _, flushed⟩
    · rw [he] at hf
      exact .inr ⟨reason, flushed, count, rfl, rfl, hle, hf.trans hc⟩
    · rw [he] at hf
      refine .inl ⟨flushed, rfl, rfl, ?_⟩
      rw [hf, hc, hall rfl, List.take_length]

end Channel

namespace Loop

def sent (l : Loop) : Bytes := l.channel.replies.contents

/-- A script on a fresh machine that has the outputs of the loop. -/
def onFresh (E : Evaluator) (l : Loop) (source : String) : Except (Abrupt ScriptError) Unit × Machine :=
  Session.execute E source (.new .fuzzer l.fuzz l.console)

/-- The sources begin with a request for a script that is text. -/
def Requests (l : Loop) (source : String) : Prop :=
  ∃ script after, l.channel.Asks script after ∧ decode script = .ok source

/-- The sources begin with a request whose script ends with this verdict. -/
def Judged (E : Evaluator) (l : Loop) (v : Verdict) : Prop :=
  ∃ source, l.Requests source ∧ Verdict.ofResult (l.onFresh E source).1 = some v

def Unfinished (E : Evaluator) (l : Loop) : Prop :=
  ∃ source, l.Requests source ∧ Verdict.ofResult (l.onFresh E source).1 = none

/-- The first thing that goes wrong in an iteration: reading the request, or else telling
the fuzzer the verdict on it. -/
inductive FirstFault (E : Evaluator) (l : Loop) : LoopError → Prop
  | reading {e : LoopError} (h : l.channel.Misread e) : FirstFault E l e
  | status {v : Verdict} {reason : String} (h : l.Judged E v)
      (hs : (Channel.deliver v.bytes l.channel.replies).1 = .error reason) :
      FirstFault E l (.protocol (.statusWrite reason))

theorem onChannel_of_ok {α : Type} {step : Channel.Step α} {l : Loop} {a : α} {channel : Channel}
    (h : step l.channel = (.ok a, channel)) : onChannel step l = (.ok a, { l with channel }) := by
  simp only [onChannel, h]

theorem onChannel_of_error {α : Type} {step : Channel.Step α} {l : Loop} {e : ProtocolError}
    {channel : Channel} (h : step l.channel = (.error e, channel)) :
    onChannel step l = (.error (.thrown (.protocol e)), { l with channel }) := by
  simp only [onChannel, h]

theorem readScript_of_asks {l : Loop} {script : Bytes} {after : Channel} {source : String}
    (h : l.channel.Asks script after) (hd : decode script = .ok source) :
    ∃ channel : Channel, readScript l = (.ok source, { l with channel }) ∧ channel.Alike after := by
  obtain ⟨middle, channel, ha, hs, halike⟩ := h.read
  refine ⟨channel, ?_, halike⟩
  rw [readScript, Action.bind_of_ok (onChannel_of_ok ha),
    Action.bind_of_ok (onChannel_of_ok (l := { l with channel := middle }) hs)]
  simp only [hd]
  rfl

theorem readScript_of_invalid {l : Loop} {script : Bytes} {after : Channel} {e : Utf8Error}
    (h : l.channel.Asks script after) (hd : decode script = .error e) :
    ∃ (channel : Channel) (console : Console),
      readScript l = (.error (.thrown (.invalidEncoding e)), { l with channel, console }) ∧
      channel.Alike after := by
  obtain ⟨middle, channel, ha, hs, halike⟩ := h.read
  refine ⟨channel, l.console.report "[REPRL] Script is not valid UTF-8", ?_, halike⟩
  rw [readScript, Action.bind_of_ok (onChannel_of_ok ha),
    Action.bind_of_ok (onChannel_of_ok (l := { l with channel := middle }) hs)]
  simp only [hd]
  rfl

theorem readScript_cases (l : Loop) :
    (∃ script source after, l.channel.Asks script after ∧ decode script = .ok source) ∨
    ∃ (e : LoopError) (channel : Channel) (console : Console), l.channel.Misread e ∧
      channel.replies = l.channel.replies ∧
      readScript l = (.error (.thrown e), { l with channel, console }) := by
  rcases ha : Channel.readAction l.channel with ⟨e | _, middle⟩
  · obtain ⟨hm, hr⟩ := Channel.readAction_of_error ha
    refine .inr ⟨_, middle, l.console, hm, hr, ?_⟩
    rw [readScript, Action.bind_of_error (onChannel_of_error ha)]
  · rcases hs : Channel.readScript middle with ⟨e | script, after⟩
    · obtain ⟨hm, hr⟩ := Channel.readScript_of_error ha hs
      refine .inr ⟨_, after, l.console, hm, hr, ?_⟩
      rw [readScript, Action.bind_of_ok (onChannel_of_ok ha),
        Action.bind_of_error (onChannel_of_error (l := { l with channel := middle }) hs)]
    · have hasks := Channel.asks_of_ok ha hs
      rcases hd : decode script with e | source
      · obtain ⟨channel, console, hr, halike⟩ := readScript_of_invalid hasks hd
        exact .inr ⟨_, channel, console, .encoding hasks hd, halike.replies.trans hasks.replies, hr⟩
      · exact .inl ⟨script, source, after, hasks, hd⟩

theorem readScript_of_misread {l : Loop} {e : LoopError} (h : l.channel.Misread e) :
    ∃ l', readScript l = (.error (.thrown e), l') := by
  cases e with
  | invalidEncoding e =>
    cases h with
    | encoding hasks hd =>
      obtain ⟨channel, console, hr, -⟩ := readScript_of_invalid hasks hd
      exact ⟨_, hr⟩
  | protocol e =>
    rcases h.read with ⟨c', ha⟩ | ⟨middle, c', ha, hs⟩
    · exact ⟨_, by rw [readScript, Action.bind_of_error (onChannel_of_error ha)]⟩
    · refine ⟨{ l with channel := c' }, ?_⟩
      rw [readScript, Action.bind_of_ok (onChannel_of_ok ha),
        Action.bind_of_error (onChannel_of_error (l := { l with channel := middle }) hs)]

/-- The console after a script, whose failure is reported. -/
def reported (run : Except (Abrupt ScriptError) Unit × Machine) : Console :=
  match run.1 with
  | .error (.thrown e) => run.2.console.report e.message
  | _ => run.2.console

theorem stdout_reported (run : Except (Abrupt ScriptError) Unit × Machine) :
    (reported run).stdout = run.2.console.stdout := by
  unfold reported
  split <;> rfl

theorem judge_of_verdict {E : Evaluator} {l : Loop} {source : String} {v : Verdict}
    (h : Verdict.ofResult (l.onFresh E source).1 = some v) :
    judge E source l = (.ok v,
      { l with fuzz := (l.onFresh E source).2.fuzz, console := reported (l.onFresh E source) }) := by
  rcases hr : l.onFresh E source with ⟨result, m⟩
  rw [hr] at h
  have hj : judge E source l = _ := Action.bind_apply _ _ _
  rw [hj, onMachine, Action.attempt, show Session.execute E source (.new .fuzzer l.fuzz l.console) = _ from hr]
  cases result with
  | ok a =>
    cases h
    rfl
  | error a =>
    cases a with
    | thrown e =>
      cases h
      rfl
    | crashed signal => cases h
    | exhausted => cases h

theorem judge_of_unfinished {E : Evaluator} {l : Loop} {source : String}
    (h : Verdict.ofResult (l.onFresh E source).1 = none) :
    ∃ a l', judge E source l = (.error a, l') ∧ ∀ e, a ≠ .thrown e := by
  rcases hr : l.onFresh E source with ⟨result, m⟩
  rw [hr] at h
  have hj : judge E source l = _ := Action.bind_apply _ _ _
  rw [hj, onMachine, Action.attempt, show Session.execute E source (.new .fuzzer l.fuzz l.console) = _ from hr]
  cases result with
  | ok a => cases h
  | error a =>
    cases a with
    | thrown e => cases h
    | crashed signal => exact ⟨.crashed signal, _, rfl, nofun⟩
    | exhausted => exact ⟨.exhausted, _, rfl, nofun⟩

end Loop

end Reprl
