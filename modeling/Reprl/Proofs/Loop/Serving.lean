import Reprl.Proofs.Loop.Iteration

/-! Iterations in a row. Each leaves the loop ready for the next or as it was, so what was
sent when the loop stops are the verdicts in order and at most a part of one more. -/

namespace Reprl

open Reprl.Stream Reprl.Text

namespace Loop

/-- What an iteration that serves a request has done. -/
structure Served (E : Evaluator) (l : Loop) (v : Verdict) (l' : Loop) : Prop where
  judged : l.Judged E v
  sent : l'.sent = l.sent ++ v.bytes
  executions : l'.executions = l.executions + 1
  coverage : l'.coverage = l.coverage.reset
  control : l.channel.control.size = l'.channel.control.size + 12

/-- What an iteration that meets a fault has done: nothing, but for a part of a status. -/
structure Stopped (E : Evaluator) (l : Loop) (e : LoopError) (l' : Loop) : Prop where
  fault : l.FirstFault E e
  executions : l'.executions = l.executions
  coverage : l'.coverage = l.coverage
  sent : l'.sent = l.sent ∨ ∃ reason v count, e = .protocol (.statusWrite reason) ∧ l.Judged E v ∧
    count ≤ 4 ∧ l'.sent = l.sent ++ v.bytes.take count

def answer (v : Verdict) : Step Verdict := do
  onChannel (Channel.sendStatus v.status)
  modify fun l => { l with coverage := l.coverage.reset, executions := l.executions + 1 }
  return v

theorem iteration_of_asks {E : Evaluator} {l : Loop} {script : Bytes} {after : Channel}
    {source : String} {v : Verdict} (ha : l.channel.Asks script after) (hd : decode script = .ok source)
    (hv : Verdict.ofResult (l.onFresh E source).1 = some v) :
    ∃ channel : Channel, channel.Alike after ∧ iteration E l = answer v { l with
      channel
      fuzz := (l.onFresh E source).2.fuzz
      console := (reported (l.onFresh E source)).flush } := by
  obtain ⟨channel, hr, halike⟩ := readScript_of_asks ha hd
  have hj := judge_of_verdict (l := { l with channel }) hv
  refine ⟨channel, halike, ?_⟩
  rw [iteration, Action.bind_of_ok hr, Action.bind_of_ok hj]
  rfl

theorem iteration_of_judged {E : Evaluator} {l : Loop} {v : Verdict} (h : l.Judged E v) :
    (∃ l', iteration E l = (.ok v, l') ∧ (Channel.deliver v.bytes l.channel.replies).1 = .ok () ∧
      l.Served E v l') ∨
    ∃ reason l', iteration E l = (.error (.thrown (.protocol (.statusWrite reason))), l') ∧
      (Channel.deliver v.bytes l.channel.replies).1 = .error reason ∧
      l.Stopped E (.protocol (.statusWrite reason)) l' := by
  have hjudged := h
  obtain ⟨source, ⟨script, after, ha, hd⟩, hv⟩ := h
  obtain ⟨channel, halike, hi⟩ := iteration_of_asks ha hd hv
  have hreplies : channel.replies = l.channel.replies := halike.replies.trans ha.replies
  let console := (reported (l.onFresh E source)).flush
  rcases Channel.send_cases v.bytes .statusWrite channel with
    ⟨replies, hs, hw, hc⟩ | ⟨reason, replies, count, hs, hw, hle, hc⟩
  · rw [hreplies] at hw hc
    let last : Loop := {
      channel := { channel with replies }
      fuzz := (l.onFresh E source).2.fuzz
      console
      coverage := l.coverage.reset
      executions := l.executions + 1 }
    refine .inl ⟨last, ?_, hw, hjudged, hc, rfl, rfl, ha.size_control.trans ?_⟩
    · rw [hi, answer, Action.bind_of_ok (onChannel_of_ok hs)]
      rfl
    · rw [Source.size_eq_countP, Source.size_eq_countP, ← halike.control]
  · rw [hreplies] at hw hc
    rw [v.length_bytes] at hle
    let last : Loop :=
      { l with channel := { channel with replies }, fuzz := (l.onFresh E source).2.fuzz, console }
    refine .inr ⟨reason, last, ?_, hw, .status hjudged hw, rfl, rfl, .inr ?_⟩
    · rw [hi, answer, Action.bind_of_error (onChannel_of_error hs)]
    · exact ⟨reason, v, count, rfl, hjudged, hle, hc⟩

theorem iteration_cases (E : Evaluator) (l : Loop) :
    (∃ v l', iteration E l = (.ok v, l') ∧ l.Served E v l') ∨
    (∃ e l', iteration E l = (.error (.thrown e), l') ∧ l.Stopped E e l') ∨
    ∃ a l', iteration E l = (.error a, l') ∧ (∀ e, a ≠ .thrown e) ∧ l.Unfinished E := by
  rcases readScript_cases l with ⟨script, source, after, ha, hd⟩ | ⟨e, channel, console, hm, hr, hs⟩
  · rcases hv : Verdict.ofResult (l.onFresh E source).1 with _ | v
    · obtain ⟨channel, hr, -⟩ := readScript_of_asks ha hd
      obtain ⟨a, l', hj, hn⟩ := judge_of_unfinished (l := { l with channel }) hv
      refine .inr (.inr ⟨a, l', ?_, hn, source, ⟨script, after, ha, hd⟩, hv⟩)
      rw [iteration, Action.bind_of_ok hr, Action.bind_of_error hj]
    · rcases iteration_of_judged ⟨source, ⟨script, after, ha, hd⟩, hv⟩ with
        ⟨l', hi, -, hserved⟩ | ⟨reason, l', hi, -, hstopped⟩
      · exact .inl ⟨v, l', hi, hserved⟩
      · exact .inr (.inl ⟨_, l', hi, hstopped⟩)
  · let last : Loop := { l with channel, console }
    refine .inr (.inl ⟨e, last, ?_, .reading hm, rfl, rfl, .inl (congrArg Sink.contents hr)⟩)
    rw [iteration, Action.bind_of_error hs]

theorem served_of_ok {E : Evaluator} {l l' : Loop} {v : Verdict} (h : iteration E l = (.ok v, l')) :
    l.Served E v l' := by
  rcases iteration_cases E l with ⟨w, m, hi, hs⟩ | ⟨e, m, hi, -⟩ | ⟨a, m, hi, -⟩
  · rw [hi] at h
    cases h
    exact hs
  · rw [hi] at h
    cases h
  · rw [hi] at h
    cases h

theorem stopped_of_thrown {E : Evaluator} {l l' : Loop} {e : LoopError}
    (h : iteration E l = (.error (.thrown e), l')) : l.Stopped E e l' := by
  rcases iteration_cases E l with ⟨v, m, hi, -⟩ | ⟨d, m, hi, hs⟩ | ⟨a, m, hi, hn, -⟩
  · rw [hi] at h
    cases h
  · rw [hi] at h
    cases h
    exact hs
  · rw [hi] at h
    cases h
    exact absurd rfl (hn e)

theorem thrown_of_firstFault {E : Evaluator} {l : Loop} {e : LoopError} (h : l.FirstFault E e) :
    ∃ l', iteration E l = (.error (.thrown e), l') := by
  cases h with
  | reading hm =>
    obtain ⟨l', hr⟩ := readScript_of_misread hm
    exact ⟨l', by rw [iteration, Action.bind_of_error hr]⟩
  | @status v reason hj hw =>
    rcases iteration_of_judged hj with ⟨l', -, hw', -⟩ | ⟨other, l', hi, hw', -⟩
    · rw [hw] at hw'
      cases hw'
    · rw [hw] at hw'
      cases hw'
      exact ⟨l', hi⟩

/-- The loop after code outside of scripts has passed some edges. -/
def recording (l : Loop) (cells : List Nat) : Loop :=
  { l with coverage := cells.foldl Coverage.record l.coverage }

/-- Iterations in a row that serve requests, each with the cells recorded before it. -/
inductive Serves (E : Evaluator) : Loop → List (List Nat × Verdict) → Loop → Prop
  | nil (l : Loop) : Serves E l [] l
  | cons {l middle last : Loop} {cells : List Nat} {v : Verdict} {rest : List (List Nat × Verdict)}
      (h : iteration E (l.recording cells) = (.ok v, middle)) (hs : Serves E middle rest last) :
      Serves E l ((cells, v) :: rest) last

theorem Serves.executions {E : Evaluator} {l last : Loop} {history : List (List Nat × Verdict)}
    (h : Serves E l history last) : last.executions = l.executions + history.length := by
  induction h with
  | nil l => rfl
  | @cons l middle last cells v rest hi hs ih =>
    have hone : middle.executions = l.executions + 1 := (served_of_ok hi).executions
    rw [ih, hone, List.length_cons]
    omega

theorem Serves.sent {E : Evaluator} {l last : Loop} {history : List (List Nat × Verdict)}
    (h : Serves E l history last) :
    last.sent = l.sent ++ (history.map Prod.snd).flatMap Verdict.bytes := by
  induction h with
  | nil l => exact (List.append_nil _).symm
  | @cons l middle last cells v rest hi hs ih =>
    have hone : middle.sent = l.sent ++ v.bytes := (served_of_ok hi).sent
    rw [ih, hone, List.map_cons, List.flatMap_cons, List.append_assoc]

theorem length_flatMap_bytes (verdicts : List Verdict) :
    (verdicts.flatMap Verdict.bytes).length = 4 * verdicts.length := by
  induction verdicts with
  | nil => rfl
  | cons v rest ih =>
    rw [List.flatMap_cons, List.length_append, ih, v.length_bytes, List.length_cons]
    omega

theorem wordOf_flatMap_bytes (verdicts : List Verdict) (tail : Bytes) {i : Nat} (hi : i < verdicts.length) :
    wordOf (((verdicts.flatMap Verdict.bytes ++ tail).drop (4 * i)).take 4) = (verdicts[i]).status := by
  induction verdicts generalizing i with
  | nil => exact absurd hi (Nat.not_lt_zero i)
  | cons v rest ih =>
    rw [List.flatMap_cons, List.append_assoc]
    cases i with
    | zero =>
      rw [Nat.mul_zero, List.drop_zero, List.take_left' v.length_bytes, v.wordOf_bytes]
      rfl
    | succ i =>
      rw [show 4 * (i + 1) = v.bytes.length + 4 * i by rw [v.length_bytes]; omega, List.drop_length_add_append]
      exact ih (Nat.lt_of_succ_lt_succ hi)

theorem Serves.statuses {E : Evaluator} {l last l' : Loop} {history : List (List Nat × Verdict)}
    (h : Serves E l history last) {tail : Bytes} (ht : tail.length ≤ 4) (hs : l'.sent = last.sent ++ tail) :
    ∃ out, l'.sent = l.sent ++ out ∧ 4 * history.length ≤ out.length ∧
      out.length ≤ 4 * history.length + 4 ∧
      ∀ i (h : i < history.length), wordOf ((out.drop (4 * i)).take 4) = (history[i]).2.status := by
  have hlen : (history.map Prod.snd).length = history.length := List.length_map _
  refine ⟨(history.map Prod.snd).flatMap Verdict.bytes ++ tail, ?_, ?_, ?_, fun i hi => ?_⟩
  · rw [hs, h.sent, List.append_assoc]
  · rw [List.length_append, length_flatMap_bytes, hlen]
    omega
  · rw [List.length_append, length_flatMap_bytes, hlen]
    omega
  · rw [wordOf_flatMap_bytes _ tail (hlen.symm ▸ hi), List.getElem_map]

theorem Stopped.tail {E : Evaluator} {l l' : Loop} {e : LoopError} (h : l.Stopped E e l') :
    ∃ tail : Bytes, tail.length ≤ 4 ∧ l'.sent = l.sent ++ tail := by
  rcases h.sent with hn | ⟨reason, v, count, -, -, -, hp⟩
  · exact ⟨[], Nat.zero_le 4, hn.trans (List.append_nil _).symm⟩
  · exact ⟨v.bytes.take count, v.length_bytes ▸ List.length_take_le' _ _, hp⟩

theorem Served.cell {E : Evaluator} {l l' : Loop} {v : Verdict} (h : l.Served E v l') {t : GuardTable}
    (ht : l.coverage.table = some t) {i : Nat} (hi : i < l.coverage.used t)
    (hsize : t.start + i < l.coverage.cells.size) :
    l'.coverage.cell (t.start + i) = UInt32.ofNat (i + 1) := by
  have hin : t.start ≤ t.start + i ∧ t.start + i < t.start + l.coverage.used t ∧
      t.start + i < l.coverage.cells.size := ⟨Nat.le_add_right _ _, by omega, hsize⟩
  rw [h.coverage, Coverage.cell_reset ht, if_pos hin, Nat.add_sub_cancel_left]

theorem runFor_ends (E : Evaluator) {requests : Nat} {l : Loop} (h : l.channel.control.size < requests) :
    ∃ (verdicts : List Verdict) (last : Loop) (a : Abrupt LoopError) (l' : Loop),
      Serves E l (verdicts.map ([], ·)) last ∧ iteration E last = (.error a, l') ∧
      runFor E requests l = (.error a, l') := by
  induction requests generalizing l with
  | zero => exact absurd h (Nat.not_lt_zero _)
  | succ requests ih =>
    rcases hi : iteration E l with ⟨a | v, middle⟩
    · exact ⟨[], l, a, middle, .nil l, hi, by rw [runFor, Action.bind_of_error hi]⟩
    · have hc := (served_of_ok hi).control
      obtain ⟨verdicts, last, a, l', hs, hl, hr⟩ := ih (l := middle) (by omega)
      exact ⟨v :: verdicts, last, a, l', Serves.cons (by exact hi) hs, hl, by
        rw [runFor, Action.bind_of_ok hi, hr]⟩

/-- An iteration serves its request completely, or throws the first fault and leaves
everything but a part of the status as it was. So a row of iterations that ends by a
fault has counted and sent the verdicts before it, and sent at most one status more. -/
theorem statuses_sent_before_first_fault (E : Evaluator) :
    (∀ l v l', iteration E l = (.ok v, l') →
      l.Judged E v ∧ l'.sent = l.sent ++ v.bytes ∧ l'.executions = l.executions + 1 ∧
      ∀ t, l.coverage.table = some t → ∀ i < l.coverage.used t, t.start + i < l.coverage.cells.size →
        l'.coverage.cell (t.start + i) = UInt32.ofNat (i + 1)) ∧
    (∀ l e l', iteration E l = (.error (.thrown e), l') →
      l'.executions = l.executions ∧ l'.coverage = l.coverage ∧
      (l'.sent = l.sent ∨ ∃ reason v count, e = .protocol (.statusWrite reason) ∧ l.Judged E v ∧
        count ≤ 4 ∧ l'.sent = l.sent ++ v.bytes.take count)) ∧
    (∀ l e, (∃ l', iteration E l = (.error (.thrown e), l')) ↔ l.FirstFault E e) ∧
    (∀ l history last cells e l', Serves E l history last →
      iteration E (last.recording cells) = (.error (.thrown e), l') →
      l'.executions = l.executions + history.length ∧
      ∃ out, l'.sent = l.sent ++ out ∧ 4 * history.length ≤ out.length ∧
        out.length ≤ 4 * history.length + 4 ∧
        ∀ i (h : i < history.length), wordOf ((out.drop (4 * i)).take 4) = (history[i]).2.status) ∧
    ∀ l, ∃ (verdicts : List Verdict) (last l' : Loop),
      Serves E l (verdicts.map ([], ·)) last ∧ (run E l).2 = l' ∧
      ((∃ e, iteration E last = (.error (.thrown e), l') ∧ (run E l).1 = .error (.thrown e)) ∨
        last.Unfinished E) := by
  refine ⟨fun l v l' h => ?_, fun l e l' h => ?_, fun l e => ⟨fun ⟨l', h⟩ => (stopped_of_thrown h).fault,
    thrown_of_firstFault⟩, fun l history last cells e l' hs h => ?_, fun l => ?_⟩
  · have hserved := served_of_ok h
    exact ⟨hserved.judged, hserved.sent, hserved.executions, fun t ht i hi => hserved.cell ht hi⟩
  · have hstopped := stopped_of_thrown h
    exact ⟨hstopped.executions, hstopped.coverage, hstopped.sent⟩
  · have hstopped := stopped_of_thrown h
    obtain ⟨tail, ht, hsent⟩ := hstopped.tail
    exact ⟨hstopped.executions.trans hs.executions, hs.statuses ht hsent⟩
  · obtain ⟨verdicts, last, a, l', hs, hi, hr⟩ := runFor_ends E (Nat.lt_succ_self l.channel.control.size)
    refine ⟨verdicts, last, l', hs, congrArg Prod.snd hr, ?_⟩
    rcases iteration_cases E last with ⟨v, m, hi', -⟩ | ⟨e, m, hi', -⟩ | ⟨b, m, -, -, hu⟩
    · rw [hi'] at hi
      cases hi
    · rw [hi'] at hi
      cases hi
      exact .inl ⟨e, hi', congrArg Prod.fst hr⟩
    · exact .inr hu

/-- A request for the empty script before an unknown word; the first of two edges is ready. -/
def guarded : Loop where
  channel := { control := [.bytes (encode "exec" ++ bytesOfWord 8 0 ++ encode "quit")] }
  coverage := { cells := #[1, 0], table := some { start := 0, stop := 2, region := { key := none } } }

theorem statuses_sent_of_guarded :
    let E := Evaluator.ofFuel ⟨1, 1⟩
    let middle := (iteration E (guarded.recording [0])).2
    let word := wordOf (encode "quit")
    iteration E (guarded.recording [0]) = (.ok .success, middle) ∧ middle.sent = [0, 0, 0, 0] ∧
    middle.coverage.cell 0 = 1 ∧ middle.coverage.cell 1 = 2 ∧
    ∃ l', iteration E (middle.recording []) = (.error (.thrown (.protocol (.unknownAction word))), l') ∧
      l'.coverage = middle.coverage ∧ l'.executions = 1 ∧
      ∃ out, l'.sent = out ∧ 4 ≤ out.length ∧ out.length ≤ 8 ∧
        wordOf (out.take 4) = Verdict.success.status := by
  intro E middle word
  have hi : iteration E (guarded.recording [0]) = (.ok .success, middle) :=
    Prod.ext (Action.ok_of_toOption (by decide +kernel)) rfl
  obtain ⟨served, stopped, fault, row, -⟩ := statuses_sent_before_first_fault E
  obtain ⟨-, hsent, -, hcells⟩ := served _ _ _ hi
  obtain ⟨t, ht, hstart, hused⟩ : ∃ t, (guarded.recording [0]).coverage.table = some t ∧ t.start = 0 ∧
      (guarded.recording [0]).coverage.used t = 2 := ⟨_, rfl, rfl, rfl⟩
  have hsize : (guarded.recording [0]).coverage.cells.size = 2 := rfl
  have hzero := hcells t ht 0 (by omega) (by omega)
  have hone := hcells t ht 1 (by omega) (by omega)
  rw [hstart] at hzero hone
  have hword : middle.channel.control.atoms = (encode "quit").map .byte ++ [] := by decide +kernel
  clear_value middle
  obtain ⟨l', hl⟩ := (fault (middle.recording []) _).mpr
    (.reading (.unknown (by decide +kernel) (by decide +kernel) hword))
  obtain ⟨-, hcoverage, -⟩ := stopped _ _ _ hl
  have hs : Serves E guarded [([0], .success)] middle := .cons hi (.nil middle)
  obtain ⟨hexecutions, out, hout, hmin, hmax, hstatus⟩ := row guarded _ middle [] _ l' hs hl
  exact ⟨hi, hsent, hzero, hone, l', hl, hcoverage, hexecutions, out, hout, hmin, hmax,
    by simpa only [Nat.mul_zero, List.drop_zero, List.getElem_cons_zero] using hstatus 0 Nat.one_pos⟩

end Loop

end Reprl
