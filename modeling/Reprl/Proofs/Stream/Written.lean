import Reprl.Proofs.Outcome
import Reprl.Stream.Sink

/-! What a sink has accepted after a write. Whatever the sink answers, it is a prefix of
what was offered, and all of it if the write succeeds; a steady sink accepts all. -/

namespace Reprl.Stream.Sink

open Reprl.Text (Bytes)

/-- The sink never fails. It may be interrupted and accept short writes. -/
structure Steady (sink : Sink) : Prop where
  accepts : ∀ log offered, 0 < offered → ∃ count, 0 < count ∧ sink.onWrite log offered = .accepts count
  flushes : ∀ log, sink.onFlush log = none

theorem reliable_steady : reliable.Steady :=
  ⟨fun _ offered h => ⟨offered, h, rfl⟩, fun _ => rfl⟩

theorem Steady.withLog {sink : Sink} (h : sink.Steady) (log : SinkLog) :
    ({ sink with log } : Sink).Steady := ⟨h.accepts, h.flushes⟩

theorem contents_accepted (log : SinkLog) (bytes : Bytes) :
    (log.accepted bytes).contents.toList = log.contents.toList ++ bytes := by
  simp [SinkLog.accepted]

theorem write_prefix (bytes : Bytes) (sink : Sink) :
    ∃ count, count ≤ bytes.length ∧
      (write bytes sink).2.contents = sink.contents ++ bytes.take count ∧
      ((write bytes sink).1 = .ok count ∨ ∃ reason, (write bytes sink).1 = .error reason) := by
  unfold write
  dsimp only
  split
  · next reason _ => exact ⟨0, by simp, by simp [contents, SinkLog.called], .inr ⟨reason, rfl⟩⟩
  · next count _ =>
    split
    · exact ⟨0, by simp, by simp [contents, SinkLog.called], .inl rfl⟩
    · refine ⟨min count bytes.length, Nat.min_le_right _ _, ?_, .inl (by simp [List.length_take])⟩
      rw [contents, contents_accepted, List.take_eq_take_min]
      rfl

theorem writeTimes_cons (times : Nat) (b : UInt8) (rest : Bytes) (sink : Sink) :
    writeTimes (times + 1) (b :: rest) sink =
      match write (b :: rest) sink with
      | (.ok 0, sink) => (.error "failed to write whole buffer", sink)
      | (.ok (taken + 1), sink) => writeTimes times (rest.drop taken) sink
      | (.error reason, sink) => (.error reason, sink) := by
  rw [writeTimes, Action.bind_apply]
  · rcases write (b :: rest) sink with ⟨_ | (_ | taken), after⟩ <;> rfl
  · exact List.cons_ne_nil b rest

/-- Bytes go out in order: a prefix of them is accepted, and all if the write succeeds. -/
theorem writeTimes_prefix (times : Nat) (bytes : Bytes) (sink : Sink) :
    ∃ count, count ≤ bytes.length ∧
      (writeTimes times bytes sink).2.contents = sink.contents ++ bytes.take count ∧
      ((writeTimes times bytes sink).1 = .ok () → count = bytes.length) := by
  induction times generalizing bytes sink with
  | zero =>
    cases bytes with
    | nil => exact ⟨0, Nat.le_refl _, (List.append_nil _).symm, fun _ => rfl⟩
    | cons b rest => exact ⟨0, Nat.zero_le _, (List.append_nil _).symm, nofun⟩
  | succ times ih =>
    cases bytes with
    | nil => exact ⟨0, Nat.le_refl _, (List.append_nil _).symm, fun _ => rfl⟩
    | cons b rest =>
      obtain ⟨count, hle, hc, hr⟩ := write_prefix (b :: rest) sink
      rw [writeTimes_cons]
      rcases he : write (b :: rest) sink with ⟨reason | (_ | taken), after⟩
      · rw [he] at hc
        exact ⟨count, hle, hc, nofun⟩
      · rw [he] at hc
        exact ⟨count, hle, hc, nofun⟩
      · have ht : count = taken + 1 := by simpa [he, eq_comm] using hr
        subst ht
        rw [he] at hc
        obtain ⟨more, hm, hc', hr'⟩ := ih (rest.drop taken) after
        simp only [List.length_drop] at hm hr'
        simp only [List.length_cons] at hle ⊢
        refine ⟨taken + 1 + more, by omega, ?_, fun hh => by have := hr' hh; omega⟩
        rw [hc', hc, List.append_assoc, ← List.drop_succ_cons (a := b), ← List.take_add]

theorem contents_flush (sink : Sink) : (flush sink).2.contents = sink.contents := by
  unfold flush
  split <;> rfl

theorem Steady.write {sink : Sink} (h : sink.Steady) {bytes : Bytes} (hb : bytes ≠ []) :
    ∃ taken after, write bytes sink = (.ok (taken + 1), after) ∧ after.Steady ∧
      taken + 1 ≤ bytes.length ∧ after.contents = sink.contents ++ bytes.take (taken + 1) := by
  have hlen : 0 < bytes.length := List.length_pos_iff.mpr hb
  obtain ⟨count, hpos, ha⟩ := h.accepts (sink.log.called (sink.interruptions sink.log)) _ hlen
  have hne : (bytes.take count).isEmpty = false := by
    simp [List.isEmpty_eq_false_iff, hb, Nat.pos_iff_ne_zero.mp hpos]
  obtain ⟨taken, ht⟩ : ∃ n, (bytes.take count).length = n + 1 :=
    ⟨(bytes.take count).length - 1, by simp only [List.length_take]; omega⟩
  have hle : taken + 1 ≤ bytes.length := by rw [← ht]; exact List.length_take_le' _ _
  have htake : bytes.take count = bytes.take (taken + 1) := by
    rw [← ht, List.length_take, ← List.take_eq_take_min]
  let asked := sink.log.called (sink.interruptions sink.log)
  refine ⟨taken, { sink with log := (asked.called 1).accepted (bytes.take count) }, ?_,
    h.withLog _, hle, ?_⟩
  · simp only [Sink.write, ha, hne, ht]
    rfl
  · rw [contents, contents_accepted, ← htake]
    rfl

theorem Steady.writeTimes {times : Nat} {bytes : Bytes} {sink : Sink} (h : sink.Steady)
    (hb : bytes.length ≤ times) :
    ∃ after, writeTimes times bytes sink = (.ok (), after) ∧ after.Steady ∧
      after.contents = sink.contents ++ bytes := by
  induction times generalizing bytes sink with
  | zero =>
    have hz : bytes = [] := List.eq_nil_of_length_eq_zero (Nat.le_zero.mp hb)
    subst hz
    exact ⟨sink, rfl, h, (List.append_nil _).symm⟩
  | succ times ih =>
    cases bytes with
    | nil => exact ⟨sink, rfl, h, (List.append_nil _).symm⟩
    | cons b rest =>
      obtain ⟨taken, after, hw, hs, hle, hc⟩ := h.write (List.cons_ne_nil b rest)
      obtain ⟨last, hl, hls, hlc⟩ := ih hs (show (rest.drop taken).length ≤ times by
        simp only [List.length_cons] at hb
        simp only [List.length_drop]
        omega)
      refine ⟨last, ?_, hls, ?_⟩
      · rw [writeTimes_cons, hw]
        exact hl
      · rw [hlc, hc, List.append_assoc, List.take_succ_cons, List.cons_append, List.take_append_drop]

theorem Steady.writeAll {sink : Sink} (h : sink.Steady) (bytes : Bytes) :
    ∃ after, writeAll bytes sink = (.ok (), after) ∧ after.Steady ∧
      after.contents = sink.contents ++ bytes := h.writeTimes (Nat.le_refl _)

theorem Steady.flush {sink : Sink} (h : sink.Steady) :
    ∃ after, flush sink = (.ok (), after) ∧ after.Steady ∧ after.contents = sink.contents := by
  refine ⟨{ sink with log := { sink.log with flushes := sink.log.flushes + 1 } }, ?_, h.withLog _, rfl⟩
  simp only [Sink.flush, h.flushes]

end Reprl.Stream.Sink
