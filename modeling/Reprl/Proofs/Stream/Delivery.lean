import Reprl.Proofs.Stream.Chunks

/-! What reaches the sink when a line is ended or given up. A steady sink gets the whole text
in chunks that are the same for all of them. A sink that fails and then recovers may get the
start of one chunk twice, because a chunk stays pending until all of it was accepted. -/

namespace Reprl.Stream

open Reprl.Text (Bytes encode decode)

/-- The chunks of a text, with the requests that take them out. -/
structure Sent (text : List Char) (chunks : List (List Char)) (requests : List Request) : Prop where
  flatten : chunks.flatten = text
  ne_nil : ∀ chunk ∈ chunks, rendered chunk ≠ []
  fits : ∀ chunk ∈ chunks, (rendered chunk).length ≤ chunkSize
  decodes : ∀ chunk ∈ chunks, decode (rendered chunk) = .ok (shown chunk)
  full : ∀ chunk ∈ chunks.dropLast, 4091 ≤ (rendered chunk).length
  whole : text ≠ [] → (rendered text).length ≤ chunkSize → chunks = [text]
  written : written requests = chunks.map rendered
  flushed : requests.getLast? = some .flush

theorem Sent.nil : Sent [] [] [.flush] where
  flatten := rfl
  ne_nil := fun _ h => absurd h List.not_mem_nil
  fits := fun _ h => absurd h List.not_mem_nil
  decodes := fun _ h => absurd h List.not_mem_nil
  full := fun _ h => absurd h List.not_mem_nil
  whole := fun h => absurd rfl h
  written := rfl
  flushed := rfl

theorem Sent.flushAgain {text : List Char} {chunks : List (List Char)} {requests : List Request}
    (h : Sent text chunks requests) : Sent text chunks (requests ++ [.flush]) where
  flatten := h.flatten
  ne_nil := h.ne_nil
  fits := h.fits
  decodes := h.decodes
  full := h.full
  whole := h.whole
  written := by
    rw [written_append, h.written]
    exact List.append_nil _
  flushed := List.getLast?_concat

theorem Filled.sent {text last : List Char} {chunks : List (List Char)} (h : Filled text chunks last)
    (hne : text ≠ []) : Sent text (chunks ++ [last]) (rounds (chunks ++ [last])) where
  flatten := by rw [List.flatten_append, List.flatten_singleton, h.flatten]
  ne_nil := by
    have hlast := h.last_ne_nil hne
    refine List.forall_mem_append.mpr ⟨fun chunk hc he => ?_, List.forall_mem_singleton.mpr fun he => ?_⟩
    · have hfull := h.full chunk hc
      rw [he] at hfull
      exact absurd hfull (by decide)
    · exact hlast (rendered_eq_nil_iff.mp he)
  fits := List.forall_mem_append.mpr ⟨h.fits, List.forall_mem_singleton.mpr h.last_fits⟩
  decodes := fun chunk _ => Reprl.Text.decode_encode (shown chunk)
  full := by
    rw [List.dropLast_concat]
    exact h.full
  whole := by
    intro _ hle
    have hchunks := h.whole hle
    have hflat := h.flatten
    rw [hchunks, List.flatten_nil, List.nil_append] at hflat
    rw [hchunks, List.nil_append, hflat]
  written := written_rounds _
  flushed := by
    rw [rounds_append]
    show (rounds chunks ++ ([Request.write (rendered last)] ++ [Request.flush])).getLast? = _
    rw [← List.append_assoc]
    exact List.getLast?_concat

/-- A text reaches every steady sink, in chunks that do not depend on the sink. -/
def Delivers (text : List Char) (print : Sink → Except String Unit × Sink) : Prop :=
  ∃ chunks requests, Sent text chunks requests ∧ ∀ sink : Sink, sink.Steady →
    ∃ after, print sink = (.ok (), after) ∧ Sink.serve requests sink = (.ok (), after) ∧
      after.contents = sink.contents ++ rendered text

theorem Sent.delivers {text : List Char} {chunks : List (List Char)} {requests : List Request}
    {print : Sink → Except String Unit × Sink} (h : Sent text chunks requests)
    (hp : ∀ sink after : Sink, sink.Steady → Sink.serve requests sink = (.ok (), after) →
      print sink = (.ok (), after)) : Delivers text print := by
  refine ⟨chunks, requests, h, fun sink steady => ?_⟩
  obtain ⟨after, hs, -⟩ := steady.serve requests
  refine ⟨after, hp sink after steady hs, hs, ?_⟩
  rw [Sink.contents_of_serve hs, h.written, ← rendered_flatten, h.flatten]

namespace Printing

variable {action : Action Unit} {line next : Line} {requests : List Request} {sink after : Sink}

/-- A line from its beginning, given up in the end in any case. -/
def lineOf (action : Action Unit) (sink : Sink) : Except String Unit × Sink :=
  match action ⟨{}, sink⟩ with
  | (result, p) => (result, p.abandon)

theorem printArgs_eq (args : List String) :
    printArgs args = lineOf (pushArgs args >>= fun _ => finish) := by
  funext sink
  rw [printArgs, lineOf, Action.bind_apply]
  rcases pushArgs args ⟨{}, sink⟩ with ⟨_ | _, p⟩ <;> rfl

theorem lineOf_of_serve (h : Performs (action >>= fun _ => flush) {} requests next)
    (hs : Sink.serve requests sink = (.ok (), after)) : lineOf action sink = (.ok (), after) := by
  have hrun := h.ok hs
  rw [Action.bind_apply] at hrun
  rw [lineOf]
  rcases ha : action ⟨{}, sink⟩ with ⟨_ | _, p⟩
  · simp only [ha] at hrun
    cases hrun
  · simp only [ha] at hrun
    exact congrArg (fun r : Except String Unit × Printing => (Except.ok (), r.2.sink)) hrun

/-- Arguments reach a steady sink completely, with a newline when the line is ended and without
one when it is only given up. No chunk is cut within a character or an escape. -/
theorem line_reaches_steady_sink (args : List String) :
    Delivers ((" ".intercalate args).toList ++ ['\n']) (printArgs args) ∧
      Delivers (" ".intercalate args).toList (dropArgs args) := by
  obtain ⟨chunks, last, hfilled, hpush⟩ := Performs.pushArgs args
  constructor
  · obtain ⟨more, final, hended, hfinish⟩ := Performs.finish hfilled args.length
    have hsent := hended.sent (List.append_ne_nil_of_right_ne_nil _ (List.cons_ne_nil _ _))
    -- Nothing is pending after the end, so giving the line up only flushes once more.
    have hall := (hpush.bind hfinish).bind (.flushNothing args.length)
    rw [← rounds_append, ← List.append_assoc] at hall
    refine hsent.flushAgain.delivers fun sink after _ hs => ?_
    rw [printArgs_eq]
    exact lineOf_of_serve hall hs
  · by_cases hempty : (" ".intercalate args).toList = []
    · rw [hempty] at hfilled
      obtain ⟨rfl, rfl⟩ := hfilled.eq_nil
      have hall := hpush.bind (.flushNothing args.length)
      rw [hempty]
      exact Sent.nil.delivers fun sink after _ hs => lineOf_of_serve hall hs
    · have hsent := hfilled.sent hempty
      have hall := hpush.bind (.flush (hfilled.last_ne_nil hempty) hfilled.last_fits args.length)
      rw [← rounds_append] at hall
      exact hsent.delivers fun sink after _ hs => lineOf_of_serve hall hs

/-- Two bytes a write, each after an interruption. -/
def hesitant : Sink where
  interruptions _ := 1
  onWrite _ _ := .accepts 2
  onFlush _ := none

theorem line_reaches_hesitant : hesitant.Steady ∧
    ∃ after, printArgs ["\x00é", "", "x"] hesitant = (.ok (), after) ∧
      after.contents = encode "\\u0000é  x\n" := by
  have steady : hesitant.Steady := ⟨fun _ _ _ => ⟨2, Nat.two_pos, rfl⟩, fun _ => rfl⟩
  obtain ⟨chunks, requests, -, hdelivers⟩ := (line_reaches_steady_sink ["\x00é", "", "x"]).1
  obtain ⟨after, hprint, -, hcontents⟩ := hdelivers hesitant steady
  refine ⟨steady, after, hprint, ?_⟩
  rw [hcontents]
  decide +kernel

theorem contents_writeAll (bytes : Bytes) (sink : Sink) :
    ∃ count, (Sink.writeAll bytes sink).2.contents = sink.contents ++ bytes.take count := by
  obtain ⟨count, -, hc, -⟩ := Sink.writeTimes_prefix bytes.length bytes sink
  exact ⟨count, hc⟩

theorem contents_abandon (line : Line) (sink : Sink) :
    ∃ count, (abandon ⟨line, sink⟩).contents = sink.contents ++ (encode line.pending).take count := by
  obtain ⟨count, hc⟩ := contents_writeAll (encode line.pending) sink
  have hflush : flush ⟨line, sink⟩ = (do
      unless line.pending.isEmpty do
        onSink (Sink.writeAll (encode line.pending))
        setPending ""
      onSink Sink.flush : Action Unit) ⟨line, sink⟩ := rfl
  rw [abandon, hflush]
  by_cases hp : line.pending.isEmpty
  · refine ⟨0, ?_⟩
    rw [if_pos hp, List.take_zero, List.append_nil]
    exact Sink.contents_flush sink
  · refine ⟨count, ?_⟩
    rw [if_neg hp, ← hc, Action.bind_apply]
    rcases hw : Sink.writeAll (encode line.pending) sink with ⟨_ | _, middle⟩
    · simp only [onSink, hw]
    · simp only [onSink, hw]
      exact Sink.contents_flush middle

/-- Whatever a sink answers, of a line that was begun it gets a first part and then at most two
starts of the chunk that comes next: the one that failed, and the one when the line is given up. -/
theorem contents_lineOf (h : Performs action {} requests next)
    (hfits : next.pending.utf8ByteSize ≤ chunkSize) (sink : Sink) :
    ∃ (done again rest : Bytes) (first second : Nat),
      (written requests).flatten ++ encode next.pending = done ++ again ++ rest ∧
      again.length ≤ chunkSize ∧
      (lineOf action sink).2.contents =
        sink.contents ++ done ++ again.take first ++ again.take second := by
  rcases hs : Sink.serve requests sink with ⟨reason | _, middle⟩
  · obtain ⟨stuck, hrun, done, rest, count, hflat, hcontents, hstuck⟩ := h.error hs
    obtain ⟨more, hmore⟩ := contents_abandon stuck middle
    -- The chunk that failed is still pending, and giving the line up starts it again.
    refine ⟨done, encode stuck.pending, rest ++ encode next.pending, count, more, ?_, ?_, ?_⟩
    · rw [hflat, List.append_assoc _ rest]
    · rwa [length_encode]
    · simp only [lineOf, hrun]
      rw [hmore, hcontents]
  · obtain ⟨more, hmore⟩ := contents_abandon next middle
    refine ⟨(written requests).flatten, encode next.pending, [], 0, more, ?_, ?_, ?_⟩
    · rw [List.append_nil]
    · rwa [length_encode]
    · simp only [lineOf, h.ok hs]
      rw [hmore, Sink.contents_of_serve hs, List.take_zero, List.append_nil]

theorem line_resends_one_chunk (args : List String) (sink : Sink) :
    ∃ (done again rest : Bytes) (first second : Nat),
      rendered ((" ".intercalate args).toList ++ ['\n']) = done ++ again ++ rest ∧
      again.length ≤ chunkSize ∧
      (printArgs args sink).2.contents =
        sink.contents ++ done ++ again.take first ++ again.take second := by
  obtain ⟨chunks, last, hfilled, hpush⟩ := Performs.pushArgs args
  obtain ⟨more, final, hended, hfinish⟩ := Performs.finish hfilled args.length
  obtain ⟨done, again, rest, first, second, hflat, hagain, hcontents⟩ :=
    contents_lineOf (hpush.bind hfinish) (Nat.zero_le _) sink
  refine ⟨done, again, rest, first, second, ?_, hagain, ?_⟩
  · rw [← hflat, ← rounds_append, written_rounds, ← rendered_flatten, ← List.append_assoc,
      List.flatten_append, List.flatten_singleton, hended.flatten]
    exact (List.append_nil _).symm
  · rw [printArgs_eq]
    exact hcontents

/-- Full for one write, after it accepted three bytes. -/
def recovering : Sink where
  interruptions _ := 0
  onWrite log _ := if log.calls = 1 then .fails "full" else .accepts 3
  onFlush _ := none

theorem recovering_gets_start_twice :
    (printArgs ["abcdefghij"] recovering).2.contents = encode "abcabcdefghij\n" := by
  decide +kernel

end Printing

end Reprl.Stream
