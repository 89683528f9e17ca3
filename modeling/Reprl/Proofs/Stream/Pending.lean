import Reprl.Proofs.Stream.Delivery

/-! Lines that fit into one chunk. All of such a line stays pending until it is ended or given up,
and then it goes out at once. -/

namespace Reprl.Stream

/-- The characters of some texts on one line. -/
def joined (texts : List String) : List Char := (" ".intercalate texts).toList

theorem joined_concat (texts : List String) (text : String) :
    joined (texts ++ [text]) =
      joined texts ++ ((if 0 < texts.length then [' '] else []) ++ text.toList) := by
  cases texts with
  | nil => rfl
  | cons first rest =>
    rw [List.cons_append, joined, joined, toList_intercalate_cons, toList_intercalate_cons]
    simp

theorem joined_of_isPrefix (texts more : List String) : joined texts <+: joined (texts ++ more) := by
  cases texts with
  | nil => exact List.nil_prefix
  | cons first rest =>
    rw [List.cons_append, joined, joined, toList_intercalate_cons, toList_intercalate_cons,
      List.flatMap_append, ← List.append_assoc]
    exact List.prefix_append _ _

theorem length_rendered_of_isPrefix {start text : List Char} (h : start <+: text) :
    (rendered start).length ≤ (rendered text).length := by
  obtain ⟨rest, rfl⟩ := h
  rw [rendered_append, List.length_append]
  exact Nat.le_add_right _ _

theorem Filled.within {text : List Char} (h : (rendered text).length ≤ chunkSize) :
    Filled text [] text where
  flatten := rfl
  fits := fun _ hmem => absurd hmem List.not_mem_nil
  full := fun _ hmem => absurd hmem List.not_mem_nil
  last_fits := h
  last_ne_nil := id
  whole := fun _ => rfl

/-- A line that fits into one chunk has sent nothing yet. -/
theorem Filled.pending_eq {text last : List Char} {chunks : List (List Char)}
    (h : Filled text chunks last) (hfits : (rendered text).length ≤ chunkSize) :
    chunks = [] ∧ last = text := by
  have hchunks := h.whole hfits
  have hflat := h.flatten
  rw [hchunks] at hflat
  exact ⟨hchunks, hflat⟩

namespace Printing

/-- The line of some texts that are pending together. -/
def pendingLine (texts : List String) : Line := ⟨shown (joined texts), texts.length⟩

theorem pushArg_within {texts : List String} {text : String}
    (hfits : (rendered (joined (texts ++ [text]))).length ≤ chunkSize) (sink : Sink) :
    pushArg text ⟨pendingLine texts, sink⟩ = (.ok (), ⟨pendingLine (texts ++ [text]), sink⟩) := by
  have hbefore := length_rendered_of_isPrefix (joined_of_isPrefix texts [text])
  obtain ⟨more, next, hfilled, hpush⟩ :=
    Performs.pushArg (.within (Nat.le_trans hbefore hfits)) text texts.length
  rw [← joined_concat, List.nil_append] at hfilled
  obtain ⟨rfl, rfl⟩ := hfilled.pending_eq hfits
  rw [pendingLine, pendingLine, List.length_append, List.length_singleton]
  exact hpush.ok rfl

/-- Ending a line that fits into one chunk writes it at once. -/
theorem close_within {texts : List String}
    (hfits : (rendered (joined texts ++ ['\n'])).length ≤ chunkSize) {sink after : Sink}
    (hs : Sink.serve [.write (rendered (joined texts ++ ['\n'])), .flush, .flush] sink =
      (.ok (), after)) : close ⟨pendingLine texts, sink⟩ = (.ok (), after) := by
  have hbefore := length_rendered_of_isPrefix (List.prefix_append (joined texts) ['\n'])
  obtain ⟨more, last, hfilled, hfinish⟩ :=
    Performs.finish (.within (Nat.le_trans hbefore hfits)) texts.length
  obtain ⟨hmore, rfl⟩ := hfilled.pending_eq hfits
  obtain rfl : more = [] := hmore
  -- Nothing is pending after the end, so giving the line up only flushes once more.
  have hall := (hfinish.bind (.flushNothing texts.length)).ok hs
  rw [Action.bind_apply] at hall
  rw [close, pendingLine]
  rcases hf : finish ⟨⟨shown (joined texts), texts.length⟩, sink⟩ with ⟨_ | _, p⟩
  · simp only [hf] at hall
    cases hall
  · simp only [hf] at hall
    exact congrArg (fun r : Except String Unit × Printing => (Except.ok (), r.2.sink)) hall

/-- What giving up a pending line asks of the sink. -/
def givenUp (text : List Char) : List Request :=
  if text = [] then [.flush] else [.write (rendered text), .flush]

theorem written_givenUp (text : List Char) : (written (givenUp text)).flatten = rendered text := by
  by_cases hempty : text = []
  · rw [givenUp, if_pos hempty, hempty]
    rfl
  · rw [givenUp, if_neg hempty]
    exact List.append_nil _

theorem abandon_within {texts : List String} (hfits : (rendered (joined texts)).length ≤ chunkSize)
    {sink after : Sink} (hs : Sink.serve (givenUp (joined texts)) sink = (.ok (), after)) :
    abandon ⟨pendingLine texts, sink⟩ = after := by
  have hflush : flush ⟨pendingLine texts, sink⟩ = (.ok (), ⟨⟨"", texts.length⟩, after⟩) := by
    by_cases hempty : joined texts = []
    · rw [givenUp, if_pos hempty] at hs
      rw [pendingLine, hempty]
      exact (Performs.flushNothing texts.length).ok hs
    · rw [givenUp, if_neg hempty] at hs
      exact (Performs.flush hempty hfits texts.length).ok hs
  rw [abandon, hflush]

end Printing

end Reprl.Stream
