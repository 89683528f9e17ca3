import Reprl.Proofs.Stream.Printed
import Reprl.Proofs.Text.Utf8

/-! How a printed line is cut into chunks. Chunks hold whole characters, and one is written only
when the next character does not fit, so all but the last are nearly full. -/

namespace Reprl.Stream

open Reprl.Text (Bytes encode decode)

/-- Characters as a line shows them. -/
def shown (chars : List Char) : String := String.join (chars.map Printing.piece)

def rendered (chars : List Char) : Bytes := encode (shown chars)

theorem shown_append (first second : List Char) : shown (first ++ second) = shown first ++ shown second :=
  String.toList_injective (by simp [shown])

theorem shown_singleton (c : Char) : shown [c] = Printing.piece c :=
  String.toList_injective (by simp [shown])

theorem rendered_append (first second : List Char) :
    rendered (first ++ second) = rendered first ++ rendered second := by
  simp only [rendered, shown_append, Reprl.Text.encode_eq, String.toList_append, List.flatMap_append]

theorem rendered_flatten (chunks : List (List Char)) :
    rendered chunks.flatten = (chunks.map rendered).flatten := by
  induction chunks with
  | nil => rfl
  | cons chunk rest ih => rw [List.flatten_cons, rendered_append, ih, List.map_cons, List.flatten_cons]

theorem length_encode (s : String) : (encode s).length = s.utf8ByteSize := by simp [encode]

theorem utf8ByteSize_shown (chars : List Char) : (shown chars).utf8ByteSize = (rendered chars).length :=
  (length_encode _).symm

theorem length_rendered_singleton (c : Char) :
    0 < (rendered [c]).length ∧ (rendered [c]).length ≤ 6 := by
  rw [← utf8ByteSize_shown, shown_singleton, Printing.piece]
  split
  · decide
  · have hpos := c.utf8Size_pos
    have hle := c.utf8Size_le_four
    have hsize : c.toString.utf8ByteSize = c.utf8Size := by simp
    omega

theorem rendered_eq_nil_iff {chars : List Char} : rendered chars = [] ↔ chars = [] := by
  refine ⟨fun h => ?_, fun h => by rw [h]; rfl⟩
  cases chars with
  | nil => rfl
  | cons c rest =>
    have hc := (length_rendered_singleton c).1
    rw [← List.singleton_append, rendered_append, List.append_eq_nil_iff] at h
    rw [h.1] at hc
    exact absurd hc (Nat.lt_irrefl 0)

inductive Request where
  | write (bytes : Bytes)
  | flush

namespace Request

def perform : Request → Sink.Action Unit
  | write bytes => Sink.writeAll bytes
  | flush => Sink.flush

def bytes? : Request → Option Bytes
  | write bytes => some bytes
  | flush => none

end Request

def written (requests : List Request) : List Bytes := requests.filterMap Request.bytes?

theorem written_append (first second : List Request) :
    written (first ++ second) = written first ++ written second := List.filterMap_append

def rounds (chunks : List (List Char)) : List Request :=
  chunks.flatMap fun chunk => [.write (rendered chunk), .flush]

theorem rounds_append (first second : List (List Char)) :
    rounds (first ++ second) = rounds first ++ rounds second := List.flatMap_append

theorem written_rounds (chunks : List (List Char)) : written (rounds chunks) = chunks.map rendered := by
  induction chunks with
  | nil => rfl
  | cons chunk rest ih => exact congrArg (rendered chunk :: ·) ih

namespace Sink

/-- Performs requests up to the first that fails. -/
def serve : List Request → Sink.Action Unit
  | [] => pure ()
  | request :: rest => do
    request.perform
    serve rest

theorem serve_append (first second : List Request) (sink : Sink) :
    serve (first ++ second) sink = (serve first >>= fun _ => serve second) sink := by
  induction first generalizing sink with
  | nil => rfl
  | cons request rest ih =>
    simp only [List.cons_append, serve, Action.bind_apply]
    rcases request.perform sink with ⟨_ | _, after⟩
    · rfl
    · exact (ih after).trans (Action.bind_apply _ _ _)

theorem serve_singleton (request : Request) (sink : Sink) : serve [request] sink = request.perform sink := by
  rw [serve, Action.bind_apply]
  rcases request.perform sink with ⟨_ | _, after⟩ <;> rfl

theorem Steady.serve {sink : Sink} (h : sink.Steady) (requests : List Request) :
    ∃ after, serve requests sink = (.ok (), after) ∧ after.Steady := by
  induction requests generalizing sink with
  | nil => exact ⟨sink, rfl, h⟩
  | cons request rest ih =>
    obtain ⟨middle, hperform, hsteady⟩ :
        ∃ middle, request.perform sink = (.ok (), middle) ∧ middle.Steady := by
      cases request with
      | write bytes =>
        obtain ⟨after, hw, hs, -⟩ := h.writeAll bytes
        exact ⟨after, hw, hs⟩
      | flush =>
        obtain ⟨after, hf, hs, -⟩ := h.flush
        exact ⟨after, hf, hs⟩
    obtain ⟨after, hserve, hsteady'⟩ := ih hsteady
    exact ⟨after, (Action.bind_of_ok hperform _).trans hserve, hsteady'⟩

theorem contents_of_serve {requests : List Request} {sink after : Sink}
    (h : serve requests sink = (.ok (), after)) :
    after.contents = sink.contents ++ (written requests).flatten := by
  induction requests generalizing sink with
  | nil =>
    cases h
    exact (List.append_nil _).symm
  | cons request rest ih =>
    rw [serve, Action.bind_apply] at h
    rcases hp : request.perform sink with ⟨_ | _, middle⟩
    · simp only [hp] at h
      cases h
    · simp only [hp] at h
      rw [ih h]
      cases request with
      | write bytes =>
        obtain ⟨count, -, hc, hall⟩ := writeTimes_prefix bytes.length bytes sink
        have hcount : count = bytes.length := hall (congrArg Prod.fst hp)
        have hmiddle : middle.contents = sink.contents ++ bytes := by
          rw [hcount, List.take_length] at hc
          exact (congrArg (contents ∘ Prod.snd) hp).symm.trans hc
        rw [hmiddle, List.append_assoc]
        rfl
      | flush =>
        have hmiddle : middle.contents = sink.contents :=
          (congrArg (contents ∘ Prod.snd) hp).symm.trans (contents_flush sink)
        rw [hmiddle]
        rfl

end Sink

/-- The characters of a line so far, as those of the chunks that went out and those that are pending. -/
structure Filled (line : List Char) (chunks : List (List Char)) (last : List Char) : Prop where
  flatten : chunks.flatten ++ last = line
  fits : ∀ chunk ∈ chunks, (rendered chunk).length ≤ chunkSize
  full : ∀ chunk ∈ chunks, 4091 ≤ (rendered chunk).length
  last_fits : (rendered last).length ≤ chunkSize
  last_ne_nil : line ≠ [] → last ≠ []
  whole : (rendered line).length ≤ chunkSize → chunks = []

namespace Filled

variable {line last : List Char} {chunks : List (List Char)}

theorem nil : Filled [] [] [] where
  flatten := rfl
  fits := fun _ h => absurd h List.not_mem_nil
  full := fun _ h => absurd h List.not_mem_nil
  last_fits := Nat.zero_le _
  last_ne_nil := fun h => h
  whole := fun _ => rfl

theorem eq_nil (h : Filled [] chunks last) : chunks = [] ∧ last = [] :=
  ⟨h.whole (Nat.zero_le _), (List.append_eq_nil_iff.mp h.flatten).2⟩

theorem length_rendered_append (first second : List Char) :
    (rendered (first ++ second)).length = (rendered first).length + (rendered second).length := by
  rw [rendered_append, List.length_append]

theorem extend (h : Filled line chunks last) {c : Char}
    (hc : (rendered (last ++ [c])).length ≤ chunkSize) :
    Filled (line ++ [c]) chunks (last ++ [c]) where
  flatten := by rw [← List.append_assoc, h.flatten]
  fits := h.fits
  full := h.full
  last_fits := hc
  last_ne_nil := fun _ => List.append_ne_nil_of_right_ne_nil _ (List.cons_ne_nil c [])
  whole := fun hle => h.whole (by rw [length_rendered_append] at hle; omega)

theorem start (h : Filled line chunks last) {c : Char}
    (hc : chunkSize < (rendered (last ++ [c])).length) :
    Filled (line ++ [c]) (chunks ++ [last]) [c] where
  flatten := by rw [List.flatten_append, List.flatten_singleton, h.flatten]
  fits := List.forall_mem_append.mpr ⟨h.fits, List.forall_mem_singleton.mpr h.last_fits⟩
  full := by
    refine List.forall_mem_append.mpr ⟨h.full, List.forall_mem_singleton.mpr ?_⟩
    -- The character takes six bytes at most, so at most five are free before it.
    have hsix := (length_rendered_singleton c).2
    rw [length_rendered_append] at hc
    have hlimit : chunkSize = 4096 := rfl
    omega
  last_fits := by
    have hsix := (length_rendered_singleton c).2
    have hlimit : chunkSize = 4096 := rfl
    omega
  last_ne_nil := fun _ => List.cons_ne_nil c []
  whole := by
    intro hle
    rw [← h.flatten, List.append_assoc, length_rendered_append] at hle
    omega

end Filled

theorem toList_intercalate_cons (arg : String) (rest : List String) :
    (" ".intercalate (arg :: rest)).toList = arg.toList ++ rest.flatMap fun arg => ' ' :: arg.toList := by
  rw [String.toList_intercalate]
  induction rest generalizing arg with
  | nil => simp [List.intercalate]
  | cons next rest ih =>
    have hnext := ih next
    simp [List.intercalate] at hnext ⊢
    exact hnext

namespace Printing

def pushArgs : List String → Action Unit
  | [] => pure ()
  | arg :: rest => do
    pushArg arg
    pushArgs rest

def printArgs (args : List String) (sink : Sink) : Except String Unit × Sink :=
  match pushArgs args ⟨{}, sink⟩ with
  | (.ok (), p) => close p
  | (.error reason, p) => (.error reason, p.abandon)

def dropArgs (args : List String) (sink : Sink) : Except String Unit × Sink :=
  match pushArgs args ⟨{}, sink⟩ with
  | (result, p) => (result, p.abandon)

/-- What is left of a line after a request failed: bytes that the line would write again. Those
before them were accepted, and possibly a part of them too. -/
def Stuck (requests : List Request) (sink after : Sink) (line : Line) : Prop :=
  ∃ (done rest : Bytes) (count : Nat),
    (written requests).flatten = done ++ encode line.pending ++ rest ∧
    after.contents = sink.contents ++ done ++ (encode line.pending).take count ∧
    line.pending.utf8ByteSize ≤ chunkSize

/-- An action on a line that comes down to requests to the sink. It fails where they fail. -/
structure Performs (action : Action Unit) (line : Line) (requests : List Request) (next : Line) :
    Prop where
  ok {sink after : Sink} : Sink.serve requests sink = (.ok (), after) →
    action ⟨line, sink⟩ = (.ok (), ⟨next, after⟩)
  error {sink after : Sink} {reason : String} : Sink.serve requests sink = (.error reason, after) →
    ∃ stuck, action ⟨line, sink⟩ = (.error reason, ⟨stuck, after⟩) ∧ Stuck requests sink after stuck

namespace Performs

variable {line middle last : Line} {action next : Action Unit} {first second : List Request}

theorem of_apply (h : ∀ sink, action ⟨line, sink⟩ = (.ok (), ⟨last, sink⟩)) :
    Performs action line [] last where
  ok hs := by
    cases hs
    exact h _
  error hs := nomatch hs

theorem bind (h : Performs action line first middle) (hn : Performs next middle second last) :
    Performs (action >>= fun _ => next) line (first ++ second) last where
  ok {sink after} hs := by
    rw [Sink.serve_append, Action.bind_apply] at hs
    rcases hf : Sink.serve first sink with ⟨_ | _, between⟩
    · simp only [hf] at hs
      cases hs
    · simp only [hf] at hs
      exact (Action.bind_of_ok (h.ok hf) _).trans (hn.ok hs)
  error {sink after reason} hs := by
    rw [Sink.serve_append, Action.bind_apply] at hs
    rcases hf : Sink.serve first sink with ⟨e | _, between⟩
    · simp only [hf] at hs
      cases hs
      obtain ⟨stuck, ha, done, rest, count, hflat, hcontents, hfits⟩ := h.error hf
      refine ⟨stuck, Action.bind_of_error ha _, done, rest ++ (written second).flatten, count, ?_,
        hcontents, hfits⟩
      rw [written_append, List.flatten_append, hflat, List.append_assoc]
    · simp only [hf] at hs
      obtain ⟨stuck, ha, done, rest, count, hflat, hcontents, hfits⟩ := hn.error hs
      -- What the first part wrote has been accepted completely.
      refine ⟨stuck, (Action.bind_of_ok (h.ok hf) _).trans ha, (written first).flatten ++ done, rest,
        count, ?_, ?_, hfits⟩
      · rw [written_append, List.flatten_append, hflat]
        simp only [List.append_assoc]
      · rw [hcontents, Sink.contents_of_serve hf]
        simp only [List.append_assoc]

theorem of_eq {other : Action Unit} (h : Performs action line first last)
    (he : ∀ sink, other ⟨line, sink⟩ = action ⟨line, sink⟩) : Performs other line first last where
  ok hs := (he _).trans (h.ok hs)
  error hs := by
    obtain ⟨stuck, ha, hstuck⟩ := h.error hs
    exact ⟨stuck, (he _).trans ha, hstuck⟩

theorem of_request (request : Request) (line : Line)
    (h : ∀ {sink after reason}, request.perform sink = (.error reason, after) →
      Stuck [request] sink after line) : Performs (onSink request.perform) line [request] line where
  ok hs := by
    rw [Sink.serve_singleton] at hs
    exact congrArg (fun r : Except String Unit × Sink => (r.1, (⟨line, r.2⟩ : Printing))) hs
  error hs := by
    rw [Sink.serve_singleton] at hs
    exact ⟨line, congrArg (fun r : Except String Unit × Sink => (r.1, (⟨line, r.2⟩ : Printing))) hs, h hs⟩

theorem writeAll (line : Line) (hfits : line.pending.utf8ByteSize ≤ chunkSize) :
    Performs (onSink (Sink.writeAll (encode line.pending))) line [.write (encode line.pending)] line := by
  refine of_request (.write (encode line.pending)) line fun {sink after reason} hs => ?_
  obtain ⟨count, -, hc, -⟩ :=
    Sink.writeTimes_prefix (encode line.pending).length (encode line.pending) sink
  have hafter : (Sink.writeAll (encode line.pending) sink).2 = after := congrArg Prod.snd hs
  -- All the bytes are still pending, though the sink may have accepted the first of them.
  refine ⟨[], [], count, ?_, ?_, hfits⟩
  · simp [written, Request.bytes?]
  · rw [List.append_nil, ← hc, ← hafter]
    rfl

theorem flushSink (args : Nat) : Performs (onSink Sink.flush) ⟨"", args⟩ [.flush] ⟨"", args⟩ := by
  refine of_request .flush ⟨"", args⟩ fun {sink after reason} hs => ?_
  have hafter : (Sink.flush sink).2 = after := congrArg Prod.snd hs
  refine ⟨[], [], 0, rfl, ?_, Nat.zero_le _⟩
  rw [← hafter, Sink.contents_flush]
  simp

theorem flushNothing (args : Nat) : Performs Printing.flush ⟨"", args⟩ [.flush] ⟨"", args⟩ :=
  (flushSink args).of_eq fun _ => rfl

theorem flush {chunk : List Char} (hne : chunk ≠ []) (hfits : (rendered chunk).length ≤ chunkSize)
    (args : Nat) : Performs Printing.flush ⟨shown chunk, args⟩ (rounds [chunk]) ⟨"", args⟩ := by
  have hpending : (shown chunk).isEmpty = false := by
    rw [Bool.eq_false_iff, Ne, String.isEmpty_iff]
    intro he
    exact hne (rendered_eq_nil_iff.mp (by rw [rendered, he]; rfl))
  have hwrite := writeAll ⟨shown chunk, args⟩ (by rwa [utf8ByteSize_shown])
  have hclear : Performs (setPending "") ⟨shown chunk, args⟩ [] ⟨"", args⟩ := of_apply fun _ => rfl
  refine (hwrite.bind (hclear.bind (flushSink args))).of_eq fun sink => ?_
  show (do
    unless (shown chunk).isEmpty do
      onSink (Sink.writeAll (rendered chunk))
      setPending ""
    onSink Sink.flush) (⟨⟨shown chunk, args⟩, sink⟩ : Printing) = _
  simp only [hpending]
  rfl

variable {text : List Char} {chunks : List (List Char)} {pending : List Char}

theorem append (chars : List Char) (c : Char) (args : Nat) :
    Performs (modify fun p => { p with line := { p.line with pending := p.line.pending ++ piece c } })
      ⟨shown chars, args⟩ [] ⟨shown (chars ++ [c]), args⟩ :=
  of_apply fun sink => by
    rw [shown_append, shown_singleton]
    rfl

theorem pushPiece (h : Filled text chunks pending) (c : Char) (args : Nat) :
    ∃ more next, Filled (text ++ [c]) (chunks ++ more) next ∧
      Performs (Printing.pushPiece (piece c)) ⟨shown pending, args⟩ (rounds more) ⟨shown next, args⟩ := by
  have hsize : (shown pending).utf8ByteSize + (piece c).utf8ByteSize = (rendered (pending ++ [c])).length := by
    rw [← utf8ByteSize_shown, shown_append, String.utf8ByteSize_append, shown_singleton]
  have hrun : ∀ sink : Sink, Printing.pushPiece (piece c) ⟨⟨shown pending, args⟩, sink⟩ =
      (do
        if chunkSize < (rendered (pending ++ [c])).length then Printing.flush
        modify fun p => { p with line := { p.line with pending := p.line.pending ++ piece c } }
        : Action Unit) ⟨⟨shown pending, args⟩, sink⟩ := by
    intro sink
    rw [← hsize]
    rfl
  by_cases hroom : chunkSize < (rendered (pending ++ [c])).length
  -- Something is pending, or the character would fit, so what goes out is not empty.
  · have hne : pending ≠ [] := by
      rintro rfl
      have hsix := (length_rendered_singleton c).2
      have hlimit : chunkSize = 4096 := rfl
      rw [List.nil_append] at hroom
      omega
    refine ⟨[pending], [c], h.start hroom, ?_⟩
    refine ((flush hne h.last_fits args).bind (append [] c args)).of_eq fun sink => ?_
    rw [hrun, if_pos hroom]
  · refine ⟨[], pending ++ [c], ?_, (append pending c args).of_eq fun sink => ?_⟩
    · rw [List.append_nil]
      exact h.extend (Nat.le_of_not_lt hroom)
    · rw [hrun, if_neg hroom]

theorem pushChars (h : Filled text chunks pending) (chars : List Char) (args : Nat) :
    ∃ more next, Filled (text ++ chars) (chunks ++ more) next ∧
      Performs (Printing.pushChars chars) ⟨shown pending, args⟩ (rounds more) ⟨shown next, args⟩ := by
  induction chars generalizing text chunks pending with
  | nil => exact ⟨[], pending, by simpa only [List.append_nil] using h, of_apply fun _ => rfl⟩
  | cons c rest ih =>
    obtain ⟨first, middle, hm, hfirst⟩ := pushPiece h c args
    obtain ⟨second, last, hl, hsecond⟩ := ih hm
    refine ⟨first ++ second, last, ?_, ?_⟩
    · rw [List.append_assoc, List.append_assoc] at hl
      exact hl
    · rw [rounds_append]
      exact hfirst.bind hsecond

theorem pushArg (h : Filled text chunks pending) (arg : String) (args : Nat) :
    ∃ more next, Filled (text ++ ((if 0 < args then [' '] else []) ++ arg.toList)) (chunks ++ more) next ∧
      Performs (Printing.pushArg arg) ⟨shown pending, args⟩ (rounds more) ⟨shown next, args + 1⟩ := by
  have hcount : ∀ chars, Performs
      (modify fun p => { p with line := { p.line with args := p.line.args + 1 } })
      ⟨shown chars, args⟩ [] ⟨shown chars, args + 1⟩ := fun _ => of_apply fun _ => rfl
  have hrun : ∀ sink : Sink, Printing.pushArg arg ⟨⟨shown pending, args⟩, sink⟩ =
      (do
        if 0 < args then Printing.pushPiece " "
        modify fun p => { p with line := { p.line with args := p.line.args + 1 } }
        Printing.pushChars arg.toList : Action Unit) ⟨⟨shown pending, args⟩, sink⟩ := fun _ => rfl
  by_cases hargs : 0 < args
  · obtain ⟨first, middle, hm, hspace⟩ := pushPiece h ' ' args
    obtain ⟨second, last, hl, hchars⟩ := pushChars hm arg.toList (args + 1)
    refine ⟨first ++ second, last, ?_, ?_⟩
    · rw [if_pos hargs, ← List.append_assoc, ← List.append_assoc]
      exact hl
    · rw [rounds_append]
      refine (hspace.bind ((hcount middle).bind hchars)).of_eq fun sink => ?_
      rw [hrun, if_pos hargs]
      rfl
  · obtain ⟨more, last, hl, hchars⟩ := pushChars h arg.toList (args + 1)
    refine ⟨more, last, by rwa [if_neg hargs, List.nil_append], ?_⟩
    refine ((hcount pending).bind hchars).of_eq fun sink => ?_
    rw [hrun, if_neg hargs]

theorem pushMore (h : Filled text chunks pending) (more : List String) (args : Nat) :
    ∃ sent next, Filled (text ++ more.flatMap fun arg => ' ' :: arg.toList) (chunks ++ sent) next ∧
      Performs (Printing.pushArgs more) ⟨shown pending, args + 1⟩ (rounds sent)
        ⟨shown next, args + 1 + more.length⟩ := by
  induction more generalizing text chunks pending args with
  | nil => exact ⟨[], pending, by simpa only [List.flatMap_nil, List.append_nil] using h, of_apply fun _ => rfl⟩
  | cons arg rest ih =>
    obtain ⟨first, middle, hm, hfirst⟩ := pushArg h arg (args + 1)
    rw [if_pos (Nat.succ_pos args)] at hm
    obtain ⟨second, last, hl, hsecond⟩ := ih hm (args + 1)
    refine ⟨first ++ second, last, ?_, ?_⟩
    · rw [List.append_assoc, List.append_assoc, List.append_assoc] at hl
      exact hl
    · rw [rounds_append, List.length_cons, ← Nat.add_assoc, Nat.add_right_comm (args + 1)]
      exact hfirst.bind hsecond

theorem pushArgs (args : List String) :
    ∃ chunks last, Filled (" ".intercalate args).toList chunks last ∧
      Performs (Printing.pushArgs args) {} (rounds chunks) ⟨shown last, args.length⟩ := by
  cases args with
  | nil => exact ⟨[], [], .nil, of_apply fun _ => rfl⟩
  | cons arg rest =>
    obtain ⟨first, middle, hm, hfirst⟩ := pushArg .nil arg 0
    obtain ⟨second, last, hl, hsecond⟩ := pushMore hm rest 0
    refine ⟨first ++ second, last, ?_, ?_⟩
    · rw [toList_intercalate_cons]
      exact hl
    · rw [rounds_append, List.length_cons, Nat.add_comm rest.length]
      exact hfirst.bind hsecond

theorem finish (h : Filled text chunks pending) (args : Nat) :
    ∃ more last, Filled (text ++ ['\n']) (chunks ++ more) last ∧
      Performs Printing.finish ⟨shown pending, args⟩ (rounds (more ++ [last])) ⟨"", args⟩ := by
  obtain ⟨more, last, hl, hpush⟩ := pushPiece h '\n' args
  refine ⟨more, last, hl, ?_⟩
  rw [rounds_append]
  exact hpush.bind (flush (hl.last_ne_nil (List.append_ne_nil_of_right_ne_nil _ (List.cons_ne_nil _ _)))
    hl.last_fits args)

end Performs

end Printing

end Reprl.Stream
