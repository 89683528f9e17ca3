import Reprl.Proofs.Intrinsic.Host
import Reprl.Proofs.Machine.Grown

/-! Printing while conversions print. The sink gets what the conversions write first, and then
the line in one piece, or its beginning if a conversion throws. -/

namespace Reprl.Intrinsic.Host

open Reprl.Stream Reprl.Stream.Printing
open Reprl.Text (Bytes)

variable {σ ε ν : Type} {host : Host σ ε ν} {failure : String → String} {s s' : σ} {value : ν} {text : String}

theorem attempt_display {δ : Type} (h : host.display value s = (.ok text, s')) :
    Action.attempt (δ := δ) (host.display value) s = (.ok (.ok text), s') := by
  rw [Action.attempt, h]

theorem printLine_pushed (hl : host.Lawful) (hd : host.display value s = (.ok text, s'))
    {line next : Line} {after : Sink}
    (hp : Printing.pushArg text ⟨line, host.sink s'⟩ = (.ok (), ⟨next, after⟩)) (rest : List ν) :
    host.printLine failure line (value :: rest) s =
      host.printLine failure next rest (host.withSink after s') := by
  have hpush : host.pushArg line text s' = (.ok (.ok (), next), host.withSink after s') := by
    rw [Host.pushArg, hl.onSink, hp]
  rw [printLine, Action.bind_of_ok (attempt_display hd)]
  exact Action.bind_of_ok hpush _

/-- Conversions leave the line pending, so the rest of it is printed as if its beginning had been
converted before. -/
theorem printLine_converted (hl : host.Lawful) (failure : String → String) {values : List ν} {texts : List String}
    {written : List Bytes} (h : host.ConvertsAll s values texts written s') (before : List String)
    (rest : List ν) (hfits : (rendered (joined (before ++ texts))).length ≤ chunkSize) :
    host.printLine failure (pendingLine before) (values ++ rest) s =
      host.printLine failure (pendingLine (before ++ texts)) rest s' := by
  induction h generalizing before with
  | nil s => rw [List.append_nil, List.nil_append]
  | @cons s middle s' value values text texts written more hfirst _ ih =>
    have hcut : before ++ text :: texts = before ++ [text] ++ texts := by simp
    rw [hcut] at hfits ⊢
    have hone : (rendered (joined (before ++ [text]))).length ≤ chunkSize :=
      Nat.le_trans (length_rendered_of_isPrefix (joined_of_isPrefix _ texts)) hfits
    rw [← ih (before ++ [text]) hfits, List.cons_append,
      printLine_pushed hl hfirst.run (pushArg_within hone (host.sink middle)), hl.withSink_sink]

theorem printLine_ended (hl : host.Lawful) {texts : List String}
    (hfits : (rendered (joined texts ++ ['\n'])).length ≤ chunkSize) {after : Sink}
    (hs : Sink.serve [.write (rendered (joined texts ++ ['\n'])), .flush, .flush] (host.sink s) =
      (.ok (), after)) :
    host.printLine failure (pendingLine texts) [] s = (.ok (), host.withSink after s) := by
  have hclose : host.close (pendingLine texts) s = (.ok (.ok ()), host.withSink after s) := by
    rw [Host.close, hl.onSink, close_within hfits hs]
  rw [printLine]
  exact Action.bind_of_ok hclose _

theorem printLine_thrown (hl : host.Lawful) {texts : List String}
    (hfits : (rendered (joined texts)).length ≤ chunkSize) {value : ν} {rest : List ν} {e : ε}
    {last : Bytes} (h : host.Converts s value (.error e) last s') {after : Sink}
    (hs : Sink.serve (givenUp (joined texts)) (host.sink s') = (.ok (), after)) :
    host.printLine failure (pendingLine texts) (value :: rest) s =
      (.error (.thrown e), host.withSink after s') := by
  have hattempt : Action.attempt (δ := ε) (host.display value) s = (.ok (.error e), s') := by
    rw [Action.attempt, h.run]
    rfl
  have habandon : host.abandon (pendingLine texts) s' = (.ok (), host.withSink after s') := by
    rw [Host.abandon, hl.onSink, abandon_within hfits hs]
  rw [printLine, Action.bind_of_ok hattempt]
  exact Action.bind_of_ok habandon _

/-- Lines of at most one chunk stay whole, whatever their conversions write to the same sink. What
a conversion throws is what printing throws, and no value after it is converted. -/
theorem lines_stay_whole (hl : host.Lawful) (hs : (host.sink s).Steady) {selector : ν}
    (hsel : host.selector selector = some "FUZZILLI_PRINT") {values : List ν}
    {texts : List String} {written : List Bytes} (h : host.ConvertsAll s values texts written s') :
    ((rendered (joined texts ++ ['\n'])).length ≤ chunkSize →
      ∃ after, dispatch host (selector :: values) s = (.ok (), host.withSink after s') ∧
        Sink.serve [.write (rendered (joined texts ++ ['\n'])), .flush, .flush] (host.sink s') =
          (.ok (), after) ∧
        after.contents =
          (host.sink s).contents ++ written.flatten ++ rendered (joined texts ++ ['\n'])) ∧
    ∀ (value : ν) (rest : List ν) (e : ε) (last : Bytes) (s'' : σ),
      host.Converts s' value (.error e) last s'' → (rendered (joined texts)).length ≤ chunkSize →
      ∃ after, dispatch host (selector :: (values ++ value :: rest)) s =
          (.error (.thrown e), host.withSink after s'') ∧
        Sink.serve (givenUp (joined texts)) (host.sink s'') = (.ok (), after) ∧
        after.contents =
          (host.sink s).contents ++ written.flatten ++ last ++ rendered (joined texts) := by
  have hdispatch : ∀ values, dispatch host (selector :: values) s =
      host.printLine writeFailure (pendingLine []) values s := by
    intro values
    rw [dispatch, hsel]
    rfl
  constructor
  · intro hfits
    obtain ⟨after, hserve, -⟩ := (h.steady hs).serve
      [.write (rendered (joined texts ++ ['\n'])), .flush, .flush]
    refine ⟨after, ?_, hserve, ?_⟩
    · have hbefore := length_rendered_of_isPrefix (List.prefix_append (joined texts) ['\n'])
      have hconverted := printLine_converted hl writeFailure h [] []
        (Nat.le_trans hbefore hfits)
      rw [List.append_nil] at hconverted
      rw [hdispatch, hconverted]
      exact printLine_ended hl hfits hserve
    · rw [Sink.contents_of_serve hserve, h.contents]
      simp [Stream.written, Request.bytes?]
  · intro value rest e last s'' hthrown hfits
    obtain ⟨after, hserve, -⟩ := hthrown.steady.serve (givenUp (joined texts))
    refine ⟨after, ?_, hserve, ?_⟩
    · rw [hdispatch, printLine_converted hl writeFailure h [] (value :: rest) hfits]
      exact printLine_thrown hl hfits hthrown hserve
    · rw [Sink.contents_of_serve hserve, hthrown.contents, h.contents, written_givenUp]

end Reprl.Intrinsic.Host

namespace Reprl.Intrinsic

open Reprl.Source Reprl.Stream
open Reprl.Text (encode)

/-- The body of a function that prints something of its own before it ends. -/
def aside (printed : Expr) (ending : Stmt) : Body :=
  .block [.expression (.call (.identifier "fuzzilli") [.item (.string "FUZZILLI_PRINT"), .item printed]),
    ending]

def withMethod (body : Body) : Object :=
  ({} : Object).set "toString" (.function 0 (.closure ⟨none, [], body, globalEnv⟩))

/-- A machine with two more objects, whose conversions print. The first prints an object that
prints again, and the second throws. -/
def withInterrupters (m : Machine) : Machine :=
  let deep := Function.mk none []
    (aside (.string "deep") (.returnValue (some (.string "in")))) false false
  let first := aside (.object [.keyed (.name "toString") (.arrow deep)])
    (.returnValue (some (.string "b")))
  let second := aside (.string "out") (.throwValue (.string "e"))
  { m with heap := (m.heap.add (.object (withMethod first))).add (.object (withMethod second)) }

theorem fuzz_withInterrupters (m : Machine) : (withInterrupters m).fuzz = m.fuzz := rfl

theorem stdout_withInterrupters (m : Machine) :
    (withInterrupters m).console.stdout = m.console.stdout := rfl

def interrupting : Machine := withInterrupters (.new .fuzzer Printing.hesitant {})

/-- A value that was thrown, if it is a text. -/
def thrownText : Except (Abrupt Value) String → Option String
  | .error (.thrown (.string text)) => some text
  | _ => none

theorem eq_of_thrownText {result : Except (Abrupt Value) String} {text : String}
    (h : thrownText result = some text) : result = .error (.thrown (.string text)) := by
  rcases result with (((_ | _ | _ | _ | s | _) | _ | _) | _) <;> cases h
  rfl

def interrupter : Evaluator := .ofFuel ⟨30, 5⟩

open Host in
theorem lines_stay_whole_while_interrupted :
    ∃ (start m m' : Machine) (written : List Reprl.Text.Bytes) (last : Reprl.Text.Bytes)
      (after : Sink),
      start = interrupting ∧ interrupter.fuzzHost.Lawful ∧
      (interrupter.fuzzHost.sink start).Steady ∧
      interrupter.fuzzHost.ConvertsAll start [.string "a", .object 2] ["a", "b"] written m ∧
      interrupter.fuzzHost.Converts m (.object 3) (.error (.string "e")) last m' ∧
      dispatch interrupter.fuzzHost
        [.string "FUZZILLI_PRINT", .string "a", .object 2, .object 3, .string "never"] start =
          (.error (.thrown (.string "e")), interrupter.fuzzHost.withSink after m') ∧
      after.contents = encode "deep\nin\nout\na b" := by
  obtain ⟨start, hstart⟩ : ∃ start, start = interrupting := ⟨_, rfl⟩
  have hsteady : Printing.hesitant.Steady := ⟨fun _ _ _ => ⟨2, Nat.two_pos, rfl⟩, fun _ => rfl⟩
  have hnew : Machine.Appended _ _ (.new .fuzzer default {}) (.new .fuzzer Printing.hesitant {}) :=
    Machine.appended_new hsteady Sink.reliable_steady
  have hbounds : start.levels.InBounds := by
    rw [hstart]
    decide +kernel
  have hfuzz : start.fuzz.Steady := by
    rw [hstart, interrupting, fuzz_withInterrupters]
    exact hnew.fuzz.steady'
  have hstdout : start.console.stdout.Steady := by
    rw [hstart, interrupting, stdout_withInterrupters]
    exact hnew.stdout.steady'
  have hfirst : interrupter.display (.string "a") start = (.ok "a", start) := rfl
  have hsecond : (interrupter.display (.object 2) start).1 = .ok "b" := by
    rw [hstart]
    exact Action.ok_of_toOption (by decide +kernel)
  have hthird : (interrupter.display (.object 3) (interrupter.display (.object 2) start).2).1 =
      .error (.thrown (.string "e")) := by
    rw [hstart]
    exact eq_of_thrownText (by decide +kernel)
  have hcontents : (interrupter.fuzzHost.sink (interrupter.display (.object 3)
      (interrupter.display (.object 2) start).2).2).contents = encode "deep\nin\nout\n" := by
    rw [hstart]
    decide +kernel
  rcases hm : interrupter.display (.object 2) start with ⟨_, m⟩
  rw [hm] at hsecond hthird hcontents
  rcases hm' : interrupter.display (.object 3) m with ⟨_, m'⟩
  rw [hm'] at hthird hcontents
  subst hsecond hthird
  obtain ⟨⟨nothing, hnothing⟩, -⟩ :=
    Evaluator.converts_display (.ok "a") hbounds hfuzz hstdout hfirst
  obtain ⟨⟨lines, hlines⟩, hlevels, hmfuzz, hmstdout⟩ :=
    Evaluator.converts_display (.ok "b") hbounds hfuzz hstdout hm
  obtain ⟨⟨last, hlast⟩, -⟩ := Evaluator.converts_display (.error (.string "e"))
    (hlevels.symm ▸ hbounds) hmfuzz hmstdout hm'
  have hall : interrupter.fuzzHost.ConvertsAll start [.string "a", .object 2] ["a", "b"]
      [nothing, lines] m := .cons hnothing (.cons hlines (.nil m))
  have hthrows : interrupter.fuzzHost.Converts m (.object 3) (.error (.string "e")) last m' := hlast
  have hl := interrupter.lawful_fuzzHost
  have hs : (interrupter.fuzzHost.sink start).Steady := by
    rw [Evaluator.sink_fuzzHost]
    cases start.outlet with
    | fuzzer => exact hfuzz
    | standard => exact hstdout
  have hsel : interrupter.fuzzHost.selector (.string "FUZZILLI_PRINT") = some "FUZZILLI_PRINT" := rfl
  obtain ⟨-, hthrown⟩ := lines_stay_whole hl hs hsel hall
  obtain ⟨after, hrun, -, hafter⟩ :=
    hthrown (.object 3) [.string "never"] (.string "e") last m' hthrows (by decide)
  refine ⟨start, m, m', [nothing, lines], last, after, hstart, hl, hs, hall, hthrows, hrun, ?_⟩
  rw [hafter, ← hall.contents, ← hthrows.contents, hcontents]
  decide +kernel

end Reprl.Intrinsic
