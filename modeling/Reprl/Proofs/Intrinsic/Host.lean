import Reprl.Intrinsic
import Reprl.Proofs.Stream.Pending

/-! Hosts whose sink is a part of their state, and conversions that write to that sink. A line
that fits into one chunk stays pending while its values are converted, whatever is written to
the sink meanwhile. -/

namespace Reprl.Intrinsic.Host

open Reprl.Stream
open Reprl.Text (Bytes)

variable {σ ε ν : Type}

def sink (host : Host σ ε ν) (s : σ) : Sink := (host.exchange default s).1

def withSink (host : Host σ ε ν) (sink : Sink) (s : σ) : σ := (host.exchange sink s).2

/-- An exchange takes the sink out of a state and puts another in its place, and no more. -/
structure Lawful (host : Host σ ε ν) : Prop where
  exchange_eq : ∀ sink s, host.exchange sink s = (host.sink s, host.withSink sink s)
  withSink_withSink : ∀ first second s,
    host.withSink second (host.withSink first s) = host.withSink second s
  withSink_sink : ∀ s, host.withSink (host.sink s) s = s

/-- A conversion that gives an answer, a text or an error, and writes some bytes before that. -/
structure Converts (host : Host σ ε ν) (s : σ) (value : ν) (answer : Except ε String)
    (written : Bytes) (s' : σ) : Prop where
  run : host.display value s = (answer.mapError .thrown, s')
  steady : (host.sink s').Steady
  contents : (host.sink s').contents = (host.sink s).contents ++ written

/-- Conversions one after the other, none of which throws, with the texts they give and what each
of them writes. -/
inductive ConvertsAll (host : Host σ ε ν) : σ → List ν → List String → List Bytes → σ → Prop where
  | nil (s : σ) : ConvertsAll host s [] [] [] s
  | cons {s middle s' : σ} {value : ν} {rest : List ν} {text : String} {texts : List String}
    {written : Bytes} {more : List Bytes} (h : host.Converts s value (.ok text) written middle)
    (hrest : ConvertsAll host middle rest texts more s') :
    ConvertsAll host s (value :: rest) (text :: texts) (written :: more) s'

theorem ConvertsAll.contents {host : Host σ ε ν} {s s' : σ} {values : List ν} {texts : List String}
    {written : List Bytes} (h : host.ConvertsAll s values texts written s') :
    (host.sink s').contents = (host.sink s).contents ++ written.flatten := by
  induction h with
  | nil => exact (List.append_nil _).symm
  | cons hfirst _ ih => rw [ih, hfirst.contents, List.append_assoc, List.flatten_cons]

theorem ConvertsAll.steady {host : Host σ ε ν} {s s' : σ} {values : List ν} {texts : List String}
    {written : List Bytes} (h : host.ConvertsAll s values texts written s')
    (hs : (host.sink s).Steady) : (host.sink s').Steady := by
  induction h with
  | nil => exact hs
  | cons hfirst _ ih => exact ih hfirst.steady

theorem Lawful.onSink {host : Host σ ε ν} (h : host.Lawful) {α : Type}
    (operation : Sink → α × Sink) (s : σ) :
    host.onSink operation s =
      (.ok (operation (host.sink s)).1, host.withSink (operation (host.sink s)).2 s) := by
  simp only [Host.onSink, h.exchange_eq, h.withSink_withSink]

end Reprl.Intrinsic.Host

