import Reprl.Proofs.Dialect.Script
import Reprl.Proofs.Machine.Appended
import Reprl.Proofs.Machine.Levels

/-! Scripts without loops that assign to no member end, however their functions call one another.
The counters of the machine stop every recursion: through calls, through methods that give the
text of an object, and through arrays whose elements are converted. -/

namespace Reprl

open Source Reprl.Stream

def Source.Node.isStraight : Node → Bool
  | .stmt s => !s.isLoop
  | .expr e => !e.assignsMember
  | _ => true

/-- Code without loops that assigns to no member. -/
def Dialect.straight : Dialect where
  permits := Node.isStraight
  ends := True
  loopFree _ h := by simpa [Node.isStraight] using h
  storeFree _ h := by simpa [Node.isStraight] using h

/-- More steps than there are levels to raise, whatever code does at each of them. -/
def endingDepth : Nat := 3 * Levels.room ⟨0, 0, []⟩ + 3

/-- How scripts end. -/
inductive Ended : Except (Abrupt ScriptError) Unit → Prop where
  | ok : Ended (.ok ())
  | uncaught (text : String) : Ended (.error (.thrown (.uncaught text)))
  | crashed (signal : Signal) : Ended (.error (.crashed signal))

def uncaughtText? : Except (Abrupt ScriptError) Unit → Option String
  | .error (.thrown (.uncaught text)) => some text
  | _ => none

/-- What a script that was parsed may fail with. -/
def ScriptError.IsUncaught : ScriptError → Prop
  | .uncaught _ => True
  | .invalid _ => False

theorem ended_of_answers {D : Dialect} (he : D.ends) {r : Except (Abrupt ScriptError) Unit}
    (h : D.Answers (fun _ => True) ScriptError.IsUncaught r) : Ended r := by
  rcases r with ((_ | text) | signal | _) | _
  · exact absurd h id
  · exact .uncaught text
  · exact .crashed signal
  · exact absurd he h
  · exact .ok

/-- A script without loops that assigns to no member ends on a fresh machine, with the same result
and the same machine for all fuel that covers the levels which it may raise. No laps are needed. -/
theorem straight_scripts_end {script : Script}
    (hloops : ∀ s, Node.stmt s ∈ Stmt.partsIn script → s.isLoop = false)
    (hstores : ∀ e, Node.expr e ∈ Stmt.partsIn script → e.assignsMember = false)
    (outlet : Outlet) (fuzz : Sink) (console : Console) :
    ∃ r m', Ended r ∧ ∀ fuel : Fuel, endingDepth ≤ fuel.depth →
      Session.run (.ofFuel fuel) script (.new outlet fuzz console) = (r, m') := by
  have hpermits : Dialect.straight.Permits (Stmt.partsIn script) := by
    intro node hmem
    cases node with
    | stmt s => simp only [Dialect.straight, Node.isStraight, hloops s hmem, Bool.not_false]
    | expr e => simp only [Dialect.straight, Node.isStraight, hstores e hmem, Bool.not_false]
    | _ => rfl
  let m := Machine.new outlet fuzz console
  let ending := Session.run (.ofFuel ⟨endingDepth, 0⟩) script m
  obtain ⟨hholds, hlevels⟩ := Dialect.holds_new .straight outlet fuzz console
  have hsound := Dialect.sound_withDepth .straight .exhausted 0 endingDepth 3 ⟨0, 0, []⟩ (by omega)
    fun _ => Nat.le_refl _
  have hrun : Dialect.straight.setting.Rel ⟨0, 0, []⟩ () (Session.run (.ofFuel ⟨endingDepth, 0⟩) script) _
      Dialect.straight.setting.Any fun _ => ScriptError.IsUncaught :=
    hsound.run (fun _ _ => trivial) trivial trivial hpermits
  obtain ⟨-, hanswer, -, -⟩ := hrun m hholds hlevels
  have hended : Ended ending.1 := ended_of_answers (D := .straight) trivial hanswer
  refine ⟨ending.1, ending.2, hended, fun fuel hdepth => ?_⟩
  -- More fuel than was enough gives the same.
  have htandem : Tandem .same (.ofFuel ⟨endingDepth, 0⟩) (.ofFuel fuel) :=
    .withDepth (Nat.zero_le _) hdepth
  have hbounds : m.levels.InBounds := by
    rw [hlevels]
    decide
  rcases htandem.run script m m ⟨rfl, hbounds⟩ with hnone | ⟨hresult, ⟨hafter, -⟩, -⟩
  · have hexhausted : ending.1 = .error .exhausted := hnone
    rw [hexhausted] at hended
    cases hended
  · exact (Prod.ext hresult hafter).symm

/-- A function that does nothing but call itself: `const f = () => f(); f()`. -/
def selfCaller : Script :=
  let call : Expr := .call (.identifier "f") []
  let f : Expr := .arrow (.mk none [] (.concise call) false false)
  [.declaration .constant [.mk (.name "f") (some f)], .expression call]

theorem selfCaller_ends :
    (∀ s, Node.stmt s ∈ Stmt.partsIn selfCaller → s.isLoop = false) ∧
    (∀ e, Node.expr e ∈ Stmt.partsIn selfCaller → e.assignsMember = false) ∧
    ∃ m', ∀ fuel : Fuel, endingDepth ≤ fuel.depth →
      Session.run (.ofFuel fuel) selfCaller (.new .fuzzer default {}) =
        (.error (.thrown (.uncaught "RangeError: Maximum call stack size exceeded")), m') := by
  have hall : ∀ node ∈ Stmt.partsIn selfCaller, node.isStraight = true := by decide
  have hloops : ∀ s, Node.stmt s ∈ Stmt.partsIn selfCaller → s.isLoop = false :=
    fun s hs => by simpa [Node.isStraight] using hall _ hs
  have hstores : ∀ e, Node.expr e ∈ Stmt.partsIn selfCaller → e.assignsMember = false :=
    fun e he => by simpa [Node.isStraight] using hall _ he
  obtain ⟨r, m', hended, hrun⟩ := straight_scripts_end hloops hstores .fuzzer default {}
  have htext : uncaughtText?
      (Session.run (.ofFuel ⟨endingDepth, 0⟩) selfCaller (.new .fuzzer default {})).1 =
        some "RangeError: Maximum call stack size exceeded" := by decide +kernel
  rw [hrun ⟨endingDepth, 0⟩ (Nat.le_refl _)] at htext
  refine ⟨hloops, hstores, m', fun fuel hdepth => ?_⟩
  rw [hrun fuel hdepth]
  cases hended with
  | ok => cases htext
  | uncaught text => rw [Option.some.inj htext]
  | crashed signal => cases htext

end Reprl
