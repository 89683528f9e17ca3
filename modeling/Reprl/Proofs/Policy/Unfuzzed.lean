import Reprl.Proofs.Policy.Script

/-! Scripts that do not name the intrinsics. The global scope alone holds the intrinsics, under
their names, so such scripts never get hold of them, and the sink behind them is not used. -/

namespace Reprl

open Source Reprl.Stream

/-- Code that has no intrinsics and none of their names, in any scopes. -/
def Policy.unfuzzed : Policy where
  names name := name ∉ Intrinsic.names
  envs _ := True
  intrinsics := False
  envs_global := trivial
  envs_cons _ _ := trivial

theorem Policy.unfuzzed_names {name : String} (hi : name ∈ Intrinsic.names) :
    ¬Policy.unfuzzed.names name := fun hn => hn hi

/-- The installation of a machine does not use the sink, so fresh machines have the one that
they are given. -/
theorem Machine.new_withFuzz (outlet : Outlet) (fuzz fuzz' : Sink) (console : Console) :
    Machine.new outlet fuzz' console = { Machine.new outlet fuzz console with fuzz := fuzz' } := by
  have hnames : ∀ name ∈ Intrinsic.names, Policy.unfuzzed.names name → Policy.unfuzzed.intrinsics :=
    fun _ hi hn => Policy.unfuzzed_names hi hn
  have hinstall := Policy.Abides.install hnames _ (Policy.holds_blank outlet fuzz console)
  have hblind := hinstall.blind id fuzz'
  dsimp only at hblind
  rw [Machine.new, hblind, Machine.new]

/-- Whatever the sink behind the intrinsics is, a script without their names on a fresh machine
ends the same way with the same machine around the sink, which is as it was, and it does not
crash. -/
theorem sink_unused_without_names (fuel : Fuel) {source : String}
    (hs : ∀ script, Source.parse source = .ok script →
      ∀ name ∈ Intrinsic.names, name ∉ Stmt.identifiersIn script)
    (outlet : Outlet) (console : Console) :
    ∃ (r : Except (Abrupt ScriptError) Unit) (m' : Machine),
      (∀ signal, r ≠ .error (.crashed signal)) ∧
      ∀ fuzz, Session.execute (.ofFuel fuel) source (.new outlet fuzz console) = (r, { m' with fuzz }) := by
  let m := Machine.new outlet default console
  have hm : Policy.unfuzzed.Holds m :=
    Policy.holds_new (fun _ hi hn => Policy.unfuzzed_names hi hn) outlet default console
  have hspells : ∀ script, Source.parse source = .ok script →
      Policy.unfuzzed.Spells (Stmt.identifiersIn script) :=
    fun script hscript name hname hi => hs script hscript name hi hname
  obtain ⟨-, ⟨_, -, hanswer⟩, hblind⟩ := Policy.unfuzzed.execute fuel hspells m hm
  rcases hrun : Session.execute (.ofFuel fuel) source m with ⟨r, m'⟩
  simp only [hrun] at hanswer hblind
  refine ⟨r, m', fun signal hr => ?_, fun fuzz => ?_⟩
  · rw [hr] at hanswer
    exact hanswer
  · rw [Machine.new_withFuzz outlet default fuzz console]
    exact hblind id fuzz

/-- Prints through a property, at once and from a job. -/
def aliasedPrints : String :=
  "let o = \x7b write: print \x7d; queueMicrotask(() => o.write('b')); o.write('a')"

theorem sink_unused_by_aliasedPrints :
    (∀ script, Source.parse aliasedPrints = .ok script →
      ∀ name ∈ Intrinsic.names, name ∉ Stmt.identifiersIn script) ∧
    ∃ m' : Machine, m'.console.stdout.contents = Text.encode "a\nb\n" ∧
      ∀ fuzz, Session.execute (.ofFuel ⟨30, 5⟩) aliasedPrints (.new .fuzzer fuzz {}) =
        (.ok (), { m' with fuzz }) := by
  have hs : ∀ script, Source.parse aliasedPrints = .ok script →
      ∀ name ∈ Intrinsic.names, name ∉ Stmt.identifiersIn script := by
    have hall : (Source.parse aliasedPrints).toOption.all
        (fun script => ∀ name ∈ Intrinsic.names, name ∉ Stmt.identifiersIn script) := by decide +kernel
    intro script hscript
    rw [hscript] at hall
    exact of_decide_eq_true hall
  obtain ⟨r, m', -, hrun⟩ := sink_unused_without_names ⟨30, 5⟩ hs .fuzzer {}
  have hok : (Session.execute (.ofFuel ⟨30, 5⟩) aliasedPrints (.new .fuzzer default {})).1 = .ok () :=
    Action.ok_of_toOption (by decide +kernel)
  have hout : (Session.execute (.ofFuel ⟨30, 5⟩) aliasedPrints
      (.new .fuzzer default {})).2.console.stdout.contents = Text.encode "a\nb\n" := by decide +kernel
  rw [hrun default] at hok hout
  dsimp only at hok hout
  subst hok
  exact ⟨hs, m', hout, hrun⟩

end Reprl
