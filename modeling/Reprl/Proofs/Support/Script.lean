import Reprl.Proofs.Dialect.Ending
import Reprl.Proofs.Support.Statement
import Reprl.Source.Script

/-! Scripts in which no unsupported construct is found. Each of their parts has a case of its own,
unless it is of the few kinds that nothing looks for. So scripts without such parts run as if there
were no rules but those cases. -/

namespace Reprl

open Source Reprl.Stream

instance : DecidablePred Node.HasCase := fun _ => decidable_of_iff _ Node.hasCase_iff.symm

theorem Source.cleared_of_tree? {source : String} {script : Script} (h : tree? source = some script) :
    ∀ s ∈ script, s.Cleared := by
  have hg := Grammar.clears_withSteps ((Cursor.ofScript source).left + 1)
  have htop : Context.Plain { topLevel := true } := ⟨rfl, rfl, rfl, rfl, rfl⟩
  obtain ⟨⟨body, after⟩, hrun, rfl⟩ := Option.map_eq_some_iff.mp h
  refine (show Parser.Gives _ (fun body => ∀ s ∈ body, s.Cleared) from ?_) _ _ _ hrun
  exact (hg.bodyStatements htop).bind fun _ hbody => .after fun _ => .after fun _ => .pure hbody

theorem Source.tree?_of_parse {source : String} {script : Script} (h : parse source = .ok script) :
    tree? source = some script := by
  unfold parse at h
  split at h
  · cases h
  · split at h
    · cases h
    · rename_i read hread
      split at h
      · cases h
      · cases h
        exact hread

namespace Dialect

/-- Code whose parts all have a case of their own. -/
def known : Dialect where
  permits node := decide node.HasCase
  ends := False
  loopFree he := he.elim
  storeFree he := he.elim

end Dialect

/-- The rules for code whose parts all have a case, with any other code left to another evaluator. -/
def Evaluator.knowing (other : Evaluator) (fuel : Fuel) : Evaluator :=
  .vetted (fun node => decide node.HasCase) other fuel.laps fuel.depth

theorem Session.execute_knowing {source : String} {script : Script} (htree : tree? source = some script)
    (hcase : ∀ node ∈ Stmt.partsIn script, node.HasCase) (other : Evaluator) (fuel : Fuel)
    (outlet : Outlet) (fuzz : Sink) (console : Console) :
    Session.execute (.knowing other fuel) source (.new outlet fuzz console) =
      Session.execute (.ofFuel fuel) source (.new outlet fuzz console) := by
  have hpermits : ∀ read, Source.parse source = .ok read →
      Dialect.known.Permits (Stmt.partsIn read) := by
    intro read hread node hmem
    obtain rfl : read = script := Option.some.inj ((tree?_of_parse hread).symm.trans htree)
    exact decide_eq_true (hcase node hmem)
  have hsound : Dialect.known.discipline.Sound 3 ⟨0, 0, []⟩ (.ofFuel fuel) (.knowing other fuel) :=
    Dialect.sound_withDepth .known other fuel.laps fuel.depth 3 ⟨0, 0, []⟩ (by omega) fun he => he.elim
  have hexecute : Dialect.known.Agrees ⟨0, 0, []⟩ (Session.execute (.ofFuel fuel) source)
      (Session.execute (.knowing other fuel) source) (fun _ => True) fun _ => True :=
    hsound.execute (w := ()) id (fun _ _ => trivial) Dialect.popJob trivial trivial hpermits
  obtain ⟨hholds, hlevels⟩ := Dialect.holds_new .known outlet fuzz console
  exact (hexecute _ hholds hlevels).same

/-- In a script that is accepted, in which no unsupported construct is found and which has no excepted
part, all parts but the defaulted properties have a case of their own. So without such properties it
runs, with all jobs that it leaves behind, as if parts without a case meant anything at all. -/
theorem supported_scripts_are_known {source : String} {script : Script}
    (htree : tree? source = some script) (hfound : Stmt.unsupportedIn script = none)
    (hexcepted : ∀ node ∈ Stmt.partsIn script, node.isExcepted = false) :
    (∀ node ∈ Stmt.partsIn script, node.HasCase ↔ node.isDefaulted = false) ∧
    ((∀ node ∈ Stmt.partsIn script, node.isDefaulted = false) →
      ∀ (other : Evaluator) (fuel : Fuel) (outlet : Outlet) (fuzz : Sink) (console : Console),
        Session.execute (.knowing other fuel) source (.new outlet fuzz console) =
          Session.execute (.ofFuel fuel) source (.new outlet fuzz console)) := by
  have hcleared := Stmt.cleared_list (cleared_of_tree? htree) hfound hexcepted
  have hcase : ∀ node ∈ Stmt.partsIn script, node.HasCase ↔ node.isDefaulted = false := by
    refine fun node hmem => ⟨fun hcase => ?_, fun hno => Node.hasCase_of_isCased (hcleared node hmem hno)⟩
    cases node with
    | property p =>
      cases p with
      | defaulted name value => exact absurd hcase (Node.not_hasCase rfl)
      | _ => rfl
    | _ => rfl
  exact ⟨hcase, fun hno => Session.execute_knowing htree fun node hmem =>
    (hcase node hmem).mpr (hno node hmem)⟩

namespace Source

def isSupported (script : Script) : Bool :=
  (Stmt.unsupportedIn script).isNone && (Stmt.partsIn script).all fun node => !node.isExcepted

theorem exists_supported {source : String} {test : Script → Bool}
    (h : (tree? source).any (fun script => isSupported script && test script) = true) :
    ∃ script, tree? source = some script ∧ Stmt.unsupportedIn script = none ∧
      (∀ node ∈ Stmt.partsIn script, node.isExcepted = false) ∧ test script = true := by
  cases htree : tree? source with
  | none =>
    rw [htree] at h
    cases h
  | some script =>
    simp only [htree, Option.any_some, isSupported, Bool.and_eq_true, Option.isNone_iff_eq_none,
      List.all_eq_true, Bool.not_eq_true'] at h
    obtain ⟨⟨hfound, hexcepted⟩, htest⟩ := h
    exact ⟨script, rfl, hfound, hexcepted, htest⟩

end Source

/-- A script with a call, an update of a member and a handler. -/
def handledCall : String := "let f = (x) => x.y; try \x7b f([]).z++; \x7d catch (e) \x7b print(e); \x7d"

theorem handledCall_is_known :
    ∃ script, tree? handledCall = some script ∧ Stmt.unsupportedIn script = none ∧
      (∀ node ∈ Stmt.partsIn script, node.isExcepted = false) ∧
      (∀ node ∈ Stmt.partsIn script, node.HasCase) ∧
      ∀ (other : Evaluator) (fuel : Fuel) (outlet : Outlet) (fuzz : Sink) (console : Console),
        Session.execute (.knowing other fuel) handledCall (.new outlet fuzz console) =
          Session.execute (.ofFuel fuel) handledCall (.new outlet fuzz console) := by
  have hcheck : (tree? handledCall).any (fun script =>
      isSupported script && (Stmt.partsIn script).all fun node => !node.isDefaulted) = true := by
    decide +kernel
  obtain ⟨script, htree, hfound, hexcepted, hall⟩ := exists_supported hcheck
  have hno : ∀ node ∈ Stmt.partsIn script, node.isDefaulted = false := by simpa using hall
  obtain ⟨hcase, hrun⟩ := supported_scripts_are_known htree hfound hexcepted
  exact ⟨script, htree, hfound, hexcepted, fun node hmem => (hcase node hmem).mpr (hno node hmem), hrun hno⟩

/-- A property with a default where an object and no pattern is meant. -/
def defaultedObject : String := "throw \x7ba = 1\x7d;"

/-- It is accepted and nothing is found in it, but it has no case, and its evaluation says so. -/
theorem defaultedObject_is_unknown :
    (∃ script, tree? defaultedObject = some script ∧ Stmt.unsupportedIn script = none ∧
      (∀ node ∈ Stmt.partsIn script, node.isExcepted = false) ∧
      ∃ node ∈ Stmt.partsIn script, ¬node.HasCase) ∧
    uncaughtText? (Session.execute (.ofFuel ⟨20, 0⟩) defaultedObject (.new .fuzzer default {})).1 =
      some "SyntaxError: unsupported property" := by
  have hcheck : (tree? defaultedObject).any (fun script =>
      isSupported script && (Stmt.partsIn script).any fun node => !node.isCased) = true := by
    decide +kernel
  obtain ⟨script, htree, hfound, hexcepted, hany⟩ := exists_supported hcheck
  obtain ⟨node, hmem, hno⟩ : ∃ node ∈ Stmt.partsIn script, node.isCased = false := by simpa using hany
  exact ⟨⟨script, htree, hfound, hexcepted, node, hmem, Node.not_hasCase hno⟩, by decide +kernel⟩

end Reprl
