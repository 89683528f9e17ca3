import Reprl.Proofs.Situation.Traced

/-! The actions that rules are made of, as steps. -/

namespace Reprl.Situation

open Reprl.Stream

theorem held_of_has {s : Situation} {value : Value} (h : s.Has value) (hp : value.isPlain = false) :
    s.held value := h.resolve_left (Bool.eq_false_iff.mp hp)

namespace Traced

variable {α : Type} {s : Situation} {env : Env} {returns : Situation → α → Prop} {value : Value}

theorem newObject {o : Object} (h : o.All s.Has) : Runs s (Run.newObject o) Has :=
  step (.object o h) rfl (has_gain _ _)

theorem raiseError (name message : String) : Runs s (Run.raiseError name message) returns :=
  (newObject (Object.All.error (fun _ => s.has_plain rfl) name message)).bind fun _ _ _ hv => raise hv

theorem declare (h : s.chains env) (name : String) (hv : s.Has value) (mutable : Bool) :
    Runs s (Run.declare env name value mutable) setting.Any := by
  cases env with
  | nil => exact pure trivial
  | cons scope outer => exact step (.declare name mutable h List.mem_cons_self hv) rfl trivial

theorem nested {a : Run α} (hl : setting.Lasting returns) (h : ∀ s', Grows s s' → Runs s' a returns) :
    Runs s (Run.nested a) returns := by
  refine get_bind ?_
  split
  · exact raiseError _ _
  · exact between hl h (fun m => ⟨m.depth, m.nesting + 1, m.joining, rfl⟩)
      fun m => ⟨m.depth, m.nesting - 1, m.joining, rfl⟩

theorem inCall {a : Run α} (hl : setting.Lasting returns) (h : ∀ s', Grows s s' → Runs s' a returns) :
    Runs s (Run.inCall a) returns := by
  refine get_bind ?_
  split
  · exact raiseError _ _
  · exact between hl h (fun m => ⟨m.depth + 1, m.nesting, m.joining, rfl⟩)
      fun m => ⟨m.depth - 1, m.nesting, m.joining, rfl⟩

theorem whileJoining {a : Run α} (hl : setting.Lasting returns)
    (h : ∀ s', Grows s s' → Runs s' a returns) (ref : Ref) :
    Runs s (Run.whileJoining ref a) returns :=
  between hl h (fun m => ⟨m.depth, m.nesting, ref :: m.joining, rfl⟩)
    fun m => ⟨m.depth, m.nesting, m.joining.tail, rfl⟩

theorem assign (h : s.chains env) (name : String) (hv : s.Has value) :
    Runs s (Run.assign env name value) setting.Any := by
  rcases hr : s.machine.heap.resolve env name with _ | ⟨scope, binding⟩
  · exact step (.global name hv) (Run.assign_of_unbound hr value) trivial
  · by_cases hmut : binding.mutable = true
    · have hmem : scope ∈ env := Heap.mem_of_resolve hr
      exact step (.declare name true h hmem hv) (Run.assign_of_mutable hr hmut value) trivial
    · exact (raiseError _ _).congr (Run.assign_of_constant hr hmut value)

/-- Printing changes the outputs only, apart from the conversions that it needs. -/
theorem fuzzSink {β : Type} (E : Evaluator) (operation : Sink → β × Sink) :
    Runs s (E.fuzzHost.onSink operation) setting.Any := by
  obtain ⟨⟨heap, identities, jobs, depth, nesting, joining, tracked, outlet, fuzz, console⟩,
    held, chains⟩ := s
  cases outlet with
  | fuzzer => exact step (.output (operation fuzz).2 console) rfl trivial
  | standard =>
    let printed : Console := { console with stdout := (operation console.stdout).2 }
    exact step (.output fuzz printed) rfl trivial

theorem printSink {β : Type} (E : Evaluator) (operation : Sink → β × Sink) :
    Runs s (E.printHost.onSink operation) setting.Any := by
  let printed : Console := { s.machine.console with stdout := (operation s.machine.console.stdout).2 }
  exact step (.output s.machine.fuzz printed) rfl trivial

end Traced

open Traced in
/-- Every action that code may take is a sequence of steps. -/
def discipline : Discipline where
  toSetting := setting
  later_refl := .refl
  later_trans := .trans
  has_later := Grows.has
  chain_later := Grows.chain
  owns_later _ _ := trivial
  has_plain s _ := s.has_plain
  native_of_has _ := trivial
  native _ _ := trivial
  host_iff := ⟨fun _ => id, fun _ => trivial⟩
  name_of_identifier _ := trivial
  name_of_shorthand _ := trivial
  loopFree he := he.elim
  storeFree he := he.elim
  pure := Traced.pure
  raise := Traced.raise
  exhaust _ _ := Traced.exhaust
  crash _ _ := Traced.throw trivial
  bind := Traced.bind
  attempt := attempt
  look _ h := get_bind (h _ rfl)
  nested hl h := nested hl fun _ => h () _ trivial
  inCall hl h := inCall hl fun _ => h () _ trivial
  joining ref hl h := nested hl fun _ hg => whileJoining hl (fun _ hg' => h () _ trivial (hg.trans hg')) ref
  enter hf h :=
    have hinside := Step.inside (held_of_has hf rfl)
    after hinside rfl (h _ hinside.grows (chains_enter _ _) fun _ _ => trivial)
  property := by
    rintro _ _ _ s _ _ _ ref key value _ _ rfl hr hv h
    have hstep : Step s (s.gain value) := .property (held_of_has hr rfl) hv
    exact after hstep rfl (h _ hstep.grows rfl ⟨has_gain s value, fun he => he.elim⟩)
  element := by
    rintro _ _ _ s _ _ _ ref value _ _ rfl hr hv h
    have hstep : Step s (s.gain value) := .element (held_of_has hr rfl) hv
    exact after hstep rfl (h _ hstep.grows rfl (has_gain s value))
  binding := by
    rintro _ _ _ s _ _ _ env scope name binding _ _ rfl he hs _ hb h
    have hstep : Step s (s.gain binding.value) := .binding he hs hb
    exact after hstep rfl (h _ hstep.grows rfl (has_gain s binding.value))
  newNative _ := step (.native _) rfl (has_gain _ _)
  newClosure he _ := step (.closure _ he) rfl (has_gain _ _)
  newSymbol description := step (.symbol description) rfl (has_gain _ _)
  newObject h := newObject fun e hmem => (h e hmem).1
  newArray h := step (.array _ h) rfl (has_gain _ _)
  childScope he := step (.scope he) rfl ⟨chains_enter _ _, trivial⟩
  declare name mutable he _ hv := declare he name hv mutable
  assign name he hv := assign he name hv
  setObject key ht hv _ := step (.setObject key (held_of_has ht rfl) hv) rfl trivial
  setArray key ht hv := step (.setArray key (held_of_has ht rfl) hv) rfl trivial
  enqueue hj := step (.push hj) rfl trivial
  report line := step (.output _ (Console.report _ line)) rfl trivial
  fuzzSink E _ _ _ := fuzzSink E _
  printSink E _ _ := printSink E _

end Reprl.Situation
