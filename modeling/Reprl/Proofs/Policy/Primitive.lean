import Reprl.Proofs.Policy.Spelling

/-! The actions that rules are made of abide by every policy, as long as they are given what
code may hold. Names are declared in scopes that code owns, and an assignment changes a binding
that is there or makes a global one. -/

namespace Reprl

open Source Reprl.Stream

namespace Policy

variable {P : Policy} {α : Type} {own : Ref → Prop} {env : Env} {value : Value}
  {returns : (Ref → Prop) → α → Prop}

/-- A body that consists of permitted parts refers to no names but those of the policy. -/
theorem spells_body {body : Body} (h : P.setting.Permits body.parts) : P.Spells body.identifiers := by
  cases body with
  | concise value => exact (Setting.permits_cons.mp h).1
  | block statements =>
    simp only [Body.parts] at h
    simp only [Body.identifiers]
    induction statements with
    | nil => exact P.spells_nil
    | cons stmt rest ih =>
      obtain ⟨hstmt, hrest⟩ := Setting.permits_append.mp h
      exact P.spells_append.mpr ⟨(Setting.permits_cons.mp hstmt).1, ih hrest⟩

namespace Abides

theorem alloc {cell : Cell} (h : P.AllowsCell cell) : P.Runs own (Run.alloc cell) P.setting.Any :=
  change (·.heap.next) (fun m => { m with heap := m.heap.add cell }) (fun _ => rfl)
    (fun _ _ => ⟨rfl, rfl⟩) fun _ => .alloc cell h

theorem newObject {o : Object} (h : P.AllowsObject o) :
    P.Runs own (Run.newObject o) P.setting.Has := bind (alloc h) fun _ _ _ _ => pure trivial

theorem newIdentity : P.Runs own Run.newIdentity P.setting.Any :=
  change (·.identities) (fun m => { m with identities := m.identities + 1 }) (fun _ => rfl)
    (fun _ _ => ⟨rfl, rfl⟩) fun _ => .identity

theorem raiseError (name message : String) : P.Runs own (Run.raiseError name message) returns :=
  bind (newObject (Object.All.error (fun _ => trivial) name message)) fun _ _ _ hv => raise hv

theorem declare {name : String} (ho : P.setting.Owns own env) (h : P.names name → P.Allows value)
    (mutable : Bool) : P.Runs own (Run.declare env name value mutable) P.setting.Any := by
  cases env with
  | nil => exact pure trivial
  | cons scope outer =>
    exact onMachine (fun _ _ => rfl) fun _ => .declare name value mutable (.inl (ho scope rfl)) h

theorem nested {a : Run α} (h : P.Runs own a returns) : P.Runs own (Run.nested a) returns := by
  refine get_bind (fun _ _ => rfl) fun m hm => ?_
  split
  · exact raiseError _ _ m hm
  · exact between h (fun m => ⟨m.depth, m.nesting + 1, m.joining, rfl⟩)
      (fun m => ⟨m.depth, m.nesting - 1, m.joining, rfl⟩) (fun _ _ => ⟨rfl, rfl⟩) m hm

theorem inCall {a : Run α} (h : P.Runs own a returns) : P.Runs own (Run.inCall a) returns := by
  refine get_bind (fun _ _ => rfl) fun m hm => ?_
  split
  · exact raiseError _ _ m hm
  · exact between h (fun m => ⟨m.depth + 1, m.nesting, m.joining, rfl⟩)
      (fun m => ⟨m.depth - 1, m.nesting, m.joining, rfl⟩) (fun _ _ => ⟨rfl, rfl⟩) m hm

theorem whileJoining {a : Run α} (h : P.Runs own a returns) (ref : Ref) :
    P.Runs own (Run.whileJoining ref a) returns :=
  between h (fun m => ⟨m.depth, m.nesting, ref :: m.joining, rfl⟩)
    (fun m => ⟨m.depth, m.nesting, m.joining.tail, rfl⟩) fun _ _ => ⟨rfl, rfl⟩

/-- A scope that code opens it owns. The scope is young, so that nothing is declared in older
ones. -/
theorem childScope (he : P.envs env) :
    P.Runs own (Run.childScope env) fun own env => P.envs env ∧ P.setting.Owns own env := by
  intro m hm
  let opened : Machine := { m with heap := m.heap.add (.scope {}) }
  have hempty : P.AllowsCell (.scope {}) := fun _ hmem => absurd hmem List.not_mem_nil
  have halloc : P.Reach own m opened := .of_change (.alloc _ hempty)
  have htrack : P.Reach own opened { opened with tracked := m.tracked.push m.heap.next } :=
    .of_change (.track m.heap.next)
  have hrun : ∀ m : Machine, Run.childScope env m = (.ok (m.heap.next :: env),
      { m with heap := m.heap.add (.scope {}), tracked := m.tracked.push m.heap.next }) :=
    fun _ => rfl
  have hopens : Opens m own fun scope => own scope ∨ scope = m.heap.next :=
    ⟨fun _ => .inl, fun _ => Or.imp_right Nat.le_of_eq ∘ Or.imp_right Eq.symm⟩
  refine .of_apply (hrun m) (halloc.trans htrack fun _ => .inl) hopens ?_ fun _ fuzz => hrun _
  exact ⟨P.envs_cons he m.heap.next, fun scope hhead => .inr (Option.some.inj hhead).symm⟩

theorem assign (he : P.envs env) (name : String) (hv : P.Allows value) :
    P.Runs own (Run.assign env name value) P.setting.Any := by
  intro m hm
  rcases hr : m.heap.resolve env name with _ | ⟨scope, binding⟩
  · have hok : ∀ fuzz, Run.assign env name value { m with fuzz } =
        (.ok (), { m with fuzz, heap := m.heap.declare globalScope name value true }) :=
      fun fuzz => Run.assign_of_unbound (m := { m with fuzz }) hr value
    exact .change (hok m.fuzz) hok (.global value he (Heap.unbound_of_resolve hr) hv) trivial
  · by_cases hmut : binding.mutable = true
    · have hok : ∀ fuzz, Run.assign env name value { m with fuzz } =
          (.ok (), { m with fuzz, heap := m.heap.declare scope name value true }) :=
        fun fuzz => Run.assign_of_mutable (m := { m with fuzz }) hr hmut value
      exact .change (hok m.fuzz) hok (.assign value (Heap.binding_of_resolve hr) hmut hv) trivial
    · exact (raiseError _ _ m hm).congr fun fuzz =>
        Run.assign_of_constant (m := { m with fuzz }) hr hmut value

theorem track (ref : Ref) : P.Runs own (Run.track ref) P.setting.Any :=
  onMachine (fun _ _ => rfl) fun _ => .track ref

theorem fuzzSink {β : Type} (E : Evaluator) (operation : Sink → β × Sink) (hi : P.intrinsics) :
    P.Runs own (E.fuzzHost.onSink operation) P.setting.Any := by
  rintro ⟨heap, identities, jobs, depth, nesting, joining, tracked, outlet, fuzz, console⟩ hm
  cases outlet with
  | fuzzer =>
    exact .of_apply rfl (.of_change (.fuzz (operation fuzz).2 hi)) (.refl _ own) trivial
      fun hn => absurd hi hn
  | standard =>
    let printed : Console := { console with stdout := (operation console.stdout).2 }
    exact .of_apply rfl (.of_change (.console printed)) (.refl _ own) trivial fun hn => absurd hi hn

theorem printSink {β : Type} (E : Evaluator) (operation : Sink → β × Sink) :
    P.Runs own (E.printHost.onSink operation) P.setting.Any :=
  change (fun m => (operation m.console.stdout).1)
    (fun m => { m with console := { m.console with stdout := (operation m.console.stdout).2 } })
    (fun _ => rfl) (fun _ _ => ⟨rfl, rfl⟩) fun _ => .console _

end Abides

open Abides in
/-- Every action that code may take abides by a policy. -/
def discipline (P : Policy) : Discipline where
  toSetting := P.setting
  later_refl _ _ h := h
  later_trans h h' scope ho := h' scope (h scope ho)
  has_later _ hv := hv
  chain_later _ he := he
  owns_later h ho scope hhead := h scope (ho scope hhead)
  has_plain _ value := by
    intro h
    cases value with
    | function identity f => cases h
    | _ => trivial
  native_of_has h := h
  native {f} hi hh := by
    cases f with
    | intrinsic name => exact absurd rfl (hi name)
    | _ => trivial
  host_iff := ⟨fun _ => id, fun _ => trivial⟩
  name_of_identifier h := h _ List.mem_cons_self
  name_of_shorthand h := h _ List.mem_cons_self
  loopFree he := he.elim
  storeFree he := he.elim
  pure := Abides.pure
  raise := Abides.raise
  exhaust _ h := by
    rw [h.resolve_left id]
    exact Abides.throw (e := .exhausted) trivial
  crash _ hi := Abides.throw hi
  bind := Abides.bind
  attempt := attempt
  look hb h := get_bind (fun _ _ => hb _ _ rfl rfl) fun m hm => h m hm m hm
  nested _ h := nested (h () _ trivial fun _ => id)
  inCall _ h := inCall (h () _ trivial fun _ => id)
  joining ref _ h := nested (whileJoining (h () _ trivial fun _ => id) ref)
  enter hf h := h _ (fun _ => id) hf.1 (Body.permits_parts P _ hf.2)
  property hm _ hv h := fun m hm' =>
    h _ (fun _ => id) hm ⟨Object.All.get? (hm.object _) hv, fun he => he.elim⟩ m hm'
  element hm _ hv h := fun m hm' =>
    h _ (fun _ => id) hm (ArrayObject.All.of_stores (hm.array _) hv) m hm'
  binding hm _ _ hn hb h := fun m hm' => h _ (fun _ => id) hm (hm.binding hb hn) m hm'
  newNative hf := bind newIdentity fun _ _ _ _ => pure hf
  newClosure he hp := bind newIdentity fun _ _ _ _ => pure ⟨he, spells_body hp⟩
  newSymbol description := bind newIdentity fun _ _ _ _ => pure trivial
  newObject h := newObject fun e hmem => (h e hmem).1
  newArray h := bind (alloc (ArrayObject.All.ofElements h)) fun _ _ _ _ => pure trivial
  childScope he := childScope he
  declare name mutable _ ho hv := declare ho (fun _ => hv) mutable
  assign name he hv := assign he name hv
  setObject key _ hv _ := bind (track _) fun _ _ _ _ =>
    onMachine (fun _ _ => rfl) fun _ => .setObject _ key _ hv
  setArray key _ hv := bind (track _) fun _ _ _ _ =>
    onMachine (fun _ _ => rfl) fun _ => .setArray _ key _ hv
  enqueue hj := onMachine (fun _ _ => rfl) fun _ => .push _ hj
  report line := onMachine (fun _ _ => rfl) fun m => .console (Console.report m.console line)
  fuzzSink _ F hi _ := Abides.fuzzSink F _ hi
  printSink _ F _ := Abides.printSink F _

end Policy

end Reprl
