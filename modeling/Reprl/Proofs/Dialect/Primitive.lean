import Reprl.Proofs.Dialect.Agrees

/-! The actions that rules are made of agree with themselves under every dialect, as long as they
are given values and functions of the dialect. Output is not what scripts can see, so that prints
agree whatever they print to. -/

namespace Reprl

open Reprl.Stream

namespace Dialect

variable {D : Dialect} {ε α : Type} {levels : Levels}

namespace Agrees

theorem alloc {cell : Cell} (h : D.AllowsCell cell) :
    D.Runs levels (Run.alloc cell) (Run.alloc cell) fun _ => True :=
  change (·.heap.next) (fun m => { m with heap := m.heap.add cell }) (fun _ => rfl) (fun _ => rfl)
    (fun _ hm => hm.add h) fun _ _ => trivial

theorem newIdentity : D.Runs levels Run.newIdentity Run.newIdentity fun _ => True :=
  change (·.identities) (fun m => { m with identities := m.identities + 1 }) (fun _ => rfl)
    (fun _ => rfl) (fun _ hm => hm.congr rfl rfl) fun _ _ => trivial

theorem newFunction {f : Callable} (h : D.AllowsCallable f) :
    D.Runs levels (Run.newFunction f) (Run.newFunction f) D.Allows := by
  have hmade : ∀ identity, D.Allows (.function identity f) := fun _ => h
  exact bind newIdentity fun identity _ => pure (hmade identity)

theorem track (ref : Ref) : D.Runs levels (Run.track ref) (Run.track ref) fun _ => True :=
  change (fun _ => ()) (fun m => { m with tracked := m.tracked.push ref }) (fun _ => rfl)
    (fun _ => rfl) (fun _ hm => hm.congr rfl rfl) fun _ _ => trivial

theorem declare (env : Env) (name : String) {value : Value} (h : D.Allows value) (mutable : Bool) :
    D.Runs levels (Run.declare env name value mutable) (Run.declare env name value mutable)
      fun _ => True := by
  cases env with
  | nil => exact pure trivial
  | cons scope outer =>
    exact change (fun _ => ())
      (fun m => { m with heap := m.heap.declare scope name value mutable }) (fun _ => rfl)
      (fun _ => rfl) (fun _ hm => hm.declare scope name h mutable) fun _ _ => trivial

/-- Only flat values are written to objects if code ends. -/
theorem setObject (ref : Ref) (key : String) {value : Value} (hv : D.Allows value)
    (hf : D.ends → value.isFlat = true) :
    D.Runs levels (Run.setProperty (.object ref) key value) (Run.setProperty (.object ref) key value)
      fun _ => True := by
  have hany : ∀ kind, D.AllowsProperty kind value := fun _ => ⟨hv, fun he _ => hf he⟩
  exact bind (track ref) fun _ _ => change (fun _ => ())
    (fun m => { m with heap := m.heap.modifyObject ref (·.set key value) }) (fun _ => rfl)
    (fun _ => rfl) (fun _ hm => hm.setObject ref key hany) fun _ _ => trivial

theorem setArray (ref : Ref) (key : String) {value : Value} (hv : D.Allows value) :
    D.Runs levels (Run.setProperty (.array ref) key value) (Run.setProperty (.array ref) key value)
      fun _ => True :=
  bind (track ref) fun _ _ => change (fun _ => ())
    (fun m => { m with heap := m.heap.modifyArray ref (·.set key value) }) (fun _ => rfl)
    (fun _ => rfl) (fun _ hm => hm.setArray ref key hv) fun _ _ => trivial

theorem assign (env : Env) (name : String) {value : Value} (hv : D.Allows value) :
    D.Runs levels (Run.assign env name value) (Run.assign env name value) fun _ => True := by
  intro m hm hl
  rcases hr : m.heap.resolve env name with _ | ⟨scope, binding⟩
  · have hok := Run.assign_of_unbound hr value
    exact .of_apply hok hok trivial (hm.declare globalScope name hv true) rfl
  · by_cases hmut : binding.mutable = true
    · have hok := Run.assign_of_mutable hr hmut value
      exact .of_apply hok hok trivial (hm.declare scope name hv true) rfl
    · have herror := Run.assign_of_constant hr hmut value
      have hraised : D.Runs levels (Run.raiseError "TypeError" "Assignment to constant variable.")
          (Run.raiseError "TypeError" "Assignment to constant variable.") fun _ : Unit => True :=
        raiseError _ _
      obtain ⟨-, hanswer, hholds, hlevels⟩ := hraised m hm hl
      exact .of_apply herror herror hanswer hholds hlevels

theorem enqueue {job : Value} (hj : D.Allows job) :
    D.Runs levels (modify fun m => { m with jobs := m.jobs.push job })
      (modify fun m => { m with jobs := m.jobs.push job }) fun _ => True :=
  change (fun _ => ()) (fun m => { m with jobs := m.jobs.push job }) (fun _ => rfl) (fun _ => rfl)
    (fun _ hm => hm.push hj) fun _ _ => trivial

end Agrees

open Agrees in
/-- Every action of a dialect agrees with itself. -/
def discipline (D : Dialect) : Discipline where
  toSetting := D.setting
  later_refl _ := trivial
  later_trans _ _ := trivial
  has_later _ hv := hv
  chain_later _ _ := trivial
  owns_later _ _ := trivial
  has_plain _ value := by
    intro h
    cases value with
    | function identity f => cases h
    | _ => trivial
  native_of_has h := h
  native {f} _ hh := by
    cases f with
    | host name reply => exact absurd rfl (hh name reply)
    | _ => trivial
  host_iff := Iff.rfl
  name_of_identifier _ := trivial
  name_of_shorthand _ := trivial
  loopFree := D.loopFree
  storeFree := D.storeFree
  pure := Agrees.pure
  raise := Agrees.raise
  exhaust he h := by
    rw [h.resolve_left id]
    exact Agrees.throw (e := .exhausted) he
  crash _ _ := Agrees.throw trivial
  bind h hn := Agrees.bind h fun x hx => hn () x trivial hx
  attempt := attempt
  look _ h := get_bind fun m hm hl => h m ⟨hm, hl⟩ m hm hl
  nested _ h := nested fun hroom => h _ () (Levels.room_nest hroom) trivial
  inCall _ h := inCall fun hroom => h _ () (Levels.room_call hroom) trivial
  joining ref _ h := nested fun hroom =>
    whileJoining ref (h (Levels.join _ ref) () (Levels.room_nest hroom) trivial)
  enter hf h := h () trivial trivial hf
  property hm _ hv h := h () trivial hm (Object.All.get? (hm.1.object _) hv)
  element hm _ hv h := h () trivial hm (ArrayObject.All.of_stores (hm.1.array _) hv)
  binding hm _ _ _ hb h := h () trivial hm (hm.1.binding hb)
  newNative hf := newFunction hf
  newClosure _ hp := newFunction hp
  newSymbol description := bind newIdentity fun _ _ => pure trivial
  newObject h := bind (alloc h) fun _ _ => pure trivial
  newArray h := bind (alloc (ArrayObject.All.ofElements h)) fun _ _ => pure trivial
  childScope _ := bind (alloc allowsCell_scope) fun _ _ => bind (track _) fun _ _ =>
    pure ⟨trivial, trivial⟩
  declare name mutable _ _ hv := declare _ name hv mutable
  assign name _ hv := assign _ name hv
  setObject key _ hv hf := setObject _ key hv hf
  setArray key _ hv := setArray _ key hv
  enqueue hj := enqueue hj
  report line := unseen (fun _ => ()) (Machine.report line) (fun _ => rfl) fun _ => rfl
  fuzzSink {_ _ _ _ operation} _ _ _ _ :=
    unseen (fun m => (m.operate Machine.exchangeOutlet operation).1)
      (fun m => (m.operate Machine.exchangeOutlet operation).2) (fun _ => rfl)
      (Machine.keepsInner_exchangeOutlet.operate operation)
  printSink {_ _ _ operation} _ _ _ :=
    unseen (fun m => (m.operate Machine.exchangeStdout operation).1)
      (fun m => (m.operate Machine.exchangeStdout operation).2) (fun _ => rfl)
      (Machine.keepsInner_exchangeStdout.operate operation)

end Dialect

end Reprl
