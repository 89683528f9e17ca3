import Reprl.Machine.Script
import Reprl.Proofs.Source.Identifiers
import Reprl.Proofs.Source.Parts
import Reprl.Proofs.Stream.Printed
import Reprl.Proofs.Value.Contents

/-! Disciplines that the running of code keeps. A discipline relates two actions at a time, and
says what comes out of them in terms of worlds: what code has come by so far. It has a rule for
each primitive action and for each way to combine actions, and nothing more. So all that
evaluators do keeps the discipline, if only the primitives do. -/

namespace Reprl

open Source Reprl.Stream

namespace Source

def Stmt.isLoop : Stmt → Bool
  | .whileLoop .. | .doLoop .. | .forLoop .. => true
  | _ => false

/-- Whether an expression assigns to a member. -/
def Expr.assignsMember : Expr → Bool
  | .assign _ (.place (.member ..)) _ => true
  | _ => false

end Source

/-- What a discipline speaks of. -/
structure Setting where
  World : Type
  Later : World → World → Prop
  /-- Where an action starts. What is behind a counter starts deeper. -/
  Base : Type
  Deeper : Base → Base → Prop
  /-- Parts that code may consist of. -/
  permits : Node → Prop
  /-- Names that code may look up. -/
  names : String → Prop
  /-- Native functions that code may hold. -/
  natives : Native → Prop
  /-- Whether all code ends. -/
  ends : Prop
  /-- Whether the first of two actions may run out of fuel before the second. -/
  lags : Prop
  /-- Values that code may hold. -/
  Has : World → Value → Prop
  /-- Chains of scopes in which code may run. -/
  Chain : World → Env → Prop
  /-- Chains of scopes in which code may declare names. -/
  Owns : World → Env → Prop
  /-- Machines on which an action may find itself. -/
  Sees : Base → World → Machine → Prop
  Rel : {ε α : Type} → Base → World → Action Machine ε α → Action Machine ε α →
    (World → α → Prop) → (World → ε → Prop) → Prop

namespace Setting

variable (S : Setting) {ε α : Type}

/-- Actions of scripts throw values, which code may catch. -/
abbrev Runs (base : S.Base) (w : S.World) (a b : Run α) (returns : S.World → α → Prop) : Prop :=
  S.Rel base w a b returns S.Has

/-- Nothing is to be said about what comes out. -/
def Any (_ : S.World) (_ : α) : Prop := True

def HasAll (w : S.World) (values : List Value) : Prop := ∀ value ∈ values, S.Has w value

/-- What objects of a class hold. If all code ends, errors hold no objects, whose text would need
the text of what is in them. -/
def HasProperty (w : S.World) (kind : ObjectClass) (value : Value) : Prop :=
  S.Has w value ∧ (S.ends → kind = .error → value.isFlat = true)

def HasFlow (w : S.World) : Flow → Prop
  | .returned value => S.Has w value
  | _ => True

/-- What is known of a result that was caught. -/
def Settled (returns : S.World → α → Prop) (throws : S.World → ε → Prop) (w : S.World) :
    Except ε α → Prop
  | .ok x => returns w x
  | .error e => throws w e

/-- What is known of a result and stays so. -/
def Lasting (returns : S.World → α → Prop) : Prop :=
  ∀ w w' x, S.Later w w' → returns w x → returns w' x

def Permits (nodes : List Node) : Prop := ∀ node ∈ nodes, S.permits node

/-- How much fuel the second of two actions may have beside the first. -/
def Covers (fuel fuel' : Nat) : Prop := fuel' = fuel ∨ S.lags ∧ fuel ≤ fuel'

variable {S}

theorem Covers.refl (fuel : Nat) : S.Covers fuel fuel := .inl rfl

theorem Covers.zero {fuel : Nat} (h : S.Covers 0 fuel) : S.lags ∨ fuel = 0 := h.symm.imp_left And.left

theorem Covers.succ {fuel fuel' : Nat} (h : S.Covers (fuel + 1) fuel') :
    ∃ more, fuel' = more + 1 ∧ S.Covers fuel more := by
  rcases h with rfl | ⟨hlags, hle⟩
  · exact ⟨fuel, rfl, .refl fuel⟩
  · exact ⟨fuel' - 1, by omega, .inr ⟨hlags, by omega⟩⟩

@[simp] theorem permits_nil : S.Permits [] := fun _ hmem => absurd hmem List.not_mem_nil

@[simp] theorem permits_cons {node : Node} {rest : List Node} :
    S.Permits (node :: rest) ↔ S.permits node ∧ S.Permits rest := List.forall_mem_cons

@[simp] theorem permits_append {first second : List Node} :
    S.Permits (first ++ second) ↔ S.Permits first ∧ S.Permits second := List.forall_mem_append

theorem permits_body {f : Source.Function} (h : S.Permits f.parts) : S.Permits f.body.parts := by
  obtain ⟨name, params, body, async, generator⟩ := f
  simp only [Source.Function.parts, permits_append] at h
  exact h.2

end Setting

/-- An action heeds nothing of a machine but its heap and what is being joined. -/
def Machine.Heeded {β : Type} (next : Machine → β) : Prop :=
  ∀ m n : Machine, m.heap = n.heap → m.joining = n.joining → next m = next n

structure Discipline extends Setting where
  later_refl : ∀ w, Later w w
  later_trans : ∀ {w w' w''}, Later w w' → Later w' w'' → Later w w''
  has_later : ∀ {w w' value}, Later w w' → Has w value → Has w' value
  chain_later : ∀ {w w' env}, Later w w' → Chain w env → Chain w' env
  owns_later : ∀ {w w' env}, Later w w' → Owns w env → Owns w' env
  has_plain : ∀ w {value : Value}, value.isPlain = true → Has w value
  native_of_has : ∀ {w identity f}, Has w (.function identity (.native f)) → natives f
  native : ∀ {f}, (∀ name, f ≠ .intrinsic name) → (∀ name reply, f ≠ .host name reply) → natives f
  host_iff : ∀ {name reply}, natives (.host name reply) ↔ ¬ends
  name_of_identifier : ∀ {name}, permits (.expr (.identifier name)) → names name
  name_of_shorthand : ∀ {name}, permits (.property (.shorthand name)) → names name
  loopFree : ∀ {s}, ends → permits (.stmt s) → s.isLoop = false
  storeFree : ∀ {e}, ends → permits (.expr e) → e.assignsMember = false
  protected pure : ∀ {ε α base w returns throws} {x : α}, returns w x →
    Rel base w (Pure.pure x : Action Machine ε α) (Pure.pure x) returns throws
  raise : ∀ {ε α base w returns throws} {e : ε}, throws w e →
    Rel base w (Action.raise e : Action Machine ε α) (Action.raise e) returns throws
  exhaust : ∀ {ε α base w returns throws} {b : Action Machine ε α}, ¬ends →
    lags ∨ b = Action.exhaust → Rel base w Action.exhaust b returns throws
  crash : ∀ {α base w returns name} (signal : Signal), natives (.intrinsic name) →
    toSetting.Runs base w (Action.crash signal : Run α) (Action.crash signal) returns
  protected bind : ∀ {ε α β base w returns gives throws} {a b : Action Machine ε α}
    {next next' : α → Action Machine ε β}, Rel base w a b returns throws →
    (∀ w' x, Later w w' → returns w' x → Rel base w' (next x) (next' x) gives throws) →
    Rel base w (a >>= next) (b >>= next') gives throws
  attempt : ∀ {ε δ α base w returns throws} {raises : World → δ → Prop} {a b : Action Machine ε α},
    Rel base w a b returns throws →
    Rel base w (Action.attempt a : Action Machine δ (Except ε α)) (Action.attempt b)
      (toSetting.Settled returns throws) raises
  look : ∀ {ε α base w returns throws} {next next' : Machine → Action Machine ε α},
    Machine.Heeded next' →
    (∀ m, Sees base w m → Rel base w (next m) (next' m) returns throws) →
    Rel base w (get >>= next) (get >>= next') returns throws
  nested : ∀ {α base w returns} {a b : Run α}, toSetting.Lasting returns →
    (∀ inner w', Deeper base inner → Later w w' → toSetting.Runs inner w' a b returns) →
    toSetting.Runs base w (Run.nested a) (Run.nested b) returns
  inCall : ∀ {α base w returns} {a b : Run α}, toSetting.Lasting returns →
    (∀ inner w', Deeper base inner → Later w w' → toSetting.Runs inner w' a b returns) →
    toSetting.Runs base w (Run.inCall a) (Run.inCall b) returns
  joining : ∀ {α base w returns} {a b : Run α} (ref : Ref), toSetting.Lasting returns →
    (∀ inner w', Deeper base inner → Later w w' → toSetting.Runs inner w' a b returns) →
    toSetting.Runs base w (Run.nested (Run.whileJoining ref a)) (Run.nested (Run.whileJoining ref b))
      returns
  /-- Whoever holds a function can get at the scopes in which it was made. -/
  enter : ∀ {ε α base w returns throws identity c} {a b : Action Machine ε α},
    Has w (.function identity (.closure c)) →
    (∀ w', Later w w' → Chain w' c.env → toSetting.Permits c.body.parts →
      Rel base w' a b returns throws) → Rel base w a b returns throws
  /-- Whoever holds an object can get at what is in it. -/
  property : ∀ {ε α base w returns throws m ref key value} {a b : Action Machine ε α},
    Sees base w m → Has w (.object ref) → (m.heap.object ref).get? key = some value →
    (∀ w', Later w w' → Sees base w' m →
      toSetting.HasProperty w' (m.heap.object ref).kind value → Rel base w' a b returns throws) →
    Rel base w a b returns throws
  element : ∀ {ε α base w returns throws m ref value} {a b : Action Machine ε α},
    Sees base w m → Has w (.array ref) → (m.heap.array ref).Stores value →
    (∀ w', Later w w' → Sees base w' m → Has w' value → Rel base w' a b returns throws) →
    Rel base w a b returns throws
  binding : ∀ {ε α base w returns throws m env scope name binding} {a b : Action Machine ε α},
    Sees base w m → Chain w env → scope ∈ env → names name →
    (m.heap.bindings scope).get? name = some binding →
    (∀ w', Later w w' → Sees base w' m → Has w' binding.value → Rel base w' a b returns throws) →
    Rel base w a b returns throws
  newNative : ∀ {base w f}, natives f →
    toSetting.Runs base w (Run.newFunction (.native f)) (Run.newFunction (.native f)) Has
  newClosure : ∀ {base w c}, Chain w c.env → toSetting.Permits c.body.parts →
    toSetting.Runs base w (Run.newFunction (.closure c)) (Run.newFunction (.closure c)) Has
  newSymbol : ∀ {base w} (description : Option String),
    toSetting.Runs base w (Run.newSymbol description) (Run.newSymbol description) Has
  newObject : ∀ {base w o}, o.All (toSetting.HasProperty w o.kind) →
    toSetting.Runs base w (Run.newObject o) (Run.newObject o) Has
  newArray : ∀ {base w elements}, (∀ value ∈ elements, Has w value) →
    toSetting.Runs base w (Run.newArray elements) (Run.newArray elements) Has
  childScope : ∀ {base w env}, Chain w env →
    toSetting.Runs base w (Run.childScope env) (Run.childScope env)
      fun w env => Chain w env ∧ Owns w env
  declare : ∀ {base w env value} (name : String) (mutable : Bool), Chain w env → Owns w env →
    Has w value →
    toSetting.Runs base w (Run.declare env name value mutable) (Run.declare env name value mutable)
      toSetting.Any
  assign : ∀ {base w env value} (name : String), Chain w env → Has w value →
    toSetting.Runs base w (Run.assign env name value) (Run.assign env name value) toSetting.Any
  setObject : ∀ {base w ref value} (key : String), Has w (.object ref) → Has w value →
    (ends → value.isFlat = true) →
    toSetting.Runs base w (Run.setProperty (.object ref) key value)
      (Run.setProperty (.object ref) key value) toSetting.Any
  setArray : ∀ {base w ref value} (key : String), Has w (.array ref) → Has w value →
    toSetting.Runs base w (Run.setProperty (.array ref) key value)
      (Run.setProperty (.array ref) key value) toSetting.Any
  enqueue : ∀ {base w job}, Has w job →
    toSetting.Runs base w (modify fun m => { m with jobs := m.jobs.push job })
      (modify fun m => { m with jobs := m.jobs.push job }) toSetting.Any
  report : ∀ {base w} (line : String),
    toSetting.Runs base w (modify (Machine.report line)) (modify (Machine.report line)) toSetting.Any
  fuzzSink : ∀ {β base w name} {operation : Sink → β × Sink} (E F : Evaluator),
    natives (.intrinsic name) → Sink.Uniform operation →
    toSetting.Runs base w (E.fuzzHost.onSink operation) (F.fuzzHost.onSink operation) toSetting.Any
  printSink : ∀ {β base w} {operation : Sink → β × Sink} (E F : Evaluator), Sink.Uniform operation →
    toSetting.Runs base w (E.printHost.onSink operation) (F.printHost.onSink operation) toSetting.Any

end Reprl
