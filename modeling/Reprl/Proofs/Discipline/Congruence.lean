import Reprl.Proofs.Discipline.Call

/-! Congruences between actions. A relation that survives sequencing and catching, and that each
access to the machine has with itself, is a discipline without worlds: code may hold every value
and do whatever it can. So it holds between all that evaluators do. -/

namespace Reprl

open Source Reprl.Stream

/-- What an action gives and throws, from any machine. A congruence says nothing of it, but what
follows an action is looked at for such values only. -/
structure Action.Yields {ε α : Type} (a : Action Machine ε α) (returns : α → Prop)
    (throws : ε → Prop) : Prop where
  returned : ∀ {m x}, (a m).1 = .ok x → returns x
  thrown : ∀ {m e}, (a m).1 = .error (.thrown e) → throws e

namespace Action.Yields

variable {ε δ α β : Type} {a : Action Machine ε α} {returns : α → Prop} {throws : ε → Prop}

theorem all (hr : ∀ x, returns x) (ht : ∀ e, throws e) : a.Yields returns throws :=
  ⟨fun _ => hr _, fun _ => ht _⟩

theorem pure {x : α} (hx : returns x) : (Pure.pure x : Action Machine ε α).Yields returns throws :=
  ⟨fun h => Except.ok.inj h ▸ hx, nofun⟩

theorem throw {e : Abrupt ε} (he : ∀ thrown, e = .thrown thrown → throws thrown) :
    (MonadExcept.throw e : Action Machine ε α).Yields returns throws :=
  ⟨nofun, fun h => he _ (Except.error.inj h)⟩

theorem bind {gives : β → Prop} {next : α → Action Machine ε β} (h : a.Yields returns throws)
    (hn : ∀ x, returns x → (next x).Yields gives throws) : (a >>= next).Yields gives throws := by
  constructor
  · intro m y hy
    rw [Action.bind_apply] at hy
    rcases ha : a m with ⟨e | x, m'⟩
    all_goals rw [ha] at hy
    · cases hy
    · exact (hn x (h.returned (congrArg Prod.fst ha))).returned hy
  · intro m thrown ht
    rw [Action.bind_apply] at ht
    rcases ha : a m with ⟨e | x, m'⟩
    all_goals rw [ha] at ht
    · cases ht
      exact h.thrown (congrArg Prod.fst ha)
    · exact (hn x (h.returned (congrArg Prod.fst ha))).thrown ht

theorem attempt {gives : Except ε α → Prop} {raises : δ → Prop} (h : a.Yields returns throws)
    (hok : ∀ x, returns x → gives (.ok x)) (herror : ∀ e, throws e → gives (.error e)) :
    (Action.attempt a : Action Machine δ (Except ε α)).Yields gives raises := by
  constructor
  · intro m result hresult
    rcases ha : a m with ⟨(e | signal | _) | x, m'⟩
    all_goals
      rw [Action.attempt_of_apply ha] at hresult
      cases hresult
    · exact herror e (h.thrown (congrArg Prod.fst ha))
    · exact hok x (h.returned (congrArg Prod.fst ha))
  · intro m thrown hthrown
    rcases ha : a m with ⟨(e | signal | _) | x, m'⟩
    all_goals
      rw [Action.attempt_of_apply ha] at hthrown
      cases hthrown

theorem get_bind {next : Machine → Action Machine ε α} (h : ∀ m, (next m).Yields returns throws) :
    (get >>= next).Yields returns throws :=
  ⟨fun hr => (h _).returned hr, fun ht => (h _).thrown ht⟩

theorem between {a : Run α} {throws : Value → Prop} (h : a.Yields returns throws)
    (enter leave : Machine → Machine) : (Run.between enter leave a).Yields returns throws :=
  ⟨fun hr => h.returned hr, fun ht => h.thrown ht⟩

variable {a : Run α} {throws : Value → Prop} (h : a.Yields returns throws) (ht : ∀ e, throws e)

include ht

theorem raiseError (name message : String) :
    (Run.raiseError name message : Run α).Yields returns throws :=
  have hobject : (Run.newObject (.error name message)).Yields (fun _ => True) throws :=
    all (fun _ => trivial) ht
  bind hobject fun _ _ => throw fun _ _ => ht _

include h

theorem nested : (Run.nested a).Yields returns throws := by
  refine get_bind fun m => ?_
  split
  · exact raiseError ht _ _
  · exact between h _ _

theorem inCall : (Run.inCall a).Yields returns throws := by
  refine get_bind fun m => ?_
  split
  · exact raiseError ht _ _
  · exact between h _ _

end Action.Yields

structure Congruence where
  Rel : {ε α : Type} → Action Machine ε α → Action Machine ε α → Prop
  /-- Whether the first of two actions may run out of fuel before the second. -/
  lags : Prop
  pure : ∀ {ε α : Type} (x : α), Rel (Pure.pure x : Action Machine ε α) (Pure.pure x)
  throw : ∀ {ε α : Type} (e : Abrupt ε),
    Rel (MonadExcept.throw e : Action Machine ε α) (MonadExcept.throw e)
  exhaust : ∀ {ε α : Type} (b : Action Machine ε α), lags → Rel Action.exhaust b
  /-- What follows need only be related for values that the first action can give. -/
  bind : ∀ {ε α β : Type} {a b : Action Machine ε α} {next next' : α → Action Machine ε β},
    Rel a b → (∀ m x, (a m).1 = .ok x → Rel (next x) (next' x)) → Rel (a >>= next) (b >>= next')
  attempt : ∀ {ε δ α : Type} {a b : Action Machine ε α}, Rel a b →
    Rel (Action.attempt a : Action Machine δ (Except ε α)) (Action.attempt b)
  /-- An action may look at the heap and at what is being joined. -/
  look : ∀ {ε α : Type} {next next' : Machine → Action Machine ε α}, (∀ m, Rel (next m) (next' m)) →
    Machine.Heeded next' → Rel (get >>= next) (get >>= next')
  onHeap : ∀ {α : Type} (operation : Heap → α × Heap), Rel (Run.onHeap operation) (Run.onHeap operation)
  newIdentity : Rel Run.newIdentity Run.newIdentity
  track : ∀ ref : Ref, Rel (Run.track ref) (Run.track ref)
  enqueue : ∀ job : Value, Rel (modify fun m => { m with jobs := m.jobs.push job } : Run Unit)
    (modify fun m => { m with jobs := m.jobs.push job })
  report : ∀ line : String, Rel (modify (Machine.report line) : Run Unit) (modify (Machine.report line))
  fuzzSink : ∀ {β : Type} {operation : Sink → β × Sink} (E F : Evaluator), Sink.Uniform operation →
    Rel (E.fuzzHost.onSink operation) (F.fuzzHost.onSink operation)
  printSink : ∀ {β : Type} {operation : Sink → β × Sink} (E F : Evaluator), Sink.Uniform operation →
    Rel (E.printHost.onSink operation) (F.printHost.onSink operation)
  nested : ∀ {α : Type} {a b : Run α}, Rel a b → Rel (Run.nested a) (Run.nested b)
  inCall : ∀ {α : Type} {a b : Run α}, Rel a b → Rel (Run.inCall a) (Run.inCall b)
  whileJoining : ∀ {α : Type} (ref : Ref) {a b : Run α}, Rel a b →
    Rel (Run.whileJoining ref a) (Run.whileJoining ref b)

namespace Congruence

variable (C : Congruence) {ε α β : Type}

theorem seq {a : Action Machine ε α} {next : α → Action Machine ε β} (h : C.Rel a a)
    (hn : ∀ x, C.Rel (next x) (next x)) : C.Rel (a >>= next) (a >>= next) :=
  C.bind h fun _ x _ => hn x

theorem modifyHeap (f : Heap → Heap) : C.Rel (Run.modifyHeap f) (Run.modifyHeap f) :=
  C.onHeap fun heap => ((), f heap)

theorem alloc (cell : Cell) : C.Rel (Run.alloc cell) (Run.alloc cell) := C.onHeap _

theorem newObject (o : Object) : C.Rel (Run.newObject o) (Run.newObject o) :=
  C.seq (C.alloc _) fun _ => C.pure _

theorem newArray (elements : Array Value) : C.Rel (Run.newArray elements) (Run.newArray elements) :=
  C.seq (C.alloc _) fun _ => C.pure _

theorem newFunction (f : Callable) : C.Rel (Run.newFunction f) (Run.newFunction f) :=
  C.seq C.newIdentity fun _ => C.pure _

theorem newSymbol (description : Option String) :
    C.Rel (Run.newSymbol description) (Run.newSymbol description) :=
  C.seq C.newIdentity fun _ => C.pure _

theorem childScope (env : Env) : C.Rel (Run.childScope env) (Run.childScope env) :=
  C.seq (C.alloc _) fun ref => C.seq (C.track ref) fun _ => C.pure _

theorem declare (env : Env) (name : String) (value : Value) (mutable : Bool) :
    C.Rel (Run.declare env name value mutable) (Run.declare env name value mutable) := by
  cases env with
  | nil => exact C.pure ()
  | cons scope outer => exact C.modifyHeap (·.declare scope name value mutable)

theorem assign (env : Env) (name : String) (value : Value) :
    C.Rel (Run.assign env name value) (Run.assign env name value) := by
  refine C.seq (C.onHeap _) fun answer => ?_
  rcases answer with (_ | _) | _
  · exact C.declare _ _ _ _
  · exact C.seq (C.newObject _) fun _ => C.throw _
  · exact C.pure ()

/-- Nothing is asked of what code holds. -/
abbrev setting : Setting where
  World := Unit
  Later _ _ := True
  Base := Unit
  Deeper _ _ := True
  permits _ := True
  names _ := True
  natives _ := True
  ends := False
  lags := C.lags
  Has _ _ := True
  Chain _ _ := True
  Owns _ _ := True
  Sees _ _ _ := True
  Rel _ w a b returns throws := C.Rel a b ∧ a.Yields (returns w) (throws w)

variable {C}

theorem related {a b : Action Machine ε α} (h : C.Rel a b) {returns : Unit → α → Prop}
    {throws : Unit → ε → Prop} (hr : ∀ x, returns () x) (ht : ∀ e, throws () e) :
    C.setting.Rel () () a b returns throws := ⟨h, .all hr ht⟩

/-- What is known of the values that come out is forgotten. -/
theorem forget {a b : Action Machine ε α} {R : Unit → α → Prop} {T : Unit → ε → Prop}
    (h : C.setting.Rel () () a b R T) : C.Rel a b := h.1

theorem runs {a b : Run α} (h : C.Rel a b) {returns : Unit → α → Prop} (hr : ∀ x, returns () x) :
    C.setting.Runs () () a b returns := related h hr fun _ => trivial

variable (C)

def discipline : Discipline where
  toSetting := C.setting
  later_refl _ := trivial
  later_trans _ _ := trivial
  has_later _ _ := trivial
  chain_later _ _ := trivial
  owns_later _ _ := trivial
  has_plain _ _ _ := trivial
  native_of_has _ := trivial
  native _ _ := trivial
  host_iff := ⟨fun _ => id, fun _ => trivial⟩
  name_of_identifier _ := trivial
  name_of_shorthand _ := trivial
  loopFree he := he.elim
  storeFree he := he.elim
  pure hx := ⟨C.pure _, .pure hx⟩
  raise he := ⟨C.throw _, .throw fun _ h => Abrupt.thrown.inj h ▸ he⟩
  exhaust := by
    rintro _ _ _ _ _ _ b - (hlags | rfl)
    · exact ⟨C.exhaust b hlags, .throw nofun⟩
    · exact ⟨C.throw _, .throw nofun⟩
  crash _ _ := ⟨C.throw _, .throw nofun⟩
  bind h hn :=
    ⟨C.bind h.1 fun _ x hx => (hn () x trivial (h.2.returned hx)).1,
      h.2.bind fun x hx => (hn () x trivial hx).2⟩
  attempt h := ⟨C.attempt h.1, h.2.attempt (fun _ => id) fun _ => id⟩
  look hs h := ⟨C.look (fun m => (h m trivial).1) hs, .get_bind fun m => (h m trivial).2⟩
  nested _ h :=
    have hinner := h () () trivial trivial
    ⟨C.nested hinner.1, hinner.2.nested fun _ => trivial⟩
  inCall _ h :=
    have hinner := h () () trivial trivial
    ⟨C.inCall hinner.1, hinner.2.inCall fun _ => trivial⟩
  joining ref _ h :=
    have hinner := h () () trivial trivial
    ⟨C.nested (C.whileJoining ref hinner.1), (hinner.2.between _ _).nested fun _ => trivial⟩
  enter _ h := h () trivial trivial fun _ _ => trivial
  property _ _ _ h := h () trivial trivial ⟨trivial, fun he => he.elim⟩
  element _ _ _ h := h () trivial trivial trivial
  binding _ _ _ _ _ h := h () trivial trivial trivial
  newNative _ := runs (C.newFunction _) fun _ => trivial
  newClosure _ _ := runs (C.newFunction _) fun _ => trivial
  newSymbol description := runs (C.newSymbol description) fun _ => trivial
  newObject _ := runs (C.newObject _) fun _ => trivial
  newArray _ := runs (C.newArray _) fun _ => trivial
  childScope _ := runs (C.childScope _) fun _ => ⟨trivial, trivial⟩
  declare name mutable _ _ _ := runs (C.declare _ name _ mutable) fun _ => trivial
  assign name _ _ := runs (C.assign _ name _) fun _ => trivial
  setObject key _ _ _ := runs (C.seq (C.track _) fun _ => C.modifyHeap _) fun _ => trivial
  setArray key _ _ := runs (C.seq (C.track _) fun _ => C.modifyHeap _) fun _ => trivial
  enqueue _ := runs (C.enqueue _) fun _ => trivial
  report line := runs (C.report line) fun _ => trivial
  fuzzSink E F _ hu := runs (C.fuzzSink E F hu) fun _ => trivial
  printSink E F hu := runs (C.printSink E F hu) fun _ => trivial

/-- Evaluators of which everything is related. -/
structure Related (C : Congruence) (E F : Evaluator) : Prop where
  eval : ∀ e env, C.Rel (E.eval e env) (F.eval e env)
  exec : ∀ stmt env, C.Rel (E.exec stmt env) (F.exec stmt env)
  call : ∀ callee args, C.Rel (E.call callee args) (F.call callee args)
  display : ∀ value, C.Rel (E.display value) (F.display value)
  laps : C.setting.Covers E.laps F.laps

theorem permits_all (nodes : List Node) : C.setting.Permits nodes := fun _ _ => trivial

theorem hasAll (values : List Value) : C.setting.HasAll () values := fun _ _ => trivial

namespace Related

variable {C} {E F : Evaluator}

theorem sound (h : C.Related E F) {tier : Nat} : C.discipline.Sound tier () E F where
  eval _ _ := runs (h.eval _ _) fun _ => trivial
  exec _ _ _ := runs (h.exec _ _) fun flow => by cases flow <;> trivial
  call _ _ _ := runs (h.call _ _) fun _ => trivial
  display _ _ := runs (h.display _) fun _ => trivial
  laps := h.laps

theorem withDepth {laps laps' depth depth' : Nat} (hl : C.setting.Covers laps laps')
    (hd : C.setting.Covers depth depth') :
    C.Related (.withDepth laps depth) (.withDepth laps' depth') :=
  have hsound := Discipline.sound_withDepth (D := C.discipline) id hl hd 3 ()
  { eval := fun _ _ => forget (hsound.eval trivial (C.permits_all _))
    exec := fun _ _ => forget (hsound.exec (fun _ => trivial) trivial (C.permits_all _))
    call := fun _ args => forget (hsound.called trivial (C.hasAll args))
    display := fun _ => forget (hsound.shown trivial)
    laps := hsound.laps }

theorem ofFuel (C : Congruence) (fuel : Fuel) : C.Related (.ofFuel fuel) (.ofFuel fuel) :=
  withDepth (.refl _) (.refl _)

theorem complete (h : C.Related E F) {a b : Run α} (hab : C.Rel a b) :
    C.Rel (Session.complete E a) (Session.complete F b) :=
  have hruns : C.setting.Runs () () a b C.setting.Any := runs hab fun _ => trivial
  forget (T := C.setting.Any) (h.sound.complete (fun _ _ => trivial) hruns)

theorem run (h : C.Related E F) (script : Script) :
    C.Rel (Session.run E script) (Session.run F script) :=
  forget (T := C.setting.Any)
    (h.sound.run (fun _ _ => trivial) trivial trivial (C.permits_all _))

end Related

theorem parse (source : String) : C.Rel (Session.parse source) (Session.parse source) :=
  forget (T := C.setting.Any) (Discipline.Sound.parse (D := C.discipline) fun _ _ => trivial)

theorem install : C.Rel Run.install Run.install :=
  C.seq (C.alloc _) fun _ =>
    forget (Discipline.Installs.all (D := C.discipline) (fun _ _ => .native trivial) () trivial trivial)

end Congruence

end Reprl
