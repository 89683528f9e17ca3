import Reprl.Proofs.Discipline.Statement

/-! Calls and whole scripts under a discipline. Printing is where the outputs are used, and it is
uniform in the sinks. -/

namespace Reprl.Discipline

open Source Setting Reprl.Stream

variable {D : Discipline} {base : D.Base} {w : D.World} {E F : Evaluator}

/-- Hosts of printing whose actions keep a discipline. -/
structure Hosts (D : Discipline) (base : D.Base) (host host' : Intrinsic.Host Machine Value Value) :
    Prop where
  display {w : D.World} {value : Value} : D.Has w value →
    D.Runs base w (host.display value) (host'.display value) D.Any
  onSink {w : D.World} {β : Type} {operation : Sink → β × Sink} : Sink.Uniform operation →
    D.Runs base w (host.onSink operation) (host'.onSink operation) D.Any
  report : host.report = Machine.report
  report' : host'.report = Machine.report

theorem Hosts.printLine {host host' : Intrinsic.Host Machine Value Value} (h : D.Hosts base host host')
    (failure : String → String) (line : Line) {values : List Value} (ha : D.HasAll w values) :
    D.Runs base w (host.printLine failure line values) (host'.printLine failure line values) D.Any := by
  -- On the values, with any line so far: a conversion may print lines of its own in between.
  induction values generalizing w line with
  | nil =>
    refine D.bind (h.onSink (Printing.uniform_close line)) fun _ result _ _ => ?_
    cases result with
    | ok _ => exact D.pure trivial
    | error reason =>
      simp only [h.report, h.report']
      exact D.report _
  | cons value rest ih =>
    obtain ⟨hv, hrest⟩ := List.forall_mem_cons.mp ha
    refine D.bind (D.attempt (h.display hv)) fun _ shown hg hshown => ?_
    cases shown with
    | error e =>
      exact D.bind (h.onSink (Printing.uniform_abandon line)) fun _ _ hg' _ =>
        D.raise (D.has_later hg' hshown)
    | ok text =>
      refine D.bind (h.onSink (Printing.uniform_pushArg line text)) fun _ pushed hg' _ => ?_
      obtain ⟨_ | reason, line⟩ := pushed
      · simp only [h.report, h.report']
        exact D.bind (D.report _) fun _ _ _ _ => h.onSink (Printing.uniform_abandon line)
      · exact ih line (hasAll_later hg' (hasAll_later hg hrest))

/-- Jobs are values that code may hold. -/
def Pops (D : Discipline) (base : D.Base) (throws : D.World → ScriptError → Prop) : Prop :=
  ∀ w, D.Rel base w Session.popJob Session.popJob
    (fun w job => ∀ value, job = some value → D.Has w value) throws

namespace Sound

theorem printHost (h : D.Sound 3 base E F) : D.Hosts base E.printHost F.printHost where
  display := h.shown
  onSink := D.printSink E F
  report := rfl
  report' := rfl

theorem fuzzHost (h : D.Sound 3 base E F) {name : String} (hn : D.natives (.intrinsic name)) :
    D.Hosts base E.fuzzHost F.fuzzHost where
  display := h.shown
  onSink := D.fuzzSink E F hn
  report := rfl
  report' := rfl

theorem dispatch (h : D.Sound 3 base E F) {name : String} (hn : D.natives (.intrinsic name))
    {args : List Value} (ha : D.HasAll w args) :
    D.Runs base w (Intrinsic.dispatch E.fuzzHost args) (Intrinsic.dispatch F.fuzzHost args) D.Any := by
  cases args with
  | nil => exact D.pure trivial
  | cons selector rest =>
    simp only [Intrinsic.dispatch, Evaluator.fuzzHost]
    split
    · exact D.pure trivial
    · exact D.crash _ hn
    · exact (h.fuzzHost hn).printLine _ _ (List.forall_mem_cons.mp ha).2

theorem displayFirst (h : D.Sound 3 base E F) {args : List Value} (ha : D.HasAll w args) :
    D.Runs base w (E.displayFirst args) (F.displayFirst args) D.Any := by
  simp only [Evaluator.displayFirst.eq_def]
  split
  · exact D.pure trivial
  · exact D.pure trivial
  · exact D.bind (h.shown (List.forall_mem_cons.mp ha).1) fun _ _ _ _ => D.pure trivial

theorem callNative (h : D.Sound 3 base E F) {f : Native} (hf : D.natives f) {args : List Value}
    (ha : D.HasAll w args) :
    D.Runs base w (E.callNative f args) (F.callNative f args) D.Has := by
  cases f with
  | intrinsic name => exact D.bind (h.dispatch hf ha) fun _ _ _ _ => D.plain rfl
  | print name => exact D.bind (h.printHost.printLine _ _ ha) fun _ _ _ _ => D.plain rfl
  | queueMicrotask =>
    simp only [Evaluator.callNative]
    split
    · exact D.bind (D.enqueue (List.forall_mem_cons.mp ha).1) fun _ _ _ _ => D.plain rfl
    · exact D.raiseError _ _
  | symbol => exact D.bind (h.displayFirst ha) fun _ description _ _ => D.newSymbol description
  | string =>
    cases args with
    | nil => exact D.plain rfl
    | cons value rest =>
      exact D.bind (h.shown (List.forall_mem_cons.mp ha).1) fun _ _ _ _ => D.plain rfl
  | error name =>
    exact D.bind (h.displayFirst ha) fun w' _ _ _ => D.newObject (D.hasProperty_error w' name _)
  | host name reply => exact D.give (D.host_iff.mp hf) reply

/-- A function runs in a scope inside those in which it was made. -/
theorem callClosure (h : D.Sound 3 base E F) {identity : Nat} {c : Closure}
    (hc : D.Has w (.function identity (.closure c))) {args : List Value} (ha : D.HasAll w args) :
    D.Runs base w (E.callClosure c args) (F.callClosure c args) D.Has := by
  refine D.enter hc fun w' hg he hp => D.bind (D.childScope he) fun _ scope hg' ⟨hin, ho⟩ => ?_
  refine D.bind (D.bindParams hin ho c.params (hasAll_later hg' (hasAll_later hg ha))) fun w'' _ hg'' _ => ?_
  have hin' := D.chain_later hg'' hin
  have ho' := D.owns_later hg'' ho
  split
  · next value hbody =>
    simp only [hbody, Body.parts, Expr.cons_inner] at hp
    exact h.eval hin' hp
  · next body hbody =>
    simp only [hbody, Body.parts] at hp
    refine D.bind (D.hoist hin' ho' hp) fun _ _ hg₃ _ =>
      D.bind (h.execList (D.chain_later hg₃ hin') (D.owns_later hg₃ ho') hp) fun _ flow _ hflow => ?_
    cases flow with
    | returned value => exact D.pure hflow
    | _ => exact D.plain rfl

/-- A function runs deeper. All else is refused with an error that shows it. -/
theorem callRule (inside : ∀ inner, D.Deeper base inner → D.Sound 3 inner E F) {callee : Value}
    (hs : callee.isFunction = false →
      D.Runs base w (E.display callee) (F.display callee) D.Any)
    (hf : D.Has w callee) {args : List Value} (ha : D.HasAll w args) :
    D.Runs base w (E.callRule callee args) (F.callRule callee args) D.Has := by
  have refused (hshown : D.Runs base w (E.display callee) (F.display callee) D.Any) :
      D.Runs base w
        (do
          let shown ← Action.attempt (E.display callee)
          Run.raiseError "TypeError" (shown.toOption.getD "" ++ " is not a function"))
        (do
          let shown ← Action.attempt (F.display callee)
          Run.raiseError "TypeError" (shown.toOption.getD "" ++ " is not a function")) D.Has :=
    D.bind (D.attempt hshown) fun _ _ _ _ => D.raiseError _ _
  cases callee with
  | function identity f =>
    cases f with
    | native f =>
      exact D.inCall D.lasting_has fun inner _ hdeeper hg =>
        (inside inner hdeeper).callNative (D.native_of_has hf) (hasAll_later hg ha)
    | closure c =>
      exact D.inCall D.lasting_has fun inner _ hdeeper hg =>
        (inside inner hdeeper).callClosure (D.has_later hg hf) (hasAll_later hg ha)
  | _ => exact refused (hs rfl)

section Session

variable {α : Type} {returns : D.World → α → Prop} {throws : D.World → ScriptError → Prop}

/-- What is not caught at the top of a session is a text. -/
theorem uncaughtText (h : D.Sound 3 base E F) {value : Value} (hv : D.Has w value) :
    D.Rel base w (Session.uncaughtText E value) (Session.uncaughtText F value) D.Any throws := by
  refine D.bind (D.attempt (h.shown hv)) fun _ shown _ _ => ?_
  cases shown with
  | ok text => exact D.pure trivial
  | error e => exact D.pure trivial

theorem complete (h : D.Sound 3 base E F) (ht : ∀ w text, throws w (.uncaught text)) {a b : Run α}
    (hab : D.Runs base w a b returns) :
    D.Rel base w (Session.complete E a) (Session.complete F b) returns throws := by
  refine D.bind (D.attempt hab) fun _ result _ hr => ?_
  cases result with
  | ok x => exact D.pure hr
  | error thrown => exact D.bind (h.uncaughtText hr) fun w' text _ _ => D.raise (ht w' text)

theorem run (h : D.Sound 3 base E F) (ht : ∀ w text, throws w (.uncaught text))
    (he : D.Chain w globalEnv) (ho : D.Owns w globalEnv) {script : Script}
    (hp : D.Permits (Stmt.partsIn script)) :
    D.Rel base w (Session.run E script) (Session.run F script) D.Any throws :=
  h.complete ht (D.bind (D.hoist he ho hp) fun _ _ hg _ =>
    D.bind (h.execList (D.chain_later hg he) (D.owns_later hg ho) hp) fun _ _ _ _ => D.pure trivial)

/-- Jobs may add jobs without an end. -/
theorem drainFor (h : D.Sound 3 base E F) (hends : ¬D.ends)
    (ht : ∀ w text, throws w (.uncaught text)) (hpops : D.Pops base throws) {laps laps' : Nat}
    (hl : D.Covers laps laps') :
    D.Rel base w (Session.drainFor E laps) (Session.drainFor F laps') D.Any throws := by
  induction laps generalizing w laps' with
  | zero =>
    refine D.exhaust hends (hl.zero.imp_right fun h => ?_)
    rw [h, Session.drainFor]
  | succ laps ih =>
    obtain ⟨laps', rfl, hrest⟩ := hl.succ
    refine D.bind (hpops w) fun w' job _ hjob => ?_
    cases job with
    | none => exact D.pure trivial
    | some job =>
      have hcall := h.called (hjob job rfl) (D.hasAll_nil w')
      exact D.bind (h.complete ht hcall) fun _ _ _ _ => ih hrest

theorem drain (h : D.Sound 3 base E F) (hends : ¬D.ends) (ht : ∀ w text, throws w (.uncaught text))
    (hpops : D.Pops base throws) : D.Rel base w (Session.drain E) (Session.drain F) D.Any throws :=
  h.drainFor hends ht hpops h.laps

theorem parse {source : String} (ht : ∀ w error, throws w (.invalid error)) :
    D.Rel base w (Session.parse source) (Session.parse source)
      (fun _ script => Source.parse source = .ok script) throws := by
  simp only [Session.parse]
  split
  · next script hscript => exact D.pure hscript
  · exact D.raise (ht w _)

theorem execute (h : D.Sound 3 base E F) (hends : ¬D.ends) (ht : ∀ w error, throws w error)
    (hpops : D.Pops base throws) (he : D.Chain w globalEnv) (ho : D.Owns w globalEnv)
    {source : String}
    (hp : ∀ script, Source.parse source = .ok script → D.Permits (Stmt.partsIn script)) :
    D.Rel base w (Session.execute E source) (Session.execute F source) D.Any throws := by
  refine D.bind (parse fun w _ => ht w _) fun w' script hg hscript => ?_
  have hrun := h.run (fun w _ => ht w _) (D.chain_later hg he) (D.owns_later hg ho) (hp script hscript)
  exact D.bind hrun fun _ _ _ _ => h.drain hends (fun w _ => ht w _) hpops

end Session

end Sound

/-- Evaluators keep every discipline under which code need not end. -/
theorem sound_withDepth (he : ¬D.ends) {laps laps' depth depth' : Nat} (hl : D.Covers laps laps')
    (hd : D.Covers depth depth') (tier : Nat) (base : D.Base) :
    D.Sound tier base (.withDepth laps depth) (.withDepth laps' depth') := by
  induction depth generalizing depth' tier base with
  | zero =>
    rcases hd.zero with hlags | rfl
    · exact ⟨fun _ _ => D.exhaust he (.inl hlags), fun _ _ _ => D.exhaust he (.inl hlags),
        fun _ _ _ => D.exhaust he (.inl hlags), fun _ _ => D.exhaust he (.inl hlags),
        .inr ⟨hlags, Nat.zero_le _⟩⟩
    · exact ⟨fun _ _ => D.exhaust he (.inr rfl), fun _ _ _ => D.exhaust he (.inr rfl),
        fun _ _ _ => D.exhaust he (.inr rfl), fun _ _ => D.exhaust he (.inr rfl), .refl 0⟩
  | succ depth ih =>
    obtain ⟨depth', rfl, hrest⟩ := hd.succ
    have below := fun tier base => ih hrest tier base
    exact {
      eval := fun hc hp => D.nested D.lasting_has fun inner _ _ hg =>
        (below 3 inner).evalRule (D.chain_later hg hc) hp
      exec := fun ho hc hp => D.nested D.lasting_hasFlow fun inner _ _ hg =>
        (below 3 inner).execRule (fun hd => D.owns_later hg (ho hd)) (D.chain_later hg hc) hp
      call := fun _ hf ha =>
        Sound.callRule (fun inner _ => below 3 inner) (fun _ => (below 3 base).shown hf) hf ha
      display := fun _ hv => Sound.displayRule (fun inner _ => below 3 inner) (fun _ => below 1 base) hv
      laps := hl }

theorem sound_ofFuel (he : ¬D.ends) (fuel : Fuel) (base : D.Base) :
    D.Sound 3 base (.ofFuel fuel) (.ofFuel fuel) :=
  sound_withDepth he (.refl fuel.laps) (.refl fuel.depth) 3 base

/-- An action that installs names in the global scope. -/
def Installs (D : Discipline) (base : D.Base) (a : Run Unit) : Prop :=
  ∀ w, D.Chain w globalEnv → D.Owns w globalEnv → D.Runs base w a a D.Any

namespace Installs

theorem seq {a b : Run Unit} (h : D.Installs base a) (h' : D.Installs base b) :
    D.Installs base (do a; b) :=
  fun w he ho => D.bind (h w he ho) fun w' _ hg _ => h' w' (D.chain_later hg he) (D.owns_later hg ho)

theorem constant (name : String) {value : Value} (hv : value.isPlain = true) :
    D.Installs base (Run.declare globalEnv name value false) :=
  fun w he ho => D.declare name false he ho (D.has_plain w hv)

theorem basics : D.Installs base Run.installBasics :=
  (constant _ rfl).seq ((constant _ rfl).seq (constant _ rfl))

theorem native {f : Native} (hf : D.natives f) : D.Installs base (Run.installNative f) :=
  fun _ he ho => D.bind (D.newNative hf) fun _ _ hg hv =>
    D.declare f.name true (D.chain_later hg he) (D.owns_later hg ho) hv

theorem natives {fs : List Native} (h : ∀ f ∈ fs, D.Installs base (Run.installNative f)) :
    D.Installs base (Run.installNatives fs) := by
  induction fs with
  | nil => exact fun _ _ _ => D.pure trivial
  | cons f rest ih =>
    obtain ⟨hf, hrest⟩ := List.forall_mem_cons.mp h
    exact hf.seq (ih hrest)

theorem console : D.Installs base Run.installConsole := by
  intro w he ho
  have hprint : D.natives (.print "log") := D.native nofun nofun
  refine D.bind (D.newNative hprint) fun _ log hg hlog => ?_
  have hobject : (({} : Object).set "log" log).All (D.HasProperty _ .plain) :=
    (Object.All.empty .plain).set "log" (D.hasProperty_plain hlog)
  exact D.bind (D.newObject hobject) fun _ _ hg' hconsole =>
    D.declare "console" true (D.chain_later hg' (D.chain_later hg he))
      (D.owns_later hg' (D.owns_later hg ho)) hconsole

/-- All names but those of the intrinsics are for every code. -/
theorem all (hi : ∀ name ∈ Intrinsic.names, D.Installs base (Run.installNative (.intrinsic name))) :
    D.Installs base (do
      Run.installBasics
      Run.installNatives (Intrinsic.names.map .intrinsic)
      Run.installNative (.print "print")
      Run.installConsole
      Run.installNatives [.queueMicrotask, .symbol, .string]
      Run.installNatives (Run.errorNames.map .error)) := by
  have intrinsics : D.Installs base (Run.installNatives (Intrinsic.names.map .intrinsic)) := by
    refine natives fun f hf => ?_
    obtain ⟨name, hname, rfl⟩ := List.mem_map.mp hf
    exact hi name hname
  have others : D.Installs base (Run.installNatives [.queueMicrotask, .symbol, .string]) := by
    refine natives fun f hf => native ?_
    simp only [List.mem_cons, List.not_mem_nil, or_false] at hf
    rcases hf with rfl | rfl | rfl <;> exact D.native nofun nofun
  have errors : D.Installs base (Run.installNatives (Run.errorNames.map .error)) := by
    refine natives fun f hf => native ?_
    obtain ⟨name, -, rfl⟩ := List.mem_map.mp hf
    exact D.native nofun nofun
  have print : D.natives (.print "print") := D.native nofun nofun
  exact basics.seq (intrinsics.seq ((native print).seq (console.seq (others.seq errors))))

end Installs

end Reprl.Discipline
