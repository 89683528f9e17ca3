import Reprl.Proofs.Policy.Script

/-! What code does to scopes that are there already, when all code sees the global scope.
Bindings stay with their mutability and constants with their values. Only the global scope gains
names, namely variables that are assigned to and bound nowhere. -/

namespace Reprl

namespace Heap

/-- How the scopes of a heap may look later. -/
structure Framed (h h' : Heap) : Prop where
  kept {scope : Ref} {name : String} {binding : Binding} :
    (h.bindings scope).get? name = some binding →
      ∃ value, (h'.bindings scope).get? name = some ⟨value, binding.mutable⟩ ∧
        (binding.mutable = false → value = binding.value)
  gained {scope : Ref} {name : String} {binding : Binding} : scope < h.next →
    (h.bindings scope).get? name = none → (h'.bindings scope).get? name = some binding →
      scope = globalScope ∧ binding.mutable = true

/-- What becomes of a name in a scope. -/
inductive Rebound (scope : Ref) : Option Binding → Option Binding → Prop where
  | same (found : Option Binding) : Rebound scope found found
  | assigned (before after : Value) : Rebound scope (some ⟨before, true⟩) (some ⟨after, true⟩)
  | gained (h : scope = globalScope) (value : Value) : Rebound scope none (some ⟨value, true⟩)

theorem Rebound.trans {scope : Ref} {first second third : Option Binding}
    (h : Rebound scope first second) (h' : Rebound scope second third) :
    Rebound scope first third := by
  cases h with
  | same => exact h'
  | assigned before after =>
    cases h' with
    | same => exact .assigned before after
    | assigned _ last => exact .assigned before last
  | gained hs value =>
    cases h' with
    | same => exact .gained hs value
    | assigned _ last => exact .gained hs last

theorem framed_of_rebound {h h' : Heap} (hr : ∀ scope < h.next, ∀ name,
    Rebound scope ((h.bindings scope).get? name) ((h'.bindings scope).get? name)) : h.Framed h' := by
  constructor
  · intro scope name binding hb
    have hs : scope < h.next := by
      refine Nat.lt_of_not_le fun hle => ?_
      rw [bindings_of_next_le hle] at hb
      cases hb
    have hname := hr scope hs name
    rw [hb] at hname
    generalize (h'.bindings scope).get? name = found at hname
    cases hname with
    | same => exact ⟨binding.value, rfl, fun _ => rfl⟩
    | assigned before after => exact ⟨after, rfl, fun hm => nomatch hm⟩
  · intro scope name binding hs hn hb
    have hname := hr scope hs name
    rw [hn, hb] at hname
    cases hname with
    | gained hglobal value => exact ⟨hglobal, rfl⟩

end Heap

/-- Code that may do anything, in scopes that end in the global one. -/
def Policy.rooted : Policy where
  names _ := True
  envs env := globalScope ∈ env
  intrinsics := True
  envs_global := List.mem_singleton_self _
  envs_cons h scope := List.mem_cons_of_mem scope h

def Value.Rooted (value : Value) : Prop := Policy.rooted.Allows value

/-- All functions that code can reach on a machine see the global scope. -/
def Machine.Rooted (m : Machine) : Prop := Policy.rooted.Holds m

/-- The older scopes of a machine are framed after an action, and functions still see the global
scope, also those that come out of the action. -/
structure Machine.Frames (m : Machine) {ε α : Type} (a : Action Machine ε α) (returns : α → Prop)
    (throws : ε → Prop) : Prop where
  framed : m.heap.Framed (a m).2.heap
  rooted : (a m).2.Rooted
  answer : Policy.rooted.Answers returns throws (a m).1

namespace Policy

variable {own : Ref → Prop} {m m' : Machine}

theorem Change.rebound (hc : rooted.Change own m m') {scope : Ref} (hs : scope < m.heap.next)
    (ho : ¬own scope) (name : String) :
    Heap.Rebound scope ((m.heap.bindings scope).get? name) ((m'.heap.bindings scope).get? name) := by
  cases hc with
  | alloc cell hcell =>
    rw [Heap.bindings_add hs]
    exact .same _
  | @declare target other value mutable h hv =>
    rcases m.heap.get?_declare_cases target scope other name value mutable with hsame | ⟨rfl, -, -⟩
    · rw [hsame]
      exact .same _
    · exact absurd h ho
  | @assign target other binding value hb hm hv =>
    rcases m.heap.get?_declare_cases target scope other name value true with hsame | ⟨rfl, rfl, hset⟩
    · rw [hsame]
      exact .same _
    · rw [hset, hb]
      obtain ⟨before, mutable⟩ := binding
      obtain rfl : mutable = true := hm
      exact .assigned before value
  | @global env other value he hn hv =>
    rcases m.heap.get?_declare_cases globalScope scope other name value true with
      hsame | ⟨rfl, rfl, hset⟩
    · rw [hsame]
      exact .same _
    · -- The chain ends in the global scope, so the name was not bound there either.
      rw [hset, hn globalScope he]
      exact .gained rfl value
  | setObject ref key value hv =>
    rw [Heap.bindings_modifyObject]
    exact .same _
  | setArray ref key value hv =>
    rw [Heap.bindings_modifyArray]
    exact .same _
  | identity | track | push | pop | levels | console | fuzz => exact .same _

/-- Actions of code that owns no scope leave all older scopes framed. -/
theorem Reach.framed (hr : rooted.Reach (fun _ => False) m m') : m.heap.Framed m'.heap := by
  refine Heap.framed_of_rebound fun scope hs name => ?_
  induction hr with
  | refl => exact .same _
  | @tail middle last hreach hc ih =>
    have hyoung : scope < middle.heap.next := Nat.lt_of_lt_of_le hs (Reach.next_le hreach)
    refine ih.trans (hc.rebound hyoung (fun hown => ?_) name)
    rcases hown with hfalse | hle
    · exact hfalse
    · exact Nat.not_le_of_lt hs hle

/-- An action of code that owns no scope, on a rooted machine. -/
theorem Abides.frames {ε α : Type} {a : Action Machine ε α} {returns : α → Prop} {throws : ε → Prop}
    (h : rooted.Abides (fun _ => False) a (fun _ => returns) fun _ => throws) (hm : m.Rooted) :
    m.Frames a returns throws := by
  obtain ⟨hreach, ⟨_, -, hanswer⟩, -⟩ := h m hm
  exact ⟨hreach.framed, hreach.holds hm, hanswer⟩

theorem hasFlow_eq (P : Policy) : P.setting.HasFlow = fun _ => P.AllowsFlow := by
  funext _ flow
  cases flow <;> rfl

theorem permits_rooted (nodes : List Source.Node) : rooted.setting.Permits nodes :=
  fun _ _ _ _ => trivial

end Policy

/-- On a machine whose functions all see the global scope, as they do on fresh machines, the
scopes that are there stay framed whatever an expression, a call, a block, another statement
that declares nothing, or the jobs do, and however they end. Functions still see the global
scope then, also after whole scripts. -/
theorem older_scopes_framed (fuel : Fuel) :
    (∀ outlet fuzz console, (Machine.new outlet fuzz console).Rooted) ∧
    ∀ m : Machine, m.Rooted →
      (∀ e env, globalScope ∈ env →
        m.Frames ((Evaluator.ofFuel fuel).eval e env) Value.Rooted Value.Rooted) ∧
      (∀ callee args, callee.Rooted → (∀ arg ∈ args, arg.Rooted) →
        m.Frames ((Evaluator.ofFuel fuel).call callee args) Value.Rooted Value.Rooted) ∧
      (∀ body env, globalScope ∈ env →
        m.Frames ((Evaluator.ofFuel fuel).execBlock env body) Policy.rooted.AllowsFlow Value.Rooted) ∧
      (∀ stmt env, stmt.declares = false → globalScope ∈ env →
        m.Frames ((Evaluator.ofFuel fuel).exec stmt env) Policy.rooted.AllowsFlow Value.Rooted) ∧
      m.Frames (Session.drain (.ofFuel fuel)) (fun _ => True) (fun _ => True) ∧
      ∀ script, (Session.run (.ofFuel fuel) script m).2.Rooted := by
  have hsound := Policy.rooted.sound_ofFuel fuel
  have hflow := Policy.rooted.hasFlow_eq
  refine ⟨Policy.holds_new fun _ _ _ => trivial, fun m hm => ?_⟩
  have hpermits := Policy.permits_rooted
  refine ⟨fun e env he => ?_, fun callee args hf ha => ?_, fun body env he => ?_,
    fun stmt env hd he => ?_, ?_, fun script => ?_⟩
  · exact Policy.Abides.frames (hsound.eval he (hpermits e.parts)) hm
  · exact Policy.Abides.frames (hsound.called hf ha) hm
  · have hblock := hsound.execBlock (w := fun _ => False) he (hpermits (Source.Stmt.partsIn body))
    exact Policy.Abides.frames (hflow ▸ hblock) hm
  · have hown : stmt.declares = true → Policy.rooted.setting.Owns (fun _ => False) env :=
      fun ht => absurd (hd.symm.trans ht) Bool.noConfusion
    have hexec := hsound.exec hown he (hpermits stmt.parts)
    exact Policy.Abides.frames (hflow ▸ hexec) hm
  · exact Policy.Abides.frames (hsound.drain id (fun _ _ => trivial) Policy.popJob) hm
  · have hrun : Policy.rooted.Abides (· = globalScope) (Session.run (.ofFuel fuel) script)
        Policy.rooted.setting.Any Policy.rooted.setting.Any :=
      hsound.run (fun _ _ => trivial) Policy.rooted.envs_global Policy.rooted.owns_global
        (hpermits (Source.Stmt.partsIn script))
    exact (hrun m hm).reach.holds hm

/-- A call that declares a name of its own, assigns to a name that is bound nowhere and fails to
assign to a constant: `(() => { let own; late = null; NaN = null })()`. -/
def lateWriter : Source.Expr :=
  let assign (name : String) : Source.Stmt :=
    .expression (.assign .plain (.place (.identifier name)) .null)
  let own : Source.Stmt := .declaration .lexical [.mk (.name "own") none]
  .call (.arrow (.mk none [] (.block [own, assign "late", assign "NaN"]) false false)) []

/-- A loop with a variable of its own: `for (let own; null; );`. -/
def emptyLoop : Source.Stmt :=
  .forLoop (.declaration .lexical [.mk (.name "own") none]) (some .null) none .empty

theorem scopes_framed_by_lateWriter :
    ∃ m : Machine, m = .new .fuzzer default {} ∧ m.Rooted ∧ globalScope ∈ globalEnv ∧
      emptyLoop.declares = false ∧ Value.Rooted (.function 0 (.native .symbol)) ∧
      m.Frames ((Evaluator.ofFuel ⟨30, 5⟩).eval lateWriter globalEnv) Value.Rooted Value.Rooted ∧
      m.Frames ((Evaluator.ofFuel ⟨30, 5⟩).call (.function 0 (.native .symbol)) [])
        Value.Rooted Value.Rooted ∧
      m.Frames ((Evaluator.ofFuel ⟨30, 5⟩).execBlock globalEnv [emptyLoop])
        Policy.rooted.AllowsFlow Value.Rooted ∧
      m.Frames ((Evaluator.ofFuel ⟨30, 5⟩).exec emptyLoop globalEnv)
        Policy.rooted.AllowsFlow Value.Rooted ∧
      m.Frames (Session.drain (.ofFuel ⟨30, 5⟩)) (fun _ => True) (fun _ => True) ∧
      ((m.heap.bindings globalScope).get? "late").isNone ∧
      ((((Evaluator.ofFuel ⟨30, 5⟩).eval lateWriter globalEnv m).2.heap.bindings
        globalScope).get? "late").isSome := by
  obtain ⟨hnew, hframes⟩ := older_scopes_framed ⟨30, 5⟩
  have hm := hnew .fuzzer default {}
  obtain ⟨heval, hcall, hblock, hexec, hdrain, -⟩ := hframes _ hm
  have hglobal : globalScope ∈ globalEnv := by decide
  refine ⟨_, rfl, hm, hglobal, rfl, trivial, heval _ _ hglobal, ?_, hblock _ _ hglobal,
    hexec _ _ rfl hglobal, hdrain, by decide +kernel, by decide +kernel⟩
  exact hcall _ _ trivial fun _ hmem => absurd hmem List.not_mem_nil

end Reprl
