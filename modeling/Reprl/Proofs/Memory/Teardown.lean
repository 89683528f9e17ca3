import Reprl.Proofs.Memory.Handles

/-! The end of a machine, whatever was done with it. -/

namespace Reprl.Situation

open Source Reprl.Stream

variable {s t : Situation}

/-- What comes out of a call, by its return or by a throw, the embedding program holds. -/
def answered (s : Situation) : Except (Abrupt Value) Value → Situation
  | .ok value => s.gain value
  | .error (.thrown value) => s.gain value
  | .error _ => s

/-- The situations of an embedding program between its uses of a machine. It holds what came out of
calls, what it found in the global scope and what it built. -/
inductive Rests : Situation → Prop where
  | new (outlet : Outlet) (fuzz : Sink) (console : Console) :
    Rests { machine := .new outlet fuzz console, held := fun _ => False, chains := (· = globalEnv) }
  | run {s : Situation} (h : Rests s) (fuel : Fuel) (script : Script) :
    Rests (s.onMachine (Session.run (.ofFuel fuel) script s.machine).2)
  | drain {s : Situation} (h : Rests s) (fuel : Fuel) :
    Rests (s.onMachine (Session.drain (.ofFuel fuel) s.machine).2)
  | execute {s : Situation} (h : Rests s) (fuel : Fuel) (source : String) :
    Rests (s.onMachine (Session.execute (.ofFuel fuel) source s.machine).2)
  | call {s : Situation} (h : Rests s) (fuel : Fuel) {callee : Value} {args : List Value}
    (hc : s.Has callee) (ha : s.HasAll args) :
    Rests ((s.onMachine ((Evaluator.ofFuel fuel).call callee args s.machine).2).answered
      ((Evaluator.ofFuel fuel).call callee args s.machine).1)
  | eval {s : Situation} (h : Rests s) (fuel : Fuel) (e : Expr) :
    Rests ((s.onMachine ((Evaluator.ofFuel fuel).eval e globalEnv s.machine).2).answered
      ((Evaluator.ofFuel fuel).eval e globalEnv s.machine).1)
  | build {s : Situation} (h : Rests s) (b : Blueprint) :
    Rests ((s.onMachine (b.build s.machine).2).answered (b.build s.machine).1)
  | find {s : Situation} (h : Rests s) {name : String} {binding : Binding}
    (hb : (s.machine.heap.bindings globalScope).get? name = some binding) :
    Rests (s.gain binding.value)
  | declare {s : Situation} (h : Rests s) (name : String) {value : Value} (mutable : Bool)
    (hv : s.Has value) : Rests (s.onHeap (s.machine.heap.declare globalScope name value mutable))
  | enqueue {s : Situation} (h : Rests s) {job : Value} (hj : s.Has job) :
    Rests (s.onMachine { s.machine with jobs := s.machine.jobs.push job })

/-- Code that got hold of the same things, and perhaps of more, comes into a situation with the
same machine. -/
structure Covered (s t : Situation) : Prop where
  reachable : Reachable t
  machine : t.machine = s.machine
  held : ∀ value, s.held value → t.Has value
  chains : ∀ env, s.chains env → t.chains env

namespace Covered

theorem has (h : Covered s t) {value : Value} (hv : s.Has value) : t.Has value :=
  hv.elim t.has_plain (h.held value)

/-- An action of the embedding program is a sequence of steps of code. -/
theorem acts {ε α : Type} {a : Action Machine ε α} {returns : Situation → α → Prop}
    {throws : Situation → ε → Prop} (h : Covered s t) (ha : Traced t a returns throws) :
    ∃ t', Covered (s.onMachine (a s.machine).2) t' ∧ Answers returns throws t' (a s.machine).1 := by
  obtain ⟨t', ht', hg, hm, hr⟩ := h.reachable.traced ha
  rw [h.machine] at hm hr
  exact ⟨t', ⟨ht', hm, fun value hv => hg.has (h.held value hv),
    fun env he => hg.chain (h.chains env he)⟩, hr⟩

theorem gain (h : Covered s t) {value : Value} (hv : t.Has value) : Covered (s.gain value) t :=
  ⟨h.reachable, h.machine, fun _ hother => hother.elim (fun heq => heq ▸ hv) (h.held _), h.chains⟩

theorem answered {result : Except (Abrupt Value) Value} (h : Covered s t)
    (hr : Answers Has Has t result) : Covered (s.answered result) t := by
  rcases result with (value | signal | _) | value
  · exact h.gain hr
  · exact h
  · exact h
  · exact h.gain hr

theorem step (h : Covered s t) {t' : Situation} {m : Machine} (hs : Step t t')
    (hm : t'.machine = m) : Covered (s.onMachine m) t' :=
  ⟨h.reachable.steps (.single hs), hm, fun value hv => hs.grows.has (h.held value hv),
    fun env he => hs.grows.chain (h.chains env he)⟩

theorem ordered (h : Covered s t) : s.Ordered := by
  obtain ⟨hvalues, hchains, hcells⟩ := h.reachable.ordered
  rw [h.machine] at hvalues hchains hcells
  refine ⟨⟨fun value hv => ?_, ?_, ?_⟩, fun env he => hchains env (h.chains env he), hcells⟩
  · exact hvalues.has (fun _ => s.machine.places_plain) (h.held value hv)
  · exact h.machine ▸ hvalues.cells
  · exact h.machine ▸ hvalues.jobs

end Covered

theorem Rests.exists_covered (h : Rests s) : ∃ t, Covered s t := by
  -- On the uses of the machine: code goes on where the last use left it.
  induction h with
  | new outlet fuzz console =>
    obtain ⟨t, ht, hm⟩ := Reachable.new outlet fuzz console
    refine ⟨t, ht, ?_, fun _ hv => hv.elim, ?_⟩
    · -- Only the field is read here; comparing the machines would install them.
      dsimp only
      exact hm
    · rintro env rfl
      exact ht.chains_global
  | run _ fuel script ih =>
    obtain ⟨t, ht⟩ := ih
    have hrun : Traced t (Session.run (.ofFuel fuel) script) setting.Any setting.Any :=
      (sound_ofFuel fuel).run (fun _ _ => trivial) ht.reachable.chains_global trivial
        (permits_all (Stmt.partsIn script))
    obtain ⟨t', ht', -⟩ := ht.acts hrun
    exact ⟨t', ht'⟩
  | drain _ fuel ih =>
    obtain ⟨t, ht⟩ := ih
    have hdrain : Traced t (Session.drain (.ofFuel fuel)) setting.Any setting.Any :=
      (sound_ofFuel fuel).drain id (fun _ _ => trivial) popJob
    obtain ⟨t', ht', -⟩ := ht.acts hdrain
    exact ⟨t', ht'⟩
  | execute _ fuel source ih =>
    obtain ⟨t, ht⟩ := ih
    have hexecute : Traced t (Session.execute (.ofFuel fuel) source) setting.Any setting.Any :=
      (sound_ofFuel fuel).execute id (fun _ _ => trivial) popJob ht.reachable.chains_global trivial
        fun script _ => permits_all (Stmt.partsIn script)
    obtain ⟨t', ht', -⟩ := ht.acts hexecute
    exact ⟨t', ht'⟩
  | call _ fuel hc ha ih =>
    obtain ⟨t, ht⟩ := ih
    have hargs : t.HasAll _ := fun arg hmem => ht.has (ha arg hmem)
    obtain ⟨t', ht', hr⟩ := ht.acts ((sound_ofFuel fuel).called (ht.has hc) hargs)
    exact ⟨t', ht'.answered hr⟩
  | eval _ fuel e ih =>
    obtain ⟨t, ht⟩ := ih
    have heval := (sound_ofFuel fuel).eval ht.reachable.chains_global (permits_all e.parts)
    obtain ⟨t', ht', hr⟩ := ht.acts heval
    exact ⟨t', ht'.answered hr⟩
  | build _ b ih =>
    obtain ⟨t, ht⟩ := ih
    have hbuild : discipline.Runs () t b.build b.build Has := discipline.build id b t
    obtain ⟨t', ht', hr⟩ := ht.acts hbuild
    exact ⟨t', ht'.answered hr⟩
  | find _ hb ih =>
    obtain ⟨t, ht⟩ := ih
    rw [← ht.machine] at hb
    have hfound := ht.step (.binding ht.reachable.chains_global List.mem_cons_self hb) ht.machine
    exact ⟨_, hfound.gain (has_gain t _)⟩
  | declare _ name mutable hv ih =>
    obtain ⟨t, ht⟩ := ih
    have hglobal := ht.reachable.chains_global
    refine ⟨_, ht.step (.declare name mutable hglobal List.mem_cons_self (ht.has hv)) ?_⟩
    rw [← ht.machine]
    rfl
  | enqueue _ hj ih =>
    obtain ⟨t, ht⟩ := ih
    refine ⟨_, ht.step (.push (ht.has hj)) ?_⟩
    rw [← ht.machine]
    rfl

theorem Rests.ordered (h : Rests s) : s.Ordered := by
  obtain ⟨t, ht⟩ := h.exists_covered
  exact ht.ordered

/-- Whatever was done with a machine, a cycle of live nodes leads through the global scope or a cell
that has its handle, and handles are dropped of freed cells only. When the machine is torn down, no
cycle of live nodes is left, and no node but those that the embedding program still gets to from
what it holds. -/
theorem nothing_outlasts_a_machine (hs : s.Rests) {memory : Memory}
    (hm : memory.Follows s.machine.tracked.toList) :
    (∀ nodes, s.Cycle nodes → (∀ node ∈ nodes, memory.LiveNode node) →
      ∃ node ∈ nodes, memory.Clears node) ∧
    (∀ ref new, ref ∈ memory.handles → ref ∉ (memory.track new).handles → ref ∈ memory.freed) ∧
    (∀ nodes, (s.tornDown memory).Cycle nodes → ∃ node ∈ nodes, ¬memory.LiveNode node) ∧
    ∀ left, (s.tornDown memory).Outlasts left → (∀ node, left node → memory.LiveNode node) →
      ∀ node, left node → ∃ value root, s.held value ∧ Node.of value = some root ∧
        Relation.ReflTransGen (s.tornDown memory).Refers root node := by
  have hordered := hs.ordered
  refine ⟨fun nodes hc hlive => ?_, fun ref new => Memory.freed_of_track, fun nodes hc => ?_, ?_⟩
  · exact hordered.exists_clears hm hc hlive
  · exact hordered.exists_dead hm hc
  · intro left hleft hlive node hnode
    exact hordered.held_of_outlasts hm hleft hlive hnode

/-- An object that holds itself: `const o = {}; o.self = o`. -/
def selfHolder : Script :=
  [.declaration .constant [.mk (.name "o") (some (.object []))],
   .expression (.assign .plain (.place (.member (.identifier "o") (.name "self"))) (.identifier "o"))]

theorem selfHolder_leaves_nothing :
    ∃ (s : Situation) (memory : Memory),
      s.machine = (Session.run (.ofFuel ⟨30, 5⟩) selfHolder (.new .fuzzer default {})).2 ∧
      s.Rests ∧ memory.Follows s.machine.tracked.toList ∧ s.Cycle [.cell 2] ∧
      memory.Clears (.cell 2) ∧ (∀ nodes, ¬(s.tornDown memory).Cycle nodes) ∧
      ∀ left, (s.tornDown memory).Outlasts left → ∀ node, ¬left node := by
  obtain ⟨m, hm⟩ : ∃ m, m = (Session.run (.ofFuel ⟨30, 5⟩) selfHolder (.new .fuzzer default {})).2 :=
    ⟨_, rfl⟩
  let s : Situation := { machine := m, held := fun _ => False, chains := (· = globalEnv) }
  let memory : Memory := ({} : Memory).track 2
  have hs : s.Rests := by
    have hrun := (Rests.new .fuzzer default {}).run ⟨30, 5⟩ selfHolder
    dsimp only [onMachine] at hrun
    rwa [← hm] at hrun
  have hmemory : memory.Follows m.tracked.toList := by
    have htracked : m.tracked.toList = [2] := by
      rw [hm]
      decide +kernel
    rw [htracked]
    exact .track .start 2
  have hcycle : s.Cycle [.cell 2] := by
    have hself : (m.heap.cells[2]?.elim [] Cell.values).any (·.strictEquals (.object 2)) = true := by
      rw [hm]
      decide +kernel
    obtain ⟨value, hmem, hvalue⟩ := List.any_eq_true.mp hself
    obtain ⟨cell, hcell⟩ : ∃ cell, m.heap.cells[2]? = some cell := by
      refine Option.ne_none_iff_exists'.mp fun hnone => ?_
      rw [hnone] at hmem
      exact absurd hmem List.not_mem_nil
    rw [hcell] at hmem
    have hobject : Node.of value = some (.cell 2) := by
      cases value with
      | object ref =>
        have href : ref = 2 := by simpa [Value.strictEquals] using hvalue
        rw [href]
        rfl
      | _ => cases hvalue
    exact .cons_cons (.content hcell hmem hobject) (.singleton _)
  have hlive : ∀ node, memory.LiveNode node := by
    rintro (ref | _)
    · exact Memory.isLive_iff.mpr List.not_mem_nil
    · exact True.intro
  obtain ⟨hcycles, -, htorn, hleft⟩ := nothing_outlasts_a_machine hs hmemory
  obtain ⟨node, hnode, hclears⟩ := hcycles _ hcycle fun node _ => hlive node
  rw [List.mem_singleton.mp hnode] at hclears
  refine ⟨s, memory, hm, hs, hmemory, hcycle, hclears, fun nodes hc => ?_, ?_⟩
  · obtain ⟨node, -, hdead⟩ := htorn nodes hc
    exact hdead (hlive node)
  · intro left houtlasts node hnode
    obtain ⟨_, _, hheld, -⟩ := hleft left houtlasts (fun node _ => hlive node) node hnode
    exact hheld

end Reprl.Situation
