import Reprl.Proofs.Heap
import Reprl.Machine.Property
import Reprl.Proofs.Outcome

/-! Names seen from the scopes of a forest. A name means its nearest binding on the way out to
the root, and an assignment changes that binding for all scopes that see it and for no others. A
script that assigns to a name without a binding gets one in the global scope. -/

namespace Reprl

namespace Heap

theorem binding_of_resolve {h : Heap} {env : Env} {name : String} {scope : Ref}
    {binding : Binding} (hr : h.resolve env name = some (scope, binding)) :
    (h.bindings scope).get? name = some binding := by
  induction env with
  | nil => cases hr
  | cons first outer ih =>
    simp only [Heap.resolve] at hr
    split at hr
    · next found hb =>
      cases hr
      exact hb
    · exact ih hr

theorem mem_of_resolve {h : Heap} {env : Env} {name : String} {scope : Ref} {binding : Binding}
    (hr : h.resolve env name = some (scope, binding)) : scope ∈ env := by
  induction env with
  | nil => cases hr
  | cons first outer ih =>
    simp only [Heap.resolve] at hr
    split at hr
    · cases hr
      exact List.mem_cons_self
    · exact List.mem_cons_of_mem _ (ih hr)

theorem unbound_of_resolve {h : Heap} {env : Env} {name : String}
    (hr : h.resolve env name = none) : ∀ scope ∈ env, (h.bindings scope).get? name = none := by
  induction env with
  | nil => exact fun _ hmem => absurd hmem List.not_mem_nil
  | cons first outer ih =>
    simp only [Heap.resolve] at hr
    split at hr
    · cases hr
    · next hb => exact List.forall_mem_cons.mpr ⟨hb, ih hr⟩

theorem lookup_eq_resolve (h : Heap) (env : Env) (name : String) :
    h.lookup env name = (h.resolve env name).map (·.2.value) := by
  induction env with
  | nil => rfl
  | cons scope outer ih =>
    rw [lookup, resolve]
    cases hb : (h.bindings scope).get? name with
    | none => exact ih
    | some binding => rfl

/-- From a scope, the nearest binding of a name is the one in `owner`. -/
inductive Sees (h : Heap) (name : String) : Env → Env → Binding → Prop where
  | here {scope : Ref} {outer : Env} {binding : Binding}
    (hb : (h.bindings scope).get? name = some binding) :
    Sees h name (scope :: outer) (scope :: outer) binding
  | outward {scope : Ref} {outer owner : Env} {binding : Binding}
    (hb : (h.bindings scope).get? name = none) (ho : Sees h name outer owner binding) :
    Sees h name (scope :: outer) owner binding

theorem Sees.suffix {h : Heap} {name : String} {env owner : Env} {binding : Binding}
    (hs : h.Sees name env owner binding) : owner <:+ env := by
  induction hs with
  | here => exact List.suffix_rfl
  | outward _ _ ih => exact ih.trans (List.suffix_cons _ _)

theorem Sees.resolve {h : Heap} {name : String} {env owner : Env} {binding : Binding}
    (hs : h.Sees name env owner binding) :
    ∃ scope outer, owner = scope :: outer ∧ h.resolve env name = some (scope, binding) := by
  induction hs with
  | @here scope outer binding hb => exact ⟨scope, outer, rfl, by rw [Heap.resolve, hb]⟩
  | outward hb _ ih =>
    obtain ⟨scope, outer, he, hr⟩ := ih
    exact ⟨scope, outer, he, by rw [Heap.resolve, hb, hr]⟩

theorem sees_of_resolve {h : Heap} {name : String} {env : Env} {scope : Ref} {binding : Binding}
    (hr : h.resolve env name = some (scope, binding)) :
    ∃ outer, h.Sees name env (scope :: outer) binding := by
  induction env with
  | nil => cases hr
  | cons first rest ih =>
    rw [Heap.resolve] at hr
    cases hb : (h.bindings first).get? name with
    | none =>
      rw [hb] at hr
      obtain ⟨outer, hs⟩ := ih hr
      exact ⟨outer, .outward hb hs⟩
    | some found =>
      rw [hb] at hr
      cases hr
      exact ⟨rest, .here hb⟩

/-- Binding a name anew where it is bound changes no chain: what resolved to this binding
resolves to the new one, and all else as before. -/
theorem resolve_declare {h : Heap} {target : Ref} {name : String} {binding : Binding}
    (hb : (h.bindings target).get? name = some binding) (value : Value) (env : Env)
    (other : String) :
    (h.declare target name value true).resolve env other =
      (h.resolve env other).map fun found =>
        if found.1 = target ∧ other = name then (found.1, ⟨value, true⟩) else found := by
  induction env with
  | nil => rfl
  | cons scope outer ih =>
    rw [resolve, resolve]
    by_cases hsame : scope = target ∧ other = name
    · obtain ⟨rfl, rfl⟩ := hsame
      rw [get?_declare_self hb, hb]
      simp
    · have hkept : ((h.declare target name value true).bindings scope).get? other =
          (h.bindings scope).get? other := by
        rcases h.get?_declare_cases target scope name other value true with hk | ⟨ht, hn, -⟩
        · exact hk
        · exact absurd ⟨ht.symm, hn.symm⟩ hsame
      rw [hkept]
      cases hfound : (h.bindings scope).get? other with
      | none => exact ih
      | some found => simp [hsame]

theorem lookup_declare {h : Heap} {target : Ref} {name : String} {binding : Binding}
    (hb : (h.bindings target).get? name = some binding) (value : Value) (env : Env)
    (other : String) :
    (h.declare target name value true).lookup env other =
      (h.resolve env other).map fun found =>
        if found.1 = target ∧ other = name then value else found.2.value := by
  rw [lookup_eq_resolve, resolve_declare hb, Option.map_map]
  congr 1
  funext found
  by_cases hsame : found.1 = target ∧ other = name
  · simp [hsame]
  · simp [hsame]

theorem assign_of_unbound {h : Heap} {env : Env} {name : String}
    (hr : h.resolve env name = none) (value : Value) :
    h.assign env name value = (.error .undeclared, h) := by
  rw [assign, hr]

theorem assign_of_constant {h : Heap} {env : Env} {name : String} {scope : Ref}
    {binding : Binding} (hr : h.resolve env name = some (scope, binding))
    (hm : ¬binding.mutable = true) (value : Value) :
    h.assign env name value = (.error .constant, h) := by
  simp only [assign, hr, if_neg hm]

theorem assign_of_mutable {h : Heap} {env : Env} {name : String} {scope : Ref}
    {binding : Binding} (hr : h.resolve env name = some (scope, binding))
    (hm : binding.mutable = true) (value : Value) :
    h.assign env name value = (.ok (), h.declare scope name value true) := by
  simp only [assign, hr, if_pos hm]

end Heap

/-- Scopes that were opened at the root or inside others of them, and what was done to them in
between. A scope is given by its chain, from itself out to its root. -/
inductive Forest : Heap → List Env → Prop where
  | empty : Forest {} []
  | root {h : Heap} {scopes : List Env} (f : Forest h scopes) :
    Forest (h.add (.scope {})) ([h.next] :: scopes)
  | child {h : Heap} {scopes : List Env} {scope : Env} (f : Forest h scopes)
    (hs : scope ∈ scopes) : Forest (h.add (.scope {})) ((h.next :: scope) :: scopes)
  | declare {h : Heap} {scopes : List Env} {scope : Ref} {outer : Env} (f : Forest h scopes)
    (hs : scope :: outer ∈ scopes) (name : String) (value : Value) (mutable : Bool) :
    Forest (h.declare scope name value mutable) scopes
  | assign {h : Heap} {scopes : List Env} {scope : Env} (f : Forest h scopes)
    (hs : scope ∈ scopes) (name : String) (value : Value) :
    Forest (h.assign scope name value).2 scopes
  | clear {h : Heap} {scopes : List Env} {scope : Ref} {outer : Env} (f : Forest h scopes)
    (hs : scope :: outer ∈ scopes) : Forest (h.clear scope) scopes

namespace Forest

open Heap (Sees)

variable {h : Heap} {scopes : List Env}

theorem next_assign (h : Heap) (env : Env) (name : String) (value : Value) :
    (h.assign env name value).2.next = h.next := by
  cases hr : h.resolve env name with
  | none => rw [Heap.assign_of_unbound hr]
  | some found =>
    by_cases hm : found.2.mutable = true
    · rw [Heap.assign_of_mutable hr hm, Heap.next_declare]
    · rw [Heap.assign_of_constant hr hm]

/-- The chains of a forest: each begins with a cell of its own, and what follows is empty or
again the chain of a scope. -/
structure Chained (next : Ref) (scopes : List Env) : Prop where
  parent : ∀ env ∈ scopes, ∃ scope outer, env = scope :: outer ∧ scope < next ∧
    (outer = [] ∨ outer ∈ scopes)
  own : ∀ {scope outer outer'}, scope :: outer ∈ scopes → scope :: outer' ∈ scopes →
    outer = outer'

theorem Chained.open {next : Ref} (hc : Chained next scopes) {outer : Env}
    (ho : outer = [] ∨ outer ∈ scopes) : Chained (next + 1) ((next :: outer) :: scopes) where
  parent := by
    intro env henv
    rcases List.mem_cons.mp henv with rfl | hold
    · exact ⟨next, outer, rfl, Nat.lt_succ_self next, ho.imp_right (List.mem_cons_of_mem _)⟩
    · obtain ⟨scope, rest, rfl, hlt, hrest⟩ := hc.parent env hold
      exact ⟨scope, rest, rfl, Nat.lt_succ_of_lt hlt, hrest.imp_right (List.mem_cons_of_mem _)⟩
  own := by
    -- An older chain begins with an older cell.
    have hfresh : ∀ rest, next :: rest ∉ scopes := by
      intro rest hmem
      obtain ⟨scope, outer, he, hlt, -⟩ := hc.parent _ hmem
      cases he
      exact Nat.lt_irrefl _ hlt
    intro scope first second hfirst hsecond
    rcases List.mem_cons.mp hfirst with he | hold <;> rcases List.mem_cons.mp hsecond with he' | hold'
    · cases he
      cases he'
      rfl
    · cases he
      exact absurd hold' (hfresh second)
    · cases he'
      exact absurd hold (hfresh first)
    · exact hc.own hold hold'

theorem chained (f : Forest h scopes) : Chained h.next scopes := by
  induction f with
  | empty => exact ⟨fun _ hmem => absurd hmem List.not_mem_nil, fun hmem => absurd hmem List.not_mem_nil⟩
  | root f ih =>
    rw [Heap.next_add]
    exact ih.open (.inl rfl)
  | child f hs ih =>
    rw [Heap.next_add]
    exact ih.open (.inr hs)
  | declare f hs name value mutable ih => rwa [Heap.next_declare]
  | assign f hs name value ih => rwa [next_assign]
  | clear f hs ih => rwa [Heap.clear, Heap.next_modifyScope]

theorem mem_of_suffix (f : Forest h scopes) {env : Env} (henv : env ∈ scopes) {scope : Ref}
    {outer : Env} (hs : scope :: outer <:+ env) : scope :: outer ∈ scopes := by
  induction env with
  | nil => simp at hs
  | cons first rest ih =>
    rcases List.suffix_cons_iff.mp hs with he | hrest
    · rwa [he]
    · obtain ⟨_, _, he, -, hparent⟩ := f.chained.parent _ henv
      cases he
      rcases hparent with rfl | hmem
      · simp at hrest
      · exact ih hmem hrest

/-- A scope of a forest is known by its first cell. -/
theorem sees_iff (f : Forest h scopes) {owner : Ref} {outer t : Env} (ho : owner :: outer ∈ scopes)
    (ht : t ∈ scopes) {name : String} {binding : Binding} :
    h.Sees name t (owner :: outer) binding ↔ h.resolve t name = some (owner, binding) := by
  constructor
  · intro hsees
    obtain ⟨_, _, he, hr⟩ := hsees.resolve
    cases he
    exact hr
  · intro hr
    obtain ⟨outer', hsees⟩ := Heap.sees_of_resolve hr
    have hmem := f.mem_of_suffix ht hsees.suffix
    rwa [f.chained.own ho hmem]

/-- Assigning fails where the name is bound nowhere or to a constant, and then every lookup is as
before. Otherwise the scopes that see the same binding, and they alone, see the new value. -/
theorem assign_reaches_one_binding (f : Forest h scopes) {s : Env} (hs : s ∈ scopes)
    (x : String) (v : Value) :
    ((h.assign s x v).1 = .error .undeclared ↔ h.lookup s x = none) ∧
    ((h.assign s x v).1 = .error .constant ↔
      ∃ owner binding, h.Sees x s owner binding ∧ binding.mutable = false) ∧
    ((h.assign s x v).1 ≠ .ok () →
      ∀ t ∈ scopes, ∀ y, (h.assign s x v).2.lookup t y = h.lookup t y) ∧
    ((h.assign s x v).1 = .ok () →
      ∃ owner ∈ scopes, (∃ binding, h.Sees x s owner binding) ∧
        ∀ t ∈ scopes, ∀ y,
          (y = x ∧ (∃ binding, h.Sees x t owner binding) →
            (h.assign s x v).2.lookup t y = some v) ∧
          (¬(y = x ∧ ∃ binding, h.Sees x t owner binding) →
            (h.assign s x v).2.lookup t y = h.lookup t y)) := by
  rcases hr : h.resolve s x with _ | ⟨scope, binding⟩
  · have hunseen : ∀ owner binding, ¬h.Sees x s owner binding := by
      intro owner binding hsees
      obtain ⟨_, _, -, hsome⟩ := hsees.resolve
      rw [hr] at hsome
      cases hsome
    rw [Heap.assign_of_unbound hr, Heap.lookup_eq_resolve, hr]
    simp [hunseen]
  · obtain ⟨outer, hsees⟩ := Heap.sees_of_resolve hr
    have howner := f.mem_of_suffix hs hsees.suffix
    have hsame : ∀ owner b, h.Sees x s owner b → b = binding := by
      intro owner b hb
      obtain ⟨_, _, -, hsome⟩ := hb.resolve
      rw [hr] at hsome
      cases hsome
      rfl
    have hbound : h.lookup s x ≠ none := by
      rw [Heap.lookup_eq_resolve, hr]
      exact Option.some_ne_none _
    by_cases hm : binding.mutable = true
    · have hvariable : ¬∃ owner b, h.Sees x s owner b ∧ b.mutable = false := by
        rintro ⟨owner, b, hb, hf⟩
        rw [hsame owner b hb, hm] at hf
        cases hf
      rw [Heap.assign_of_mutable hr hm]
      refine ⟨iff_of_false nofun hbound, iff_of_false nofun hvariable, fun hne => absurd rfl hne,
        fun _ => ⟨scope :: outer, howner, ⟨binding, hsees⟩, fun t ht y => ?_⟩⟩
      have hlookup := Heap.lookup_declare (Heap.binding_of_resolve hr) v t y
      constructor
      · rintro ⟨rfl, b, hb⟩
        rw [hlookup, (f.sees_iff howner ht).mp hb]
        simp
      · intro hother
        rw [hlookup, Heap.lookup_eq_resolve]
        rcases ht' : h.resolve t y with _ | ⟨scope', b⟩
        · rfl
        · have hne : ¬(scope' = scope ∧ y = x) := by
            rintro ⟨rfl, rfl⟩
            exact hother ⟨rfl, b, (f.sees_iff howner ht).mpr ht'⟩
          simp [hne]
    · rw [Heap.assign_of_constant hr hm]
      have hconstant : ∃ owner b, h.Sees x s owner b ∧ b.mutable = false :=
        ⟨scope :: outer, binding, hsees, Bool.eq_false_iff.mpr hm⟩
      exact ⟨iff_of_false nofun hbound, iff_of_true rfl hconstant, fun _ _ _ _ => rfl, nofun⟩

/-- Two scopes inside a root that binds a name. The second binds it again and has a scope of
its own. -/
def shadowed : Heap :=
  ((((({} : Heap).add (.scope {})).declare 0 "x" .null true).add (.scope {})).add
    (.scope {})).declare 2 "x" (.bool true) true |>.add (.scope {})

theorem forest_shadowed : Forest shadowed [[3, 2, 0], [2, 0], [1, 0], [0]] := by
  have hroot : Forest _ [[0]] := (Forest.root .empty).declare List.mem_cons_self "x" .null true
  have hfirst : Forest _ [[1, 0], [0]] := hroot.child List.mem_cons_self
  have hsecond : Forest _ [[2, 0], [1, 0], [0]] := hfirst.child (List.mem_cons_of_mem _ List.mem_cons_self)
  exact (hsecond.declare List.mem_cons_self "x" (.bool true) true).child List.mem_cons_self

theorem assign_beside_shadowed :
    Forest shadowed [[3, 2, 0], [2, 0], [1, 0], [0]] ∧
    (shadowed.assign [1, 0] "x" .undefined).1 = .ok () ∧
    (shadowed.assign [1, 0] "x" .undefined).2.lookup [0] "x" = some .undefined ∧
    (shadowed.assign [1, 0] "x" .undefined).2.lookup [3, 2, 0] "x" = some (.bool true) := by
  have hok : (shadowed.assign [1, 0] "x" .undefined).1 = .ok () := rfl
  obtain ⟨-, -, -, hassigned⟩ :=
    assign_reaches_one_binding forest_shadowed (s := [1, 0]) (by decide) "x" .undefined
  obtain ⟨owner, howner, ⟨binding, hsees⟩, hlookup⟩ := hassigned hok
  have hroot : owner = [0] := by
    obtain ⟨scope, outer, rfl, hr⟩ := hsees.resolve
    have hzero : scope = 0 := congrArg Prod.fst (Option.some.inj hr).symm
    subst hzero
    rw [forest_shadowed.chained.own howner (by decide : [0] ∈ _)]
  subst hroot
  refine ⟨forest_shadowed, hok, ?_, ?_⟩
  · exact (hlookup [0] (by decide) "x").1 ⟨rfl, ⟨.null, true⟩, .here rfl⟩
  · refine (hlookup [3, 2, 0] (by decide) "x").2 ?_
    rintro ⟨-, b, hb⟩
    obtain ⟨scope, outer, he, hr⟩ := hb.resolve
    cases he
    exact nomatch congrArg Prod.fst (Option.some.inj hr)

end Forest

namespace Run

variable {m : Machine} {env : Env} {name : String}

theorem assign_of_unbound (hr : m.heap.resolve env name = none) (value : Value) :
    Run.assign env name value m =
      (.ok (), { m with heap := m.heap.declare globalScope name value true }) := by
  have ha := Heap.assign_of_unbound hr value
  have hread : Run.onHeap (·.assign env name value) m = (.ok (.error .undeclared), m) := by
    simp only [Run.onHeap, ha]
  exact (Action.bind_of_ok hread _).trans rfl

variable {scope : Ref} {binding : Binding}

theorem assign_of_mutable (hr : m.heap.resolve env name = some (scope, binding))
    (hm : binding.mutable = true) (value : Value) :
    Run.assign env name value m =
      (.ok (), { m with heap := m.heap.declare scope name value true }) := by
  have ha := Heap.assign_of_mutable hr hm value
  have hread : Run.onHeap (·.assign env name value) m =
      (.ok (.ok ()), { m with heap := m.heap.declare scope name value true }) := by
    simp only [Run.onHeap, ha]
  exact (Action.bind_of_ok hread _).trans rfl

theorem assign_of_constant (hr : m.heap.resolve env name = some (scope, binding))
    (hm : ¬binding.mutable = true) (value : Value) :
    Run.assign env name value m =
      Run.raiseError "TypeError" "Assignment to constant variable." m := by
  have ha := Heap.assign_of_constant hr hm value
  have hread : Run.onHeap (·.assign env name value) m = (.ok (.error .constant), m) := by
    simp only [Run.onHeap, ha]
  exact (Action.bind_of_ok hread _).trans rfl

end Run

end Reprl
