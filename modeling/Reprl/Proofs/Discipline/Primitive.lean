import Reprl.Proofs.Discipline.Basic
import Reprl.Proofs.Scope

/-! The actions that rules are made of, under a discipline. What is read from the heap code may
hold, since it holds what it is read from. -/

namespace Reprl.Discipline

open Source

variable (D : Discipline) {ε α : Type} {base : D.Base} {w : D.World} {env : Env} {value : Value}
  {returns : D.World → α → Prop} {throws : D.World → ε → Prop}

theorem lasting_has : D.Lasting D.Has := fun _ _ _ hg hv => D.has_later hg hv

theorem lasting_any : D.Lasting (D.Any : D.World → α → Prop) := fun _ _ _ _ _ => trivial

variable {D}

theorem hasFlow_later {w' : D.World} (hg : D.Later w w') {flow : Flow} (hf : D.HasFlow w flow) :
    D.HasFlow w' flow := by
  cases flow with
  | returned value => exact D.has_later hg hf
  | normal | broken | continued => trivial

theorem hasAll_later {w' : D.World} (hg : D.Later w w') {values : List Value}
    (ha : D.HasAll w values) : D.HasAll w' values := fun value hmem => D.has_later hg (ha value hmem)

theorem hasProperty_later {w' : D.World} (hg : D.Later w w') {kind : ObjectClass}
    (hp : D.HasProperty w kind value) : D.HasProperty w' kind value :=
  ⟨D.has_later hg hp.1, hp.2⟩

variable (D)

theorem lasting_hasFlow : D.Lasting D.HasFlow := fun _ _ _ hg hf => hasFlow_later hg hf

theorem hasAll_nil (w : D.World) : D.HasAll w [] := fun _ hmem => absurd hmem List.not_mem_nil

theorem hasProperty_plain (hv : D.Has w value) : D.HasProperty w .plain value :=
  ⟨hv, fun _ hk => nomatch hk⟩

theorem hasProperty_of_endless (he : ¬D.ends) (kind : ObjectClass) (hv : D.Has w value) :
    D.HasProperty w kind value := ⟨hv, fun hends => absurd hends he⟩

theorem hasProperty_error (w : D.World) (name message : String) :
    (Object.error name message).All (D.HasProperty w .error) :=
  Object.All.error (fun _ => ⟨D.has_plain w rfl, fun _ _ => rfl⟩) name message

theorem plain (h : value.isPlain = true) :
    D.Rel base w (pure value : Action Machine ε Value) (pure value) D.Has throws :=
  D.pure (D.has_plain w h)

theorem settle {result : Except ε α} (h : D.Settled returns throws w result) :
    D.Rel base w (Action.settle result : Action Machine ε α) (Action.settle result) returns throws := by
  cases result with
  | ok x => exact D.pure h
  | error e => exact D.raise h

theorem raiseError (name message : String) :
    D.Runs base w (Run.raiseError name message) (Run.raiseError name message) returns :=
  D.bind (D.newObject (D.hasProperty_error w name message)) fun _ _ _ hv => D.raise hv

theorem patternName (pattern : Pattern) :
    D.Runs base w (Run.patternName pattern) (Run.patternName pattern) D.Any := by
  cases pattern with
  | name name => exact D.pure trivial
  | _ => exact D.raiseError _ _

theorem mapM_patternName (params : List Pattern) :
    D.Runs base w (params.mapM Run.patternName) (params.mapM Run.patternName) D.Any := by
  induction params generalizing w with
  | nil => exact D.pure trivial
  | cons param rest ih =>
    simp only [List.mapM_cons]
    exact D.bind (D.patternName param) fun _ _ _ _ => D.bind ih fun _ _ _ _ => D.pure trivial

theorem makeClosure (he : D.Chain w env) {f : Source.Function} (hp : D.Permits f.parts)
    (name : Option String) :
    D.Runs base w (Run.makeClosure name f env) (Run.makeClosure name f env) D.Has :=
  D.newClosure he (Setting.permits_body hp)

theorem hoist (he : D.Chain w env) (ho : D.Owns w env) {body : List Stmt}
    (hp : D.Permits (Stmt.partsIn body)) :
    D.Runs base w (Run.hoist env body) (Run.hoist env body) D.Any := by
  induction body generalizing w with
  | nil => exact D.pure trivial
  | cons stmt rest ih =>
    simp only [Stmt.partsIn, Setting.permits_append, Setting.permits_cons] at hp
    cases stmt with
    | function name f =>
      have hf : D.Permits f.parts := by simpa only [Stmt.inner] using hp.1.2
      refine D.bind (D.makeClosure he hf _) fun _ _ hg hv => ?_
      have he' := D.chain_later hg he
      have ho' := D.owns_later hg ho
      exact D.bind (D.declare name true he' ho' hv) fun _ _ hg' _ =>
        ih (D.chain_later hg' he') (D.owns_later hg' ho') hp.2
    | _ => exact ih he ho hp.2

theorem bindParams (he : D.Chain w env) (ho : D.Owns w env) (params : List String)
    {args : List Value} (ha : D.HasAll w args) :
    D.Runs base w (Run.bindParams env params args) (Run.bindParams env params args) D.Any := by
  induction params generalizing w args with
  | nil => exact D.pure trivial
  | cons param params ih =>
    cases args with
    | nil =>
      have hundefined : D.Has w .undefined := D.has_plain w rfl
      exact D.bind (D.declare param true he ho hundefined) fun _ _ hg _ =>
        ih (D.chain_later hg he) (D.owns_later hg ho) (hasAll_later hg ha)
    | cons arg args =>
      obtain ⟨harg, hargs⟩ := List.forall_mem_cons.mp ha
      exact D.bind (D.declare param true he ho harg) fun _ _ hg _ =>
        ih (D.chain_later hg he) (D.owns_later hg ho) (hasAll_later hg hargs)

theorem isPlain_stringProperty (text key : String) : (stringProperty text key).isPlain = true := by
  rw [stringProperty]
  split
  · rfl
  · split <;> rfl

/-- What an array gives is plain or stored in it. -/
theorem all_stored (a : ArrayObject) : a.All fun value => value.isPlain = true ∨ a.Stores value :=
  ⟨fun _ hmem => .inr (.inl hmem), fun e he => .inr (.inr ⟨e.1, he⟩)⟩

theorem readObject {m : Machine} (hm : D.Sees base w m) {ref : Ref} (h : D.Has w (.object ref))
    (key : String) :
    D.Runs base w (pure (((m.heap.object ref).get? key).getD .undefined))
      (pure (((m.heap.object ref).get? key).getD .undefined)) D.Has := by
  cases hfound : (m.heap.object ref).get? key with
  | none => exact D.plain rfl
  | some value => exact D.property hm h hfound fun _ _ _ hv => D.pure hv.1

theorem readArray {m : Machine} (hm : D.Sees base w m) {ref : Ref} (h : D.Has w (.array ref))
    (key : String) :
    D.Runs base w (pure (((m.heap.array ref).get? key).getD .undefined))
      (pure (((m.heap.array ref).get? key).getD .undefined)) D.Has := by
  cases hfound : (m.heap.array ref).get? key with
  | none => exact D.plain rfl
  | some value =>
    rcases (all_stored _).get? (fun _ => .inl rfl) hfound with hplain | hstored
    · exact D.plain hplain
    · exact D.element hm h hstored fun _ _ _ hv => D.pure hv

theorem getProperty (h : D.Has w value) (key : String) :
    D.Runs base w (Run.getProperty value key) (Run.getProperty value key) D.Has := by
  cases value with
  | undefined => exact D.raiseError _ _
  | null => exact D.raiseError _ _
  | object ref =>
    refine D.look (fun m n hheap _ => ?_) fun m hm => D.readObject hm h key
    simp only [hheap]
  | array ref =>
    refine D.look (fun m n hheap _ => ?_) fun m hm => D.readArray hm h key
    simp only [hheap]
  | string text => exact D.plain (isPlain_stringProperty text key)
  | symbol identity description =>
    cases description with
    | none => exact D.plain rfl
    | some description =>
      refine D.plain ?_
      split <;> rfl
  | bool value => exact D.plain rfl
  | number value => exact D.plain rfl
  | function identity f => exact D.plain rfl

theorem setProperty {target : Value} (ht : D.Has w target) (key : String) (hv : D.Has w value)
    (hf : D.ends → value.isFlat = true) :
    D.Runs base w (Run.setProperty target key value) (Run.setProperty target key value) D.Any := by
  cases target with
  | object ref => exact D.setObject key ht hv hf
  | array ref => exact D.setArray key ht hv
  | undefined => exact D.raiseError _ _
  | null => exact D.raiseError _ _
  | _ => exact D.pure trivial

theorem lookup (he : D.Chain w env) {name : String} (hn : D.names name) :
    D.Runs base w (Run.lookup env name) (Run.lookup env name) D.Has := by
  refine D.look (fun m n hheap _ => ?_) fun m hm => ?_
  · simp only [hheap]
  · split
    · next value hfound =>
      rw [Heap.lookup_eq_resolve, Option.map_eq_some_iff] at hfound
      obtain ⟨⟨scope, binding⟩, hr, rfl⟩ := hfound
      exact D.binding hm he (Heap.mem_of_resolve hr) hn (Heap.binding_of_resolve hr)
        fun _ _ _ hv => D.pure hv
    · exact D.raiseError _ _

mutual

theorem build (he : ¬D.ends) (b : Blueprint) (w : D.World) : D.Runs base w b.build b.build D.Has := by
  cases b with
  | undefined | null | bool | number | string =>
    simp only [Blueprint.build]
    exact D.plain rfl
  | symbol description =>
    simp only [Blueprint.build]
    exact D.newSymbol description
  | array elements =>
    simp only [Blueprint.build]
    refine D.bind (buildAll he elements w) fun _ values _ hvalues => D.newArray fun value hmem => ?_
    exact hvalues value (List.mem_toArray.mp hmem)
  | object properties =>
    simp only [Blueprint.build]
    exact D.bind (buildProperties he properties w) fun _ _ _ hp =>
      D.newObject (.setAll (.empty .plain) fun p hmem => D.hasProperty_of_endless he _ (hp p hmem))
  | error name message properties =>
    simp only [Blueprint.build]
    refine D.bind (buildProperties he properties w) fun w' _ _ hp => D.newObject ?_
    have any : ∀ kind value, D.Has w' value → D.HasProperty w' kind value :=
      fun kind _ hv => D.hasProperty_of_endless he kind hv
    exact .setAll (.error (fun _ => any _ _ (D.has_plain w' rfl)) name message)
      fun p hmem => any _ _ (hp p hmem)
  | function name reply =>
    simp only [Blueprint.build]
    exact D.newNative (D.host_iff.mpr he)

theorem buildAll (he : ¬D.ends) (elements : List Blueprint) (w : D.World) :
    D.Runs base w (Blueprint.buildAll elements) (Blueprint.buildAll elements) D.HasAll := by
  cases elements with
  | nil =>
    simp only [Blueprint.buildAll]
    exact D.pure (D.hasAll_nil w)
  | cons b rest =>
    simp only [Blueprint.buildAll]
    exact D.bind (build he b w) fun w' _ _ hv => D.bind (buildAll he rest w') fun _ _ hg hvalues =>
      D.pure (List.forall_mem_cons.mpr ⟨D.has_later hg hv, hvalues⟩)

theorem buildProperties (he : ¬D.ends) (properties : List (String × Blueprint)) (w : D.World) :
    D.Runs base w (Blueprint.buildProperties properties) (Blueprint.buildProperties properties)
      fun w named => ∀ p ∈ named, D.Has w p.2 := by
  cases properties with
  | nil =>
    simp only [Blueprint.buildProperties]
    exact D.pure fun _ hmem => absurd hmem List.not_mem_nil
  | cons property rest =>
    obtain ⟨key, b⟩ := property
    simp only [Blueprint.buildProperties]
    exact D.bind (build he b w) fun w' _ _ hv =>
      D.bind (buildProperties he rest w') fun _ _ hg hnamed =>
        D.pure (List.forall_mem_cons.mpr ⟨D.has_later hg hv, hnamed⟩)

end

theorem give (he : ¬D.ends) (reply : Reply) : D.Runs base w reply.give reply.give D.Has := by
  cases reply with
  | returns value => exact D.build he value w
  | throws value => exact D.bind (D.build he value w) fun _ _ _ hv => D.raise hv

end Reprl.Discipline
