import Reprl.Proofs.Discipline.Primitive

/-! Conversions and operators under a discipline. The text of a value takes one step more than a
call of a function, and a call of what is no function one more again, since its error names the
value. So what two evaluators have left where an action starts is a tier from one to three. -/

namespace Reprl.Discipline

open Source

/-- Evaluators that keep a discipline from some base on. If all code ends, the lower tiers leave out
the calls and texts for which there are too few steps left. -/
structure Sound (D : Discipline) (tier : Nat) (base : D.Base) (E F : Evaluator) : Prop where
  eval {w : D.World} {env : Env} {e : Expr} : D.Chain w env → D.Permits e.parts →
    D.Runs base w (E.eval e env) (F.eval e env) D.Has
  exec {w : D.World} {env : Env} {stmt : Stmt} : (stmt.declares = true → D.Owns w env) →
    D.Chain w env → D.Permits stmt.parts →
    D.Runs base w (E.exec stmt env) (F.exec stmt env) D.HasFlow
  call {w : D.World} {callee : Value} {args : List Value} :
    (D.ends → callee.isFunction = true ∨ 3 ≤ tier) → D.Has w callee → D.HasAll w args →
    D.Runs base w (E.call callee args) (F.call callee args) D.Has
  display {w : D.World} {value : Value} : (D.ends → value.isFlat = true ∨ 2 ≤ tier) →
    D.Has w value → D.Runs base w (E.display value) (F.display value) D.Any
  laps : D.Covers E.laps F.laps

section Stored

variable (D : Discipline) {ε α : Type} {base : D.Base} {w : D.World} {m : Machine} {ref : Ref}
  {a b : Action Machine ε α} {returns : D.World → α → Prop} {throws : D.World → ε → Prop}

/-- Whoever holds an array can get at all that is in it. -/
theorem stored (hm : D.Sees base w m) (hr : D.Has w (.array ref)) {values : List Value}
    (hs : ∀ value ∈ values, value.isPlain = true ∨ (m.heap.array ref).Stores value)
    (h : ∀ w', D.Later w w' → D.HasAll w' values → D.Rel base w' a b returns throws) :
    D.Rel base w a b returns throws := by
  induction values generalizing w with
  | nil => exact h w (D.later_refl w) (D.hasAll_nil w)
  | cons value rest ih =>
    obtain ⟨hfirst, hrest⟩ := List.forall_mem_cons.mp hs
    have holding : ∀ w', D.Later w w' → D.Sees base w' m → D.Has w' value →
        D.Rel base w' a b returns throws := by
      intro w' hg hm' hv
      refine ih hm' (D.has_later hg hr) hrest fun w'' hg' hall => h w'' (D.later_trans hg hg') ?_
      exact List.forall_mem_cons.mpr ⟨D.has_later hg' hv, hall⟩
    rcases hfirst with hplain | hstored
    · exact holding w (D.later_refl w) hm (D.has_plain w hplain)
    · exact D.element hm hr hstored holding

theorem elements (hm : D.Sees base w m) (hr : D.Has w (.array ref))
    (h : ∀ w', D.Later w w' → D.HasAll w' (m.heap.array ref).values.toList →
      D.Rel base w' a b returns throws) : D.Rel base w a b returns throws :=
  D.stored hm hr (fun value hv =>
    ArrayObject.All.values (.inl rfl) (all_stored _) value (Array.mem_toList_iff.mp hv)) h

/-- So with an object and the properties under given keys. -/
theorem properties (hm : D.Sees base w m) (hr : D.Has w (.object ref)) (keys : List String)
    (h : ∀ w', D.Later w w' → (∀ key ∈ keys, ∀ value, (m.heap.object ref).get? key = some value →
      D.HasProperty w' (m.heap.object ref).kind value) → D.Rel base w' a b returns throws) :
    D.Rel base w a b returns throws := by
  induction keys generalizing w with
  | nil => exact h w (D.later_refl w) fun _ hmem => absurd hmem List.not_mem_nil
  | cons key rest ih =>
    have holding : ∀ w', D.Later w w' → D.Sees base w' m → (∀ value,
        (m.heap.object ref).get? key = some value → D.HasProperty w' (m.heap.object ref).kind value) →
        D.Rel base w' a b returns throws := by
      intro w' hg hm' hkey
      refine ih hm' (D.has_later hg hr) fun w'' hg' hall => h w'' (D.later_trans hg hg') ?_
      exact List.forall_mem_cons.mpr ⟨fun value hv => hasProperty_later hg' (hkey value hv), hall⟩
    cases hfound : (m.heap.object ref).get? key with
    | none => exact holding w (D.later_refl w) hm fun value hv => by rw [hfound] at hv; cases hv
    | some value =>
      refine D.property hm hr hfound fun w' hg hm' hp => holding w' hg hm' fun other hv => ?_
      rw [hfound] at hv
      cases hv
      exact hp

end Stored

namespace Sound

variable {D : Discipline} {base : D.Base} {w : D.World} {E F : Evaluator} {a b value : Value}

theorem shown (h : D.Sound 3 base E F) (hv : D.Has w value) :
    D.Runs base w (E.display value) (F.display value) D.Any :=
  h.display (fun _ => .inr (Nat.le_succ 2)) hv

theorem called (h : D.Sound 3 base E F) {callee : Value} (hc : D.Has w callee) {args : List Value}
    (ha : D.HasAll w args) : D.Runs base w (E.call callee args) (F.call callee args) D.Has :=
  h.call (fun _ => .inr (Nat.le_refl 3)) hc ha

/-- Elements of arrays are shown unless they are nullish. -/
theorem showElement (h : D.Sound 3 base E F) (hv : D.Has w value) {next next' : String → Run String}
    (hn : ∀ w' shown, D.Later w w' → D.Runs base w' (next shown) (next' shown) D.Any) :
    D.Runs base w (if value.isNullish then pure "" >>= next else E.display value >>= next)
      (if value.isNullish then pure "" >>= next' else F.display value >>= next') D.Any := by
  have hempty : D.Runs base w (pure "") (pure "") D.Any := D.pure trivial
  split
  · exact D.bind hempty fun w' shown hg _ => hn w' shown hg
  · exact D.bind (h.shown hv) fun w' shown hg _ => hn w' shown hg

theorem joinRest (h : D.Sound 3 base E F) (text : String) {values : List Value}
    (ha : D.HasAll w values) :
    D.Runs base w (E.joinRest text values) (F.joinRest text values) D.Any := by
  induction values generalizing w text with
  | nil => exact D.pure trivial
  | cons value rest ih =>
    obtain ⟨hv, hrest⟩ := List.forall_mem_cons.mp ha
    exact h.showElement hv fun _ _ hg => ih _ (hasAll_later hg hrest)

theorem joinItems (h : D.Sound 3 base E F) {values : List Value} (ha : D.HasAll w values) :
    D.Runs base w (E.joinItems values) (F.joinItems values) D.Any := by
  cases values with
  | nil => exact D.pure trivial
  | cons value rest =>
    obtain ⟨hv, hrest⟩ := List.forall_mem_cons.mp ha
    exact h.showElement hv fun _ shown hg => h.joinRest shown (hasAll_later hg hrest)

/-- The elements of an array are converted deeper. -/
theorem displayArray (inside : ∀ inner, D.Deeper base inner → D.Sound 3 inner E F) {ref : Ref}
    (hr : D.Has w (.array ref)) :
    D.Runs base w (E.displayArray ref) (F.displayArray ref) D.Any := by
  refine D.look (fun m n hheap hjoining => ?_) fun m hm => D.elements hm hr fun w' hg hall => ?_
  · simp only [hheap, hjoining]
  · split
    · exact D.pure trivial
    · dsimp only
      split
      · exact D.raiseError _ _
      · exact D.joining ref D.lasting_any fun inner w'' hdeeper hg' =>
          (inside inner hdeeper).joinItems (hasAll_later hg' hall)

theorem displayProperty (h : D.Sound 1 base E F) {o : Object} {key : String}
    (ho : ∀ value, o.get? key = some value → D.Has w value ∧ (D.ends → value.isFlat = true))
    (default : String) :
    D.Runs base w (E.displayProperty o key default) (F.displayProperty o key default) D.Any := by
  simp only [Evaluator.displayProperty]
  split
  · exact D.pure trivial
  · next value hv =>
    obtain ⟨hhas, hflat⟩ := ho value hv
    exact h.display (fun he => .inl (hflat he)) hhas

theorem displayObject (h : D.Sound 1 base E F) {ref : Ref} (hr : D.Has w (.object ref)) :
    D.Runs base w (E.displayObject ref) (F.displayObject ref) D.Any := by
  refine D.look (fun m n hheap _ => ?_) fun m hm =>
    D.properties hm hr ["toString", "name", "message"] fun w' hg hkeys => ?_
  · simp only [hheap]
  obtain ⟨hmethod, hname, hmessage⟩ : _ ∧ _ ∧ _ := by
    simpa only [List.forall_mem_cons, List.not_mem_nil, false_implies, implies_true, and_true] using hkeys
  dsimp only
  split
  · next identity f hf =>
    have hcall := h.call (fun _ => .inl rfl) (hmethod _ hf).1 (D.hasAll_nil w')
    refine D.bind hcall fun w'' value _ hv => ?_
    -- A method that gives an object is refused, so that no text of objects is needed here.
    cases value with
    | object ref => exact D.raiseError _ _
    | array ref => exact D.raiseError _ _
    | _ => exact h.display (fun _ => .inl rfl) hv
  · split
    · exact D.pure trivial
    · next hkind =>
      have hflat : ∀ {w'' key}, D.Later w' w'' → (∀ value,
          (m.heap.object ref).get? key = some value → D.HasProperty w' (m.heap.object ref).kind value) →
          ∀ value, (m.heap.object ref).get? key = some value →
            D.Has w'' value ∧ (D.ends → value.isFlat = true) :=
        fun hg hp value hv => ⟨D.has_later hg (hp value hv).1, fun he => (hp value hv).2 he hkind⟩
      refine D.bind (h.displayProperty (hflat (D.later_refl w') hname) "Error") fun _ _ hg' _ => ?_
      exact D.bind (h.displayProperty (hflat hg' hmessage) "") fun _ _ _ _ => D.pure trivial

theorem displayRule (inside : ∀ inner, D.Deeper base inner → D.Sound 3 inner E F)
    (h : value.isFlat = false → D.Sound 1 base E F) (hv : D.Has w value) :
    D.Runs base w (E.displayRule value) (F.displayRule value) D.Any := by
  cases value with
  | array ref => exact displayArray inside hv
  | object ref => exact (h rfl).displayObject hv
  | _ => exact D.pure trivial

theorem stringOf (h : D.Sound 3 base E F) (hv : D.Has w value) :
    D.Runs base w (E.stringOf value) (F.stringOf value) D.Any := by
  cases value with
  | symbol identity description => exact D.raiseError _ _
  | _ => exact h.shown hv

theorem numberOf (h : D.Sound 3 base E F) (hv : D.Has w value) :
    D.Runs base w (E.numberOf value) (F.numberOf value) D.Any := by
  cases value with
  | symbol identity description => exact D.raiseError _ _
  | object ref => exact D.bind (h.shown hv) fun _ _ _ _ => D.pure trivial
  | array ref => exact D.bind (h.shown hv) fun _ _ _ _ => D.pure trivial
  | function identity f => exact D.bind (h.shown hv) fun _ _ _ _ => D.pure trivial
  | _ => exact D.pure trivial

/-- Both operands of an operator are converted, the right one after the left one. -/
theorem operands {α : Type} {convert convert' : Value → Run α} {next next' : α → α → Run Value}
    (hc : ∀ {w value}, D.Has w value → D.Runs base w (convert value) (convert' value) D.Any)
    (hn : ∀ w x y, D.Runs base w (next x y) (next' x y) D.Has) (ha : D.Has w a) (hb : D.Has w b) :
    D.Runs base w (do next (← convert a) (← convert b)) (do next' (← convert' a) (← convert' b)) D.Has :=
  D.bind (hc ha) fun _ _ hg _ => D.bind (hc (D.has_later hg hb)) fun _ _ _ _ => hn _ _ _

theorem arithmetic (h : D.Sound 3 base E F) (ha : D.Has w a) (hb : D.Has w b)
    (f : Float → Float → Float) :
    D.Runs base w (E.arithmetic a b f) (F.arithmetic a b f) D.Has :=
  operands h.numberOf (fun _ _ _ => D.plain rfl) ha hb

theorem add (h : D.Sound 3 base E F) (ha : D.Has w a) (hb : D.Has w b) :
    D.Runs base w (E.add a b) (F.add a b) D.Has := by
  simp only [Evaluator.add]
  split
  · exact operands h.stringOf (fun _ _ _ => D.plain rfl) ha hb
  · exact h.arithmetic ha hb _

theorem comparison (h : D.Sound 3 base E F) (ha : D.Has w a) (hb : D.Has w b)
    (strings : String → String → Bool) (numbers : Float → Float → Bool) :
    D.Runs base w (E.comparison a b strings numbers) (F.comparison a b strings numbers) D.Has := by
  simp only [Evaluator.comparison]
  split
  · exact D.plain rfl
  · exact operands h.numberOf (fun _ _ _ => D.plain rfl) ha hb

theorem onWords (h : D.Sound 3 base E F) (ha : D.Has w a) (hb : D.Has w b)
    (f : Int32 → Int32 → Float) :
    D.Runs base w (E.onWords a b f) (F.onWords a b f) D.Has :=
  operands h.numberOf (fun _ _ _ => D.plain rfl) ha hb

theorem membership (h : D.Sound 3 base E F) (ha : D.Has w a) :
    D.Runs base w (E.membership a b) (F.membership a b) D.Has := by
  cases b with
  | object ref =>
    refine D.bind (h.stringOf ha) fun _ name _ _ =>
      D.look (fun m n hheap _ => ?_) fun _ _ => D.plain rfl
    simp only [hheap]
  | _ => exact D.raiseError _ _

theorem binary (h : D.Sound 3 base E F) (op : BinaryOp) (ha : D.Has w a) (hb : D.Has w b) :
    D.Runs base w (E.binary op a b) (F.binary op a b) D.Has := by
  simp only [Evaluator.binary]
  cases op with
  | add => exact h.add ha hb
  | subtract | multiply | divide | remainder | power => exact h.arithmetic ha hb _
  | strictEqual | strictNotEqual | equal | notEqual => exact D.plain rfl
  | less | lessEqual | greater | greaterEqual => exact h.comparison ha hb _ _
  | bitAnd | bitOr | bitXor | shiftLeft | shiftRight | shiftRightUnsigned => exact h.onWords ha hb _
  | membership => exact h.membership ha
  | instanceOf => exact D.raiseError _ _

theorem unary (h : D.Sound 3 base E F) (op : UnaryOp) (ha : D.Has w a) :
    D.Runs base w (E.unary op a) (F.unary op a) D.Has := by
  cases op with
  | not | void | typeof => exact D.plain rfl
  | minus | plus | complement => exact D.bind (h.numberOf ha) fun _ _ _ _ => D.plain rfl
  | delete => exact D.raiseError _ _

end Sound

end Reprl.Discipline
