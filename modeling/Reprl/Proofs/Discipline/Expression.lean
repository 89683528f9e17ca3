import Reprl.Proofs.Discipline.Conversion

/-! Expressions under a discipline. -/

namespace Reprl

open Source

theorem Source.Expr.cons_inner (e : Expr) : Node.expr e :: e.inner = e.parts := rfl

theorem Source.Stmt.cons_inner (s : Stmt) : Node.stmt s :: s.inner = s.parts := rfl

namespace Discipline.Sound

open Setting

variable {D : Discipline} {base : D.Base} {w : D.World} {E F : Evaluator} {env : Env} {value : Value}

theorem elementValue (h : D.Sound 3 base E F) (he : D.Chain w env) {element : Element}
    (hp : D.Permits element.inner) :
    D.Runs base w (E.elementValue env element) (F.elementValue env element) D.Has := by
  cases element with
  | elision => exact D.plain rfl
  | item value => exact h.eval he hp
  | spread value => exact h.eval he hp

theorem evalElements (h : D.Sound 3 base E F) (he : D.Chain w env) {done : Array Value}
    (hd : ∀ value ∈ done, D.Has w value) {elements : List Element}
    (hp : D.Permits (Element.partsIn elements)) :
    D.Runs base w (E.evalElements env done elements) (F.evalElements env done elements)
      fun w values => ∀ value ∈ values, D.Has w value := by
  induction elements generalizing w done with
  | nil => exact D.pure hd
  | cons element rest ih =>
    simp only [Element.partsIn, permits_append, permits_cons] at hp
    refine D.bind (h.elementValue he hp.1.2) fun _ value hg hv =>
      ih (D.chain_later hg he) (fun v hmem => ?_) hp.2
    rcases Array.mem_push.mp hmem with hold | rfl
    · exact D.has_later hg (hd v hold)
    · exact hv

theorem evalAll (h : D.Sound 3 base E F) (he : D.Chain w env) {elements : List Element}
    (hp : D.Permits (Element.partsIn elements)) :
    D.Runs base w (E.evalElements env #[] elements) (F.evalElements env #[] elements)
      fun w values => ∀ value ∈ values, D.Has w value :=
  h.evalElements he (fun _ hmem => absurd hmem (Array.not_mem_empty _)) hp

theorem evalArgs (h : D.Sound 3 base E F) (he : D.Chain w env) {args : List Element}
    (hp : D.Permits (Element.partsIn args)) :
    D.Runs base w (E.evalArgs env args) (F.evalArgs env args) D.HasAll :=
  D.bind (h.evalAll he hp) fun _ _ _ hvalues =>
    D.pure fun value hmem => hvalues value (Array.mem_toList_iff.mp hmem)

theorem evalSequence (h : D.Sound 3 base E F) (he : D.Chain w env) {last : Value} (hl : D.Has w last)
    {items : List Expr} (hp : D.Permits (Expr.partsIn items)) :
    D.Runs base w (E.evalSequence env last items) (F.evalSequence env last items) D.Has := by
  induction items generalizing w last with
  | nil => exact D.pure hl
  | cons item rest ih =>
    simp only [Expr.partsIn, Expr.cons_inner, permits_append] at hp
    exact D.bind (h.eval he hp.1) fun _ _ hg hv => ih (D.chain_later hg he) hv hp.2

theorem evalHoles (h : D.Sound 3 base E F) (he : D.Chain w env) (text : String) {holes : List Hole}
    (hp : D.Permits (Hole.partsIn holes)) :
    D.Runs base w (E.evalHoles env text holes) (F.evalHoles env text holes) D.Has := by
  induction holes generalizing w text with
  | nil => exact D.plain rfl
  | cons hole rest ih =>
    obtain ⟨value, after⟩ := hole
    simp only [Hole.partsIn, Expr.cons_inner, permits_append] at hp
    exact D.bind (h.eval he hp.1) fun _ _ hg hv => D.bind (h.stringOf hv) fun _ _ hg' _ =>
      ih (D.chain_later hg' (D.chain_later hg he)) _ hp.2

theorem propertyName (h : D.Sound 3 base E F) (he : D.Chain w env) {key : Key}
    (hp : D.Permits key.inner) :
    D.Runs base w (E.propertyName env key) (F.propertyName env key) D.Any := by
  cases key with
  | computed value => exact D.bind (h.eval he hp) fun _ _ _ hv => h.stringOf hv
  | bigInteger | classPrivate => exact D.raiseError _ _
  | _ => exact D.pure trivial

theorem memberName (h : D.Sound 3 base E F) (he : D.Chain w env) {key : Key}
    (hp : D.Permits key.inner) :
    D.Runs base w (E.memberName env key) (F.memberName env key) D.Any := by
  cases key with
  | name text => exact D.pure trivial
  | computed value => exact D.bind (h.eval he hp) fun _ _ _ hv => h.stringOf hv
  | _ => exact D.raiseError _ _

theorem evalProperty (h : D.Sound 3 base E F) (he : D.Chain w env) {property : Property}
    (hp : D.Permits property.parts) :
    D.Runs base w (E.evalProperty env property) (F.evalProperty env property)
      fun w named => D.Has w named.2 := by
  obtain ⟨hself, hinner⟩ := permits_cons.mp hp
  cases property with
  | keyed key value =>
    simp only [Property.inner, Expr.cons_inner, permits_append, permits_cons] at hinner
    exact D.bind (h.propertyName he hinner.1.2) fun _ _ hg _ =>
      D.bind (h.eval (D.chain_later hg he) hinner.2) fun _ _ _ hv => D.pure hv
  | shorthand name =>
    exact D.bind (D.lookup he (D.name_of_shorthand hself)) fun _ _ _ hv => D.pure hv
  | method key f =>
    simp only [Property.inner, permits_append, permits_cons] at hinner
    exact D.bind (h.propertyName he hinner.1.2) fun _ name hg _ =>
      D.bind (D.makeClosure (D.chain_later hg he) hinner.2 (some name)) fun _ _ _ hv => D.pure hv
  | _ => exact D.raiseError _ _

/-- Literals make plain objects, which may hold all values. -/
theorem evalObject (h : D.Sound 3 base E F) (he : D.Chain w env) {o : Object} (hk : o.kind = .plain)
    (ho : o.All (D.HasProperty w o.kind)) {properties : List Property}
    (hp : D.Permits (Property.partsIn properties)) :
    D.Runs base w (E.evalObject env o properties) (F.evalObject env o properties) D.Has := by
  induction properties generalizing w o with
  | nil => exact D.newObject ho
  | cons property rest ih =>
    rw [Property.partsIn, permits_append] at hp
    refine D.bind (h.evalProperty he hp.1) fun _ named hg hv => ?_
    obtain ⟨name, value⟩ := named
    have hold : o.All (D.HasProperty _ o.kind) := fun e hmem => hasProperty_later hg (ho e hmem)
    exact ih (D.chain_later hg he) (o := o.set name value) hk
      (hold.set name (hk ▸ D.hasProperty_plain hv)) hp.2

/-- What is stored in a member must be flat if all code ends. -/
theorem storeIn (h : D.Sound 3 base E F) (he : D.Chain w env) {place : Expr}
    (hp : D.Permits place.parts) (hv : D.Has w value)
    (hf : ∀ object key, place = .member object key → D.ends → value.isFlat = true) :
    D.Runs base w (E.storeIn env place value) (F.storeIn env place value) D.Any := by
  cases place with
  | identifier name => exact D.assign name he hv
  | member object key =>
    have hinner : D.Permits (Expr.member object key).inner := (permits_cons.mp hp).2
    simp only [Expr.inner, Expr.cons_inner, permits_append, permits_cons] at hinner
    refine D.bind (h.eval he hinner.1.2) fun _ target hg ht =>
      D.bind (h.memberName (D.chain_later hg he) hinner.2) fun _ name hg' _ => ?_
    exact D.setProperty (D.has_later hg' ht) name (D.has_later hg' (D.has_later hg hv))
      (hf object key rfl)
  | _ => exact D.raiseError _ _

/-- A value that is to be stored, or one that is kept, is a value that code may hold. -/
theorem assignedValue (h : D.Sound 3 base E F) (he : D.Chain w env) (op : AssignOp)
    {place value : Expr} (hp : D.Permits place.parts) (hv : D.Permits value.parts) :
    D.Runs base w (E.assignedValue env op place value) (F.assignedValue env op place value)
      (D.Settled D.Has D.Has) := by
  cases op with
  | plain => exact D.bind (h.eval he hv) fun _ _ _ hvalue => D.pure hvalue
  | logical op =>
    refine D.bind (h.eval he hp) fun _ old hg hold => ?_
    split
    · exact D.pure hold
    · exact D.bind (h.eval (D.chain_later hg he) hv) fun _ _ _ hvalue => D.pure hvalue
  | compound op =>
    exact D.bind (h.eval he hp) fun _ old hg hold =>
      D.bind (h.eval (D.chain_later hg he) hv) fun _ operand hg' hoperand =>
        D.bind (h.binary op (D.has_later hg' hold) hoperand) fun _ _ _ hvalue => D.pure hvalue

theorem assignTo (h : D.Sound 3 base E F) (he : D.Chain w env) (op : AssignOp) {place value : Expr}
    (hp : D.Permits place.parts) (hv : D.Permits value.parts)
    (hm : ∀ object key, place = .member object key → ¬D.ends) :
    D.Runs base w (E.assignTo env op place value) (F.assignTo env op place value) D.Has := by
  refine D.bind (h.assignedValue he op hp hv) fun _ result hg hr => ?_
  cases result with
  | error kept => exact D.pure hr
  | ok value =>
    have hstored := h.storeIn (D.chain_later hg he) hp hr
      fun object key heq hends => absurd hends (hm object key heq)
    exact D.bind hstored fun _ _ hg' _ => D.pure (D.has_later hg' hr)

theorem permits_assign {op : AssignOp} {target : Target} {value : Expr}
    (hp : D.Permits (Expr.assign op target value).inner) :
    D.Permits target.parts ∧ D.Permits value.parts := by
  cases op with
  | compound op =>
    simp only [Expr.inner, Expr.cons_inner, permits_append, permits_cons] at hp
    exact ⟨hp.1.2, hp.2⟩
  | _ =>
    simp only [Expr.inner, Expr.cons_inner, permits_append] at hp
    exact hp

theorem evalAssign (h : D.Sound 3 base E F) (he : D.Chain w env) (op : AssignOp) {target : Target}
    {value : Expr} (hp : D.Permits (Expr.assign op target value).parts) :
    D.Runs base w (E.evalAssign env op target value) (F.evalAssign env op target value) D.Has := by
  obtain ⟨hself, hinner⟩ := permits_cons.mp hp
  obtain ⟨ht, hv⟩ := permits_assign hinner
  have hm : ∀ object key, target = .place (.member object key) → ¬D.ends := by
    rintro object key rfl hends
    exact Bool.noConfusion (D.storeFree hends hself)
  simp only [Evaluator.evalAssign]
  split
  · exact h.assignTo he op ht hv fun _ _ heq => nomatch heq
  · next object key => exact h.assignTo he op ht hv fun _ _ _ => hm object key rfl
  · exact D.raiseError _ _

theorem permits_bare {place : Expr} (hp : D.Permits place.parts) :
    D.Permits (Evaluator.bare place).parts := by
  induction place using Evaluator.bare.induct with
  | case1 inner ih =>
    have hinner : D.Permits (Expr.paren inner).inner := (permits_cons.mp hp).2
    rw [Expr.inner] at hinner
    exact ih hinner
  | case2 place hplace =>
    rw [Evaluator.bare.eq_2 place hplace]
    exact hp

theorem evalUpdate (h : D.Sound 3 base E F) (he : D.Chain w env) (op : UpdateOp) (before : Bool)
    {place : Expr} (hp : D.Permits place.parts) :
    D.Runs base w (E.evalUpdate env op before place) (F.evalUpdate env op before place) D.Has := by
  refine D.bind (h.eval he hp) fun _ _ hg hv => D.bind (h.numberOf hv) fun w' old hg' _ => ?_
  have hnumber : ∀ new, D.Has w' (.number new) := fun _ => D.has_plain w' rfl
  have he' := D.chain_later hg' (D.chain_later hg he)
  exact D.bind (h.storeIn he' (permits_bare hp) (hnumber _) fun _ _ _ _ => rfl) fun _ _ _ _ =>
    D.plain rfl

theorem evalTypeOf (h : D.Sound 3 base E F) (he : D.Chain w env) {arg : Expr}
    (hp : D.Permits arg.parts) :
    D.Runs base w (E.evalTypeOf env arg) (F.evalTypeOf env arg) D.Has := by
  cases arg with
  | identifier name =>
    refine D.look (fun m n hheap _ => ?_) fun m _ => ?_
    · simp only [hheap]
    · split
      · exact D.plain rfl
      · exact D.plain rfl
  | _ => exact D.bind (h.eval he hp) fun _ _ _ _ => D.plain rfl

theorem evalArrow (he : D.Chain w env) {f : Source.Function} (hp : D.Permits f.parts) :
    D.Runs base w (Evaluator.evalArrow f env) (Evaluator.evalArrow f env) D.Has :=
  D.bind (D.mapM_patternName f.params) fun _ _ hg _ =>
    D.newClosure (D.chain_later hg he) (permits_body hp)

theorem evalCall (h : D.Sound 3 base E F) (he : D.Chain w env) {callee : Expr} {args : List Element}
    (hc : D.Permits callee.parts) (hp : D.Permits (Element.partsIn args)) :
    D.Runs base w (E.evalCall env callee args) (F.evalCall env callee args) D.Has :=
  D.bind (h.eval he hc) fun _ _ hg hf => D.bind (h.evalArgs (D.chain_later hg he) hp)
    fun _ _ hg' hvalues => h.called (D.has_later hg' hf) hvalues

theorem evalConstruct (h : D.Sound 3 base E F) (he : D.Chain w env) {callee : Expr}
    {args : List Element} (hc : D.Permits callee.parts) (hp : D.Permits (Element.partsIn args)) :
    D.Runs base w (E.evalConstruct env callee args) (F.evalConstruct env callee args) D.Has := by
  refine D.bind (h.evalCall he hc hp) fun _ result _ hr => ?_
  split
  · exact D.pure hr
  · exact D.newObject (.empty .plain)

theorem evalUnary (h : D.Sound 3 base E F) (he : D.Chain w env) (op : UnaryOp) {arg : Expr}
    (hp : D.Permits arg.parts) :
    D.Runs base w (E.evalRule (.unary op arg) env) (F.evalRule (.unary op arg) env) D.Has := by
  cases op with
  | typeof => exact h.evalTypeOf he hp
  | _ => exact D.bind (h.eval he hp) fun _ _ _ hv => h.unary _ hv

theorem evalRule (h : D.Sound 3 base E F) (he : D.Chain w env) {e : Expr} (hp : D.Permits e.parts) :
    D.Runs base w (E.evalRule e env) (F.evalRule e env) D.Has := by
  obtain ⟨hself, hinner⟩ := permits_cons.mp hp
  cases e
  case assign op target value => exact h.evalAssign he op hp
  case identifier name => exact D.lookup he (D.name_of_identifier hself)
  all_goals simp only [Expr.inner, Expr.cons_inner, permits_append, permits_cons] at hinner
  case number | string | bool | null => exact D.plain rfl
  case template head holes => exact h.evalHoles he head hinner
  case paren inner => exact h.eval he hinner
  case sequence items =>
    have hlast : D.Has w .undefined := D.has_plain w rfl
    exact h.evalSequence he hlast hinner
  case array elements => exact D.bind (h.evalAll he hinner) fun _ _ _ hvalues => D.newArray hvalues
  case object properties => exact h.evalObject he rfl (.empty .plain) hinner
  case function f =>
    obtain ⟨name, params, body, async, generator⟩ := f
    exact D.makeClosure he hinner name
  case arrow f => exact evalArrow he hinner
  case unary op arg => exact h.evalUnary he op hinner.2
  case binary op left right =>
    exact D.bind (h.eval he hinner.1.2) fun _ _ hg ha =>
      D.bind (h.eval (D.chain_later hg he) hinner.2) fun _ _ hg' hb =>
        h.binary op (D.has_later hg' ha) hb
  case logical op left right =>
    refine D.bind (h.eval he hinner.1) fun _ a hg ha => ?_
    split
    · exact D.pure ha
    · exact h.eval (D.chain_later hg he) hinner.2
  case conditional test yes no =>
    refine D.bind (h.eval he hinner.1.1) fun _ value hg _ => ?_
    split
    · exact h.eval (D.chain_later hg he) hinner.1.2
    · exact h.eval (D.chain_later hg he) hinner.2
  case update op before place => exact h.evalUpdate he op before hinner.2
  case member object key =>
    exact D.bind (h.eval he hinner.1.2) fun _ target hg ht =>
      D.bind (h.memberName (D.chain_later hg he) hinner.2) fun _ name hg' _ =>
        D.getProperty (D.has_later hg' ht) name
  case call callee args => exact h.evalCall he hinner.1 hinner.2
  case construct callee args => exact h.evalConstruct he hinner.1 hinner.2
  all_goals exact D.raiseError _ _

end Discipline.Sound

end Reprl
