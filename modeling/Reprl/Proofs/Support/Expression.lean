import Reprl.Proofs.Support.Function
import Reprl.Source.Grammar.Expression

/-! Expressions as the grammar reads them. -/

namespace Reprl.Source

open Reprl.Source.Parser (Gives Offers)

/-! Operators between operands. -/

theorem Between.cleared_join {op : Between} {left right e : Expr} (hl : left.Cleared)
    (hr : right.Cleared) (h : op.join left right = some e) : e.Cleared := by
  rcases op with op | op
  · cases op with
    | nullish =>
      have hjoin : ∀ b : Bool, (if b then none else some (Expr.logical .nullish left right)) = some e →
          e.Cleared := by
        intro b hb
        cases b with
        | true => cases hb
        | false =>
          cases hb
          exact .logical .nullish hl hr
      exact hjoin _ h
    | _ =>
      cases h
      exact .logical _ hl hr
  · cases h
    exact .binary op hl hr

def Waiting.Cleared (waiting : Waiting) : Prop := ∀ w ∈ waiting, w.1.Cleared

theorem cleared_closeLevel {level : Nat} {waiting left : Waiting} {right e : Expr}
    (hw : waiting.Cleared) (hr : right.Cleared) (h : closeLevel level waiting right = some (left, e)) :
    left.Cleared ∧ e.Cleared := by
  induction waiting generalizing right with
  | nil =>
    cases h
    exact ⟨hw, hr⟩
  | cons w rest ih =>
    obtain ⟨operand, op⟩ := w
    obtain ⟨hoperand, hrest⟩ := List.forall_mem_cons.mp hw
    unfold closeLevel at h
    split at h
    · obtain ⟨joined, hjoined, hclose⟩ := Option.bind_eq_some_iff.mp h
      exact ih hrest (Between.cleared_join hoperand hr hjoined) hclose
    · cases h
      exact ⟨hw, hr⟩

theorem cleared_groupFrom {waiting : Waiting} {current e : Expr} {rest : List (Between × Expr)}
    (hw : waiting.Cleared) (hc : current.Cleared) (hrest : ∀ r ∈ rest, r.2.Cleared)
    (h : groupFrom waiting current rest = some e) : e.Cleared := by
  induction rest generalizing waiting current with
  | nil =>
    obtain ⟨⟨left, whole⟩, hclose, rfl⟩ := Option.map_eq_some_iff.mp h
    exact (cleared_closeLevel hw hc hclose).2
  | cons r rest ih =>
    obtain ⟨op, operand⟩ := r
    obtain ⟨hoperand, hothers⟩ := List.forall_mem_cons.mp hrest
    unfold groupFrom at h
    split at h
    · cases h
    · obtain ⟨⟨left, joined⟩, hclose, hgroup⟩ := Option.bind_eq_some_iff.mp h
      obtain ⟨hleft, hjoined⟩ := cleared_closeLevel hw hc hclose
      exact ih (List.forall_mem_cons.mpr ⟨hjoined, hleft⟩) hoperand hothers hgroup

theorem cleared_group {first e : Expr} {rest : List (Between × Expr)} (hf : first.Cleared)
    (hrest : ∀ r ∈ rest, r.2.Cleared) (h : group first rest = some e) : e.Cleared :=
  cleared_groupFrom (fun _ hmem => absurd hmem List.not_mem_nil) hf hrest h

namespace Grammar.Clears

variable {g : Grammar} {ctx : Context}

/-- An element between parentheses or brackets, which is not left out. -/
def Given (element : Element) : Prop := element.Cleared ∧ element ≠ .elision

theorem element (hg : g.Clears) (hc : ctx.Plain) : (g.element ctx).Gives Given := by
  refine .after fun _ => .ite (fun _ => ?_) fun _ => ?_
  · exact .after fun _ => .pure ⟨trivial, fun h => nomatch h⟩
  · exact (hg.assignment hc.withIn).bind fun _ hv => .pure ⟨hv, fun h => nomatch h⟩

theorem elements (hg : g.Clears) (hc : ctx.Plain) :
    (g.elements ctx).Gives fun all => ∀ element ∈ all.1, Given element :=
  .after fun _ => .commaList (element hg hc)

theorem arguments (hg : g.Clears) (hc : ctx.Plain) :
    (g.arguments ctx).Gives fun args => ∀ arg ∈ args, arg.Cleared :=
  (elements hg hc).bind fun _ hall => .pure fun arg hmem => (hall arg hmem).1

theorem holes (hg : g.Clears) (hc : ctx.Plain) (tagged : Bool) (fuel : Nat) :
    (g.holes ctx tagged fuel).Gives fun holes => ∀ hole ∈ holes, hole.Cleared := by
  induction fuel with
  | zero => exact .failure
  | succ fuel ih =>
    refine (expression hg hc).bind fun value hv => .after fun _ => .after fun _ => .after fun text => ?_
    have hhole : (Hole.mk value (cooked text)).Cleared := hv
    refine .ite (fun _ => ?_) fun _ => ?_
    · exact ih.bind fun rest hrest => .pure (List.forall_mem_cons.mpr ⟨hhole, hrest⟩)
    · exact .pure (List.forall_mem_singleton.mpr hhole)

theorem template (hg : g.Clears) (hc : ctx.Plain) (tagged : Bool) :
    (g.template ctx tagged).Gives Expr.Cleared := by
  refine .after fun text => .ite (fun _ => ?_) fun _ => ?_
  · exact .after fun _ => (holes hg hc tagged _).bind fun _ hall => .pure (.template hall _)
  · exact .pure (.template (fun _ hmem => absurd hmem List.not_mem_nil) _)

theorem arrayLiteral (hg : g.Clears) (hc : ctx.Plain) : (g.arrayLiteral ctx).Gives Expr.Cleared := by
  refine Gives.bind (.collect ?_) fun elements (hall : ∀ e ∈ elements, e.Cleared) =>
    .after fun _ => .pure (.array hall)
  refine .after fun _ => .ite (fun _ => .stop) fun _ => .after fun _ => .ite (fun _ => ?_) fun _ => ?_
  · exact .offer trivial
  · refine (element hg hc).bind fun element he => .after fun _ => ?_
    exact .ite (fun _ => .after fun _ => .after fun _ => .offer he.1) fun _ => .offer he.1

theorem method (hg : g.Clears) (hc : ctx.Plain) (async generator : Bool) :
    (g.method ctx async generator).Gives Property.Cleared := by
  have hinside : async = false → generator = false → (ctx.method async generator).Plain := by
    rintro rfl rfl
    exact hc.method
  refine (propertyKey hg hc).bind fun key hk => ?_
  exact (functionTail hg hinside none).bind fun f hf => .pure (.method hk hf)

theorem property (hg : g.Clears) (hc : ctx.Plain) : (g.property ctx).Gives Property.Cleared := by
  have haccessor : ∀ reads, (g.accessor ctx reads).Gives Property.Cleared := fun reads =>
    .after fun _ => .after fun _ => .after fun _ => .pure (.foreign _)
  refine .after fun _ => .ite (fun _ => .after fun _ => .pure (.spread _)) fun _ => ?_
  refine .after fun _ => .ite (fun _ => method hg hc false true) fun _ => ?_
  refine .after fun _ => .ite (fun _ => .after fun _ => method hg hc true _) fun _ => ?_
  refine .after fun _ => .ite (fun _ => haccessor true) fun _ => ?_
  refine .after fun _ => .ite (fun _ => haccessor false) fun _ => ?_
  refine .after fun first => (propertyKey hg hc).bind fun key hk => ?_
  refine .after fun _ => .ite (fun _ => ?_) fun _ => ?_
  · exact (functionTail hg (fun _ _ => hc.method) none).bind fun f hf => .pure (.method hk hf)
  refine .after fun _ => .ite (fun _ => ?_) fun _ => ?_
  · exact (hg.assignment hc.withIn).bind fun value hv => .pure (.keyed hk hv)
  cases first with
  | word name escaped =>
    refine .after fun _ => .after fun _ => .ite (fun _ => ?_) fun _ => ?_
    · exact (hg.assignment hc.withIn).bind fun value hv => .pure (.defaulted name hv)
    · exact .pure (.shorthand name)
  | _ => exact .failure

theorem objectLiteral (hg : g.Clears) (hc : ctx.Plain) : (g.objectLiteral ctx).Gives Expr.Cleared :=
  (Gives.commaList (property hg hc)).bind fun _ hall => .pure (.object hall)

theorem cleared_of_plainItems {items : List Element} {values : List Expr}
    (hi : ∀ item ∈ items, Given item) (h : items.mapM plainItem? = some values) :
    ∀ value ∈ values, value.Cleared := by
  induction items generalizing values with
  | nil =>
    cases h
    exact fun _ hmem => absurd hmem List.not_mem_nil
  | cons item rest ih =>
    obtain ⟨hitem, hrest⟩ := List.forall_mem_cons.mp hi
    rw [List.mapM_cons] at h
    obtain ⟨value, hvalue, hothers⟩ := Option.bind_eq_some_iff.mp h
    obtain ⟨others, hall, hwhole⟩ := Option.bind_eq_some_iff.mp hothers
    cases hwhole
    refine List.forall_mem_cons.mpr ⟨?_, ih hrest hall⟩
    cases item with
    | item e =>
      cases hvalue
      exact hitem.1
    | _ => cases hvalue

theorem parenthesized (hg : g.Clears) (hc : ctx.Plain) (head : Bool) :
    (g.parenthesized ctx head).Gives Expr.Cleared := by
  refine (elements hg hc).bind fun all hall => ?_
  obtain ⟨items, trailing⟩ := all
  refine .after fun _ => .ite (fun _ => ?_) fun _ => ?_
  · refine .after fun _ => .after fun _ => Gives.lift.bind fun params hparams => .after fun _ => ?_
    exact arrowTail hg hc false (Element.cleared_of_toParams? (fun item hmem => (hall item hmem).2) hparams)
  · refine .after fun _ => Gives.lift.bind fun values hvalues => ?_
    have hcleared := cleared_of_plainItems hall hvalues
    split
    · exact .failure
    · exact .pure (.paren (hcleared _ List.mem_cons_self))
    · exact .pure (.paren (.sequence hcleared))

theorem shortArrow (hg : g.Clears) (hc : ctx.Plain) (async : Bool) :
    (g.shortArrow ctx async).Gives Expr.Cleared := by
  refine .after fun name => .after fun _ => .after fun _ => .after fun _ => ?_
  exact arrowTail hg hc async (List.forall_mem_singleton.mpr fun _ => rfl)

theorem asyncForm (hg : g.Clears) (hc : ctx.Plain) (head : Bool) :
    (g.asyncForm ctx head).Gives Expr.Cleared := by
  have hname : (Expr.identifier "async").Cleared := .leaf rfl rfl
  refine .after fun next => .ite (fun _ => ?_) fun _ => .ite (fun _ => ?_) fun _ =>
    .ite (fun _ => ?_) fun _ => .ite (fun _ => ?_) fun _ => ?_
  · exact .after fun _ => .after fun _ => functionExpression hg hc true
  · exact .after fun _ => shortArrow hg hc true
  · refine .after fun _ => (elements hg hc).bind fun all hall => ?_
    obtain ⟨items, trailing⟩ := all
    refine .after fun _ => .after fun _ => .ite (fun _ => ?_) fun _ => ?_
    · refine Gives.lift.bind fun params hparams => .after fun _ => ?_
      exact arrowTail hg hc true (Element.cleared_of_toParams? (fun item hmem => (hall item hmem).2) hparams)
    · exact .after fun _ => .pure (.call hname fun item hmem => (hall item hmem).1)
  · exact shortArrow hg hc false
  · exact .after fun _ => .pure hname

theorem identifier (hg : g.Clears) (hc : ctx.Plain) (name : String) (head : Bool) :
    (g.identifier ctx name head).Gives Expr.Cleared := by
  refine .after fun _ => .after fun _ => .ite (fun _ => shortArrow hg hc false) fun _ => ?_
  exact .after fun _ => .pure (.leaf rfl rfl)

theorem classExpression (g : Grammar) (ctx : Context) :
    (g.classExpression ctx).Gives Expr.Cleared := by
  have hlast : Gives (do
      g.classTail ctx
      return .foreign .classDefinition) Expr.Cleared := .after fun _ => .pure (.foreign _)
  exact .after fun _ => .after fun _ => .ite (fun _ => .after fun _ => hlast) fun _ => hlast

theorem wordForm (hg : g.Clears) (hc : ctx.Plain) (name : String) (head : Bool) :
    (g.wordForm ctx name head).Gives Expr.Cleared := by
  unfold Grammar.wordForm
  split
  · exact .after fun _ => functionExpression hg hc false
  · exact .after fun _ => classExpression g ctx
  · exact asyncForm hg hc head
  · exact .after fun _ => .pure (.foreign _)
  · exact .after fun _ => .pure (.leaf rfl rfl)
  · exact .after fun _ => .pure (.leaf rfl rfl)
  · exact .after fun _ => .pure (.leaf rfl rfl)
  · exact identifier hg hc _ head

theorem regularExpression : Grammar.regularExpression.Gives Expr.Cleared := by
  refine .after fun c => ?_
  split
  · exact .after fun _ => .pure (.foreign _)
  · exact .failure

theorem primary (hg : g.Clears) (hc : ctx.Plain) (head : Bool) :
    (g.primary ctx head).Gives Expr.Cleared := by
  refine .after fun first => ?_
  split
  · exact .ite (fun _ => identifier hg hc _ head) fun _ => wordForm hg hc _ head
  · exact .after fun _ => .after fun _ => .pure (.leaf rfl rfl)
  · exact .after fun _ => .after fun _ => .pure (.leaf rfl rfl)
  · exact .after fun _ => .pure (.foreign _)
  · exact parenthesized hg hc head
  · exact .after fun _ => arrayLiteral hg hc
  · exact .after fun _ => objectLiteral hg hc
  · exact template hg hc false
  · exact regularExpression
  · exact regularExpression
  · exact .after fun _ => .after fun _ => .after fun _ => .pure (.foreign _)
  · exact .failure

theorem pointKey (hc : ctx.Plain) : (Grammar.pointKey ctx).Gives Key.MemberCleared := by
  refine .after fun first => ?_
  split
  · exact .after fun _ => .pure (.name _)
  · -- names of members that only a class can see stand in classes only
    refine (Gives.require ctx.inClass).bind fun _ hclass => ?_
    rw [hc.noClass] at hclass
    cases hclass
  · exact .failure

theorem bracketKey (hg : g.Clears) (hc : ctx.Plain) : (g.bracketKey ctx).Gives Key.MemberCleared :=
  .after fun _ => (expression hg hc).bind fun _ hv => .after fun _ => .pure (.computed hv)

theorem extend {l : Linked} {value : Expr} (hl : l.value.Cleared) (hv : value.Cleared) :
    (l.extend value).value.Cleared := by
  unfold Linked.extend
  split
  · exact hl
  · exact hv

theorem link (hg : g.Clears) (hc : ctx.Plain) (calls : Bool) {l : Linked} (hl : l.value.Cleared) :
    (g.link ctx calls l).Offers fun l => l.value.Cleared := by
  refine .after fun first => ?_
  split
  · exact .after fun _ => (pointKey hc).bind fun key hk => .offer (extend hl (.member hl hk))
  · exact (bracketKey hg hc).bind fun key hk => .offer (extend hl (.member hl hk))
  · refine .ite (fun _ => ?_) fun _ => .stop
    exact (arguments hg hc).bind fun args hargs => .offer (extend hl (.call hl hargs))
  · exact .after fun _ => .after fun _ => .after fun _ => .offer (.foreign _)
  · exact .after fun _ => .after fun _ => .offer (.foreign _)
  · exact .stop

theorem links (hg : g.Clears) (hc : ctx.Plain) (calls : Bool) {value : Expr} (hv : value.Cleared) :
    (g.links ctx calls value).Gives Expr.Cleared :=
  (Gives.iterate (a := ⟨value, false⟩) (fun _ => link hg hc calls) hv).bind fun _ hl => .pure hl

/-- Calls of the constructor of a superclass stand in constructors only. -/
theorem superForm (g : Grammar) (hc : ctx.Plain) : (g.superForm ctx).Gives Expr.Cleared := by
  refine .after fun _ => .after fun _ => .ite (fun _ => ?_) fun _ => .after fun _ => ?_
  · refine (Gives.require ctx.superCall).bind fun _ hcall => ?_
    rw [hc.noSuper] at hcall
    cases hcall
  · refine .after fun _ => .ite (fun _ => ?_) fun _ => ?_
    · exact .after fun key => .pure (.superMember key)
    · exact .after fun key => .pure (.superMember key)

theorem importForm (g : Grammar) (ctx : Context) : (g.importForm ctx).Gives Expr.Cleared :=
  .after fun _ => .after fun args => .after fun _ => .pure (.importCall args)

theorem constructRule (hg : g.Clears) (hc : ctx.Plain) : (g.constructRule ctx).Gives Expr.Cleared := by
  have hlast : ∀ base : Expr, base.Cleared → Gives (do
      let callee ← g.links ctx false base
      let args ← if ← Parser.atMark "(" then g.arguments ctx else pure []
      return Expr.construct callee args) Expr.Cleared := by
    intro base hb
    refine (links hg hc false hb).bind fun callee hcallee => .after fun _ => ?_
    refine .join (arguments hg hc) (.pure ?_) fun args hargs => .pure (.construct hcallee hargs)
    exact fun _ hmem => absurd hmem List.not_mem_nil
  refine .after fun _ => .after fun _ => .ite (fun _ => ?_) fun _ => ?_
  · exact .after fun _ => .after fun _ => .pure .newTarget
  refine .after fun _ => .after fun _ => .after fun _ => ?_
  refine .ite (fun _ => (hg.construct hc).bind hlast) fun _ => ?_
  refine .ite (fun _ => (superForm g hc).bind hlast) fun _ => ?_
  refine .ite (fun _ => Gives.failure.bind hlast) fun _ => ?_
  exact (primary hg hc false).bind hlast

theorem leftHandSideRule (hg : g.Clears) (hc : ctx.Plain) (head : Bool) :
    (g.leftHandSideRule ctx head).Gives Expr.Cleared := by
  have hlast : ∀ base : Expr, base.Cleared →
      Gives (if isArrow base then return base else g.links ctx true base) Expr.Cleared :=
    fun base hb => .ite (fun _ => .pure hb) fun _ => links hg hc true hb
  refine .after fun _ => .after fun _ => .after fun _ => ?_
  refine .ite (fun _ => (constructRule hg hc).bind hlast) fun _ => ?_
  refine .ite (fun _ => (superForm g hc).bind hlast) fun _ => ?_
  refine .ite (fun _ => (importForm g ctx).bind hlast) fun _ => ?_
  exact (primary hg hc head).bind hlast

theorem postfixForm (hg : g.Clears) (hc : ctx.Plain) (head : Bool) :
    (g.postfixForm ctx head).Gives Expr.Cleared := by
  refine (leftHandSideRule hg hc head).bind fun value hv => .ite (fun _ => .pure hv) fun _ => ?_
  refine .after fun first => .after fun newline => ?_
  split
  · exact .after fun _ => .after fun _ => .pure (.update _ false hv)
  · exact .pure hv

theorem unaryRule (hg : g.Clears) (hc : ctx.Plain) (head : Bool) :
    (g.unaryRule ctx head).Gives Expr.Cleared := by
  refine .after fun first => ?_
  split
  · exact .after fun _ => (hg.unary hc).bind fun arg ha => .after fun _ => .pure (.unary _ ha)
  · exact .after fun _ => (hg.unary hc).bind fun place hp => .after fun _ => .pure (.update _ true hp)
  · -- outside of functions that wait, `await` is a name like any other
    refine .ite (fun hawait => ?_) fun _ => postfixForm hg hc head
    rw [hc.notAsync] at hawait
    cases hawait

theorem operands (hg : g.Clears) (hc : ctx.Plain) (head : Bool) :
    (g.operands ctx head).Gives Expr.Cleared := by
  refine (unaryRule hg hc head).bind fun first hfirst => .ite (fun _ => .pure hfirst) fun _ => ?_
  refine Gives.bind (.collect ?_) fun rest (hall : ∀ r ∈ rest, r.2.Cleared) =>
    Gives.lift.mono fun e he => cleared_group hfirst hall he
  refine .after fun next => ?_
  split
  · exact .stop
  · exact .after fun _ => (unaryRule hg hc false).bind fun operand ho => .offer ho

theorem conditional (hg : g.Clears) (hc : ctx.Plain) (head : Bool) :
    (g.conditional ctx head).Gives Expr.Cleared := by
  refine (operands hg hc head).bind fun test ht => .ite (fun _ => .pure ht) fun _ => ?_
  refine .after fun _ => .ite (fun _ => ?_) fun _ => .pure ht
  refine (hg.assignment hc.withIn).bind fun yes hy => .after fun _ => ?_
  exact (hg.assignment hc).bind fun no hn => .pure (.conditional ht hy hn)

theorem assignmentRule (hg : g.Clears) (hc : ctx.Plain) : (g.assignmentRule ctx).Gives Expr.Cleared := by
  refine .after fun _ => .ite (fun hyield => ?_) fun _ => ?_
  · -- so is `yield` outside of generators
    rw [hc.notGenerator] at hyield
    cases hyield
  refine (conditional hg hc true).bind fun left hl => .ite (fun _ => .pure hl) fun _ => ?_
  refine .after fun next => ?_
  split
  · exact .pure hl
  · refine Gives.lift.bind fun target htarget => .after fun _ => ?_
    refine (hg.assignment hc).bind fun value hv => .pure (.assign .plain (fun place hplace => ?_) hv)
    rw [hplace] at htarget
    exact Expr.toTarget?_place htarget ▸ hl
  · refine .after fun _ => .after fun _ => (hg.assignment hc).bind fun value hv => .pure ?_
    refine .assign _ (fun place hplace => ?_) hv
    cases hplace
    exact hl

theorem expressionRule (hg : g.Clears) (hc : ctx.Plain) : (g.expressionRule ctx).Gives Expr.Cleared :=
  sequenceOf (assignmentRule hg hc)

end Grammar.Clears

end Reprl.Source
