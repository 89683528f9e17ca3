import Reprl.Proofs.Source.Gives
import Reprl.Proofs.Support.Cleared
import Reprl.Source.Grammar.Function

/-! Functions as the grammar reads them, outside of classes and of functions that wait or yield.
There everything that is read is cleared, as long as the rules that lead back are. -/

namespace Reprl.Source

open Reprl.Source.Parser (Gives Offers)

/-- A place in a script that is in no class and no label, and in no function that waits or yields. -/
structure Context.Plain (ctx : Context) : Prop where
  notAsync : ctx.inAsync = false
  notGenerator : ctx.inGenerator = false
  noSuper : ctx.superCall = false
  noClass : ctx.inClass = false
  noLabel : ctx.labels = []

namespace Context.Plain

variable {ctx : Context}

theorem withIn (h : ctx.Plain) : ctx.withIn.Plain := ⟨h.1, h.2, h.3, h.4, h.5⟩

theorem withoutIn (h : ctx.Plain) : ctx.withoutIn.Plain := ⟨h.1, h.2, h.3, h.4, h.5⟩

theorem loop (h : ctx.Plain) : ctx.loop.Plain := ⟨h.1, h.2, h.3, h.4, h.5⟩

theorem withStrict (h : ctx.Plain) (strict : Bool) : { ctx with strict }.Plain :=
  ⟨h.1, h.2, h.3, h.4, h.5⟩

theorem body (h : ctx.Plain) : (ctx.body false false).Plain := ⟨rfl, rfl, h.3, h.4, rfl⟩

theorem function (h : ctx.Plain) : (ctx.function false false).Plain := ⟨rfl, rfl, rfl, h.4, rfl⟩

theorem method (h : ctx.Plain) : (ctx.method false false).Plain := ⟨rfl, rfl, rfl, h.4, rfl⟩

end Context.Plain

/-! Patterns that were read as expressions. -/

theorem Expr.toPattern?_ne_elision (strict : Bool) (e : Expr) : e.toPattern? strict ≠ some .elision := by
  cases e with
  | assign op target value =>
    cases op with
    | plain =>
      rcases target with place | pattern
      · cases place <;> simp [Expr.toPattern?]
      · simp [Expr.toPattern?]
    | _ => simp [Expr.toPattern?]
  | _ => simp [Expr.toPattern?]

theorem Expr.cleared_of_toPattern? {strict : Bool} {e : Expr} {pattern : Pattern}
    (h : e.toPattern? strict = some pattern) : pattern.Cleared := by
  intro hfound
  cases pattern with
  | name name => rfl
  | elision => exact absurd h (toPattern?_ne_elision strict e)
  | _ => cases hfound

theorem Element.cleared_of_toPatterns? {strict : Bool} {elements : List Element}
    {patterns : List Pattern} (hno : ∀ e ∈ elements, e ≠ .elision)
    (h : Element.toPatterns? strict elements = some patterns) : ∀ p ∈ patterns, p.Cleared := by
  induction elements generalizing patterns with
  | nil =>
    cases h
    exact fun _ hmem => absurd hmem List.not_mem_nil
  | cons element rest ih =>
    obtain ⟨hfirst, hrest⟩ := List.forall_mem_cons.mp hno
    cases element with
    | elision => exact absurd rfl hfirst
    | item value =>
      obtain ⟨pattern, hpattern, hothers⟩ := Option.bind_eq_some_iff.mp h
      obtain ⟨others, hall, hwhole⟩ := Option.bind_eq_some_iff.mp hothers
      cases hwhole
      exact List.forall_mem_cons.mpr ⟨Expr.cleared_of_toPattern? hpattern, ih hrest hall⟩
    | spread value =>
      cases rest with
      | nil =>
        have hrests : ∀ p ∈ patterns, ∃ inner, p = .rest inner := by
          unfold Element.toPatterns? at h
          split at h
          · cases h
          · obtain ⟨inner, -, hwhole⟩ := Option.map_eq_some_iff.mp h
            cases hwhole
            exact fun p hmem => ⟨inner, List.mem_singleton.mp hmem⟩
        intro p hmem
        obtain ⟨inner, rfl⟩ := hrests p hmem
        exact fun hfound => nomatch hfound
      | cons next rest => cases h

theorem Element.cleared_of_toParams? {strict trailing : Bool} {elements : List Element}
    {params : List Pattern} (hno : ∀ e ∈ elements, e ≠ .elision)
    (h : Element.toParams? strict trailing elements = some params) : ∀ p ∈ params, p.Cleared := by
  have hparams : Element.toParams?.params strict elements = some params := by
    unfold Element.toParams? at h
    split at h
    · split at h
      · cases h
      · exact h
    · exact h
  exact cleared_of_toPatterns? hno (Option.filter_eq_some_iff.mp hparams).1

theorem Expr.toTarget?_place {strict : Bool} {e place : Expr}
    (h : e.toTarget? strict = some (.place place)) : place = e := by
  unfold Expr.toTarget? at h
  split at h
  · obtain ⟨pattern, -, hno⟩ := Option.map_eq_some_iff.mp h
    cases hno
  · obtain ⟨pattern, -, hno⟩ := Option.map_eq_some_iff.mp h
    cases hno
  · split at h
    · cases h
      rfl
    · cases h

namespace Grammar

/-- What rules that lead back give. -/
structure Clears (g : Grammar) : Prop where
  assignment {ctx : Context} : ctx.Plain → (g.assignment ctx).Gives Expr.Cleared
  unary {ctx : Context} : ctx.Plain → (g.unary ctx).Gives Expr.Cleared
  construct {ctx : Context} : ctx.Plain → (g.construct ctx).Gives Expr.Cleared
  pattern (ctx : Context) : (g.pattern ctx).Gives Pattern.Cleared
  statement {ctx : Context} (declares : Bool) : ctx.Plain → (g.statement ctx declares).Gives Stmt.Cleared

namespace Clears

variable {g : Grammar} {ctx : Context}

theorem sequenceOf {assignment : Context → Parser Expr} (h : (assignment ctx).Gives Expr.Cleared) :
    (sequenceOf assignment ctx).Gives Expr.Cleared := by
  refine h.bind fun first hfirst => .after fun more => .ite (fun _ => .pure hfirst) fun _ => ?_
  refine Gives.bind (.collect ?_) fun others (hall : ∀ e ∈ others, e.Cleared) =>
    .pure (.sequence (List.forall_mem_cons.mpr ⟨hfirst, hall⟩))
  exact .after fun _ => .ite (fun _ => h.bind fun _ he => .offer he) fun _ => .stop

theorem expression (hg : g.Clears) (hc : ctx.Plain) : (g.expression ctx).Gives Expr.Cleared :=
  sequenceOf (hg.assignment hc.withIn)

theorem computedKey (hg : g.Clears) (hc : ctx.Plain) : (g.computedKey ctx).Gives Key.NameCleared :=
  .after fun _ => (hg.assignment hc.withIn).bind fun _ hv => .after fun _ => .pure (.computed hv)

theorem propertyKey (hg : g.Clears) (hc : ctx.Plain) : (g.propertyKey ctx).Gives Key.NameCleared := by
  refine .after fun first => ?_
  split
  · exact .after fun _ => .pure (.leaf rfl rfl)
  · exact .after fun _ => .after fun _ => .pure (.leaf rfl rfl)
  · exact .after fun _ => .after fun _ => .pure (.leaf rfl rfl)
  · exact .after fun _ => .pure .bigInteger
  · exact computedKey hg hc

theorem bindingElement (hg : g.Clears) : (g.bindingElement ctx).Gives Pattern.Cleared := by
  refine (hg.pattern ctx).bind fun pattern hp => .after fun _ => .ite (fun _ => ?_) fun _ => .pure hp
  exact .after fun _ => .pure fun hno => nomatch hno

theorem listedElement (hg : g.Clears) (closing : String) :
    (g.listedElement ctx closing).Gives Pattern.Cleared := by
  refine .after fun _ => .ite (fun _ => ?_) fun _ => ?_
  · exact .after fun _ => .after fun _ => .after fun _ => .pure fun hno => nomatch hno
  · refine (bindingElement hg).bind fun element he => .after fun _ => ?_
    exact .ite (fun _ => .after fun _ => .after fun _ => .pure he) fun _ => .pure he

theorem patternRule (g : Grammar) (ctx : Context) : (g.patternRule ctx).Gives Pattern.Cleared := by
  refine .after fun _ => .ite (fun _ => ?_) fun _ => .after fun _ => .ite (fun _ => ?_) fun _ => ?_
  · exact .after fun _ => .after fun _ => .pure fun hno => nomatch hno
  · exact .after fun _ => .pure fun hno => nomatch hno
  · exact .after fun name => .pure fun _ => rfl

theorem parameters (hg : g.Clears) :
    (g.parameters ctx).Gives fun params => ∀ p ∈ params, p.Cleared := by
  refine .after fun _ => Gives.bind (.collect ?_) fun params (hall : ∀ p ∈ params, p.Cleared) =>
    .after fun _ => .pure hall
  exact .after fun _ => .ite (fun _ => .stop) fun _ => (listedElement hg ")").bind fun _ hp => .offer hp

theorem statements (hg : g.Clears) (hc : ctx.Plain) :
    (g.statements ctx).Gives fun body => ∀ s ∈ body, s.Cleared := by
  refine .collect (.after fun _ => .after fun _ => .ite (fun _ => .stop) fun _ => ?_)
  exact (hg.statement true hc).bind fun _ hs => .offer hs

theorem bodyStatements (hg : g.Clears) (hc : ctx.Plain) :
    (g.bodyStatements ctx).Gives fun body => ∀ s ∈ body.1, s.Cleared := by
  refine .after fun first => .ite (fun _ => ?_) fun _ => ?_
  · refine (hg.statement true hc).bind fun first hfirst => ?_
    refine (statements hg (hc.withStrict _)).bind fun rest hrest => ?_
    exact .pure (List.forall_mem_cons.mpr ⟨hfirst, hrest⟩)
  · exact (statements hg hc).bind fun body hbody => .pure hbody

theorem functionBody (hg : g.Clears) (hc : ctx.Plain) (params : List Pattern) :
    (g.functionBody ctx params).Gives fun body => ∀ s ∈ body, s.Cleared :=
  .after fun _ => (bodyStatements hg hc).bind fun _ hbody => .after fun _ => .after fun _ => .pure hbody

/-- Functions that wait or yield are found, whatever their bodies are. -/
theorem functionTail (hg : g.Clears) (hc : ctx.inAsync = false → ctx.inGenerator = false → ctx.Plain)
    (name : Option String) : (g.functionTail ctx name).Gives Function.Cleared := by
  refine (parameters hg).bind fun params hparams => ?_
  have hbody : (g.functionBody ctx params).Gives fun body =>
      ctx.inAsync = false → ctx.inGenerator = false → ∀ s ∈ body, s.Cleared :=
    .imp fun ha => .imp fun hgen => functionBody hg (hc ha hgen) params
  exact hbody.bind fun body hb => .pure (.mk hparams fun ha hgen => .block (hb ha hgen))

theorem functionExpression (hg : g.Clears) (hc : ctx.Plain) (async : Bool) :
    (g.functionExpression ctx async).Gives Expr.Cleared := by
  refine .after fun generator => ?_
  have hinside : async = false → generator = false → (ctx.function async generator).Plain := by
    rintro rfl rfl
    exact hc.function
  have htail : ∀ name, (g.functionTail (ctx.function async generator) name).Gives Function.Cleared :=
    functionTail hg hinside
  refine .after fun _ => .ite (fun _ => ?_) fun _ => ?_
  · exact (htail none).bind fun f hf => .pure (.function hf)
  · exact .after fun name => (htail (some name)).bind fun f hf => .pure (.function hf)

theorem functionDeclaration (hg : g.Clears) (hc : ctx.Plain) (async : Bool) :
    (g.functionDeclaration ctx async).Gives Stmt.Cleared := by
  refine .after fun generator => .after fun name => ?_
  have hinside : async = false → generator = false → (ctx.function async generator).Plain := by
    rintro rfl rfl
    exact hc.function
  exact (functionTail hg hinside (some name)).bind fun f hf => .pure (.function name hf)

theorem arrowTail (hg : g.Clears) (hc : ctx.Plain) (async : Bool) {params : List Pattern}
    (hp : ∀ p ∈ params, p.Cleared) : (g.arrowTail ctx async params).Gives Expr.Cleared := by
  refine .after fun _ => .ite (fun _ => ?_) fun _ => ?_
  · have hbody : (g.functionBody (ctx.body async false) params).Gives fun body =>
        async = false → ∀ s ∈ body, s.Cleared := by
      refine .imp ?_
      rintro rfl
      exact functionBody hg hc.body params
    exact hbody.bind fun body hb => .pure (.arrow (.mk hp fun ha _ => .block (hb ha)))
  · have hvalue : (g.assignment { ctx with inAsync := async, inGenerator := false }).Gives fun value =>
        async = false → value.Cleared := by
      refine .imp ?_
      rintro rfl
      exact hg.assignment ⟨rfl, rfl, hc.noSuper, hc.noClass, hc.noLabel⟩
    exact hvalue.bind fun value hv => .pure (.arrow (.mk hp fun ha _ => .concise (hv ha)))

end Clears

end Grammar

end Reprl.Source
