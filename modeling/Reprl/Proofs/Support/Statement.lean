import Reprl.Proofs.Support.Expression
import Reprl.Source.Grammar.Statement

/-! Statements as the grammar reads them, and the grammar as a whole. -/

namespace Reprl.Source

open Reprl.Source.Parser (Gives Offers)

namespace Grammar

namespace Clears

variable {g : Grammar} {ctx : Context}

theorem block (hg : g.Clears) (hc : ctx.Plain) :
    (g.block ctx).Gives fun body => ∀ s ∈ body, s.Cleared :=
  .after fun _ => (statements hg hc).bind fun _ hbody => .after fun _ => .pure hbody

theorem parenExpression (hg : g.Clears) (hc : ctx.Plain) :
    (g.parenExpression ctx).Gives Expr.Cleared :=
  .after fun _ => (expression hg hc).bind fun _ hv => .after fun _ => .pure hv

theorem declarator (hg : g.Clears) (hc : ctx.Plain) (kind : VarKind) :
    (g.declarator ctx kind).Gives Declarator.Cleared := by
  refine (hg.pattern ctx).bind fun target ht => .after fun _ => .after fun _ => ?_
  refine .ite (fun _ => ?_) fun _ => ?_
  · refine (hg.assignment hc).bind fun value hv => .pure ⟨ht, fun e he => ?_⟩
    cases he
    exact hv
  · exact .pure ⟨ht, fun e he => nomatch he⟩

theorem declarators (hg : g.Clears) (hc : ctx.Plain) (kind : VarKind) :
    (g.declarators ctx kind).Gives fun items => ∀ item ∈ items, item.Cleared := by
  refine .after fun _ => (declarator hg hc kind).bind fun first hfirst => ?_
  refine Gives.bind (.collect ?_) fun others (hall : ∀ item ∈ others, item.Cleared) =>
    .pure (List.forall_mem_cons.mpr ⟨hfirst, hall⟩)
  exact .after fun _ => .ite (fun _ => (declarator hg hc kind).bind fun _ h => .offer h) fun _ => .stop

theorem variableDeclaration (hg : g.Clears) (hc : ctx.Plain) (kind : VarKind) :
    (g.variableDeclaration ctx kind).Gives Stmt.Cleared :=
  (declarators hg hc.withIn kind).bind fun _ hall => .after fun _ => .after fun _ =>
    .pure (.declaration kind hall)

theorem branch (hg : g.Clears) (hc : ctx.Plain) : (g.branch ctx).Gives Stmt.Cleared := by
  refine .after fun _ => (parenExpression hg hc).bind fun test ht => ?_
  refine (hg.statement false hc).bind fun yes hy => .after fun _ => .ite (fun _ => ?_) fun _ => ?_
  · refine (hg.statement false hc).bind fun no hn => .pure (.branch ht hy fun s hs => ?_)
    cases hs
    exact hn
  · exact .pure (.branch ht hy fun s hs => nomatch hs)

theorem whileLoop (hg : g.Clears) (hc : ctx.Plain) : (g.whileLoop ctx).Gives Stmt.Cleared := by
  refine .after fun _ => (parenExpression hg hc).bind fun test ht => ?_
  exact (hg.statement false hc.loop).bind fun body hb => .pure (.whileLoop ht hb)

theorem doLoop (hg : g.Clears) (hc : ctx.Plain) : (g.doLoop ctx).Gives Stmt.Cleared := by
  refine .after fun _ => (hg.statement false hc.loop).bind fun body hb => .after fun _ => ?_
  exact (parenExpression hg hc).bind fun test ht => .after fun _ => .pure (.doLoop hb ht)

theorem loopOver (g : Grammar) (ctx : Context) (what : Construct) :
    (g.loopOver ctx what).Gives Stmt.Cleared :=
  .after fun _ => .after fun _ => .after fun _ => .after fun _ => .pure (.foreign what)

theorem countingLoop (hg : g.Clears) (hc : ctx.Plain) {start : ForStart} (hs : start.Cleared) :
    (g.countingLoop ctx start).Gives Stmt.Cleared := by
  have hgiven : Offers (some <$> g.expression ctx) Expr.Cleared :=
    (expression hg hc).bind fun _ hv => .offer hv
  refine .after fun _ => .after fun _ => .join .stop hgiven fun test ht => ?_
  refine .after fun _ => .after fun _ => .join .stop hgiven fun update hu => ?_
  exact .after fun _ => (hg.statement false hc.loop).bind fun body hb => .pure (.forLoop hs ht hu hb)

theorem forLoop (hg : g.Clears) (hc : ctx.Plain) : (g.forLoop ctx).Gives Stmt.Cleared := by
  refine .after fun _ => .join (.any _) (.any _) fun awaits _ => .after fun _ => .after fun kind => ?_
  cases kind with
  | some kind =>
    refine (declarators hg hc.withoutIn kind).bind fun items hitems => .after fun next => ?_
    split
    · exact .after fun _ => .after fun _ => loopOver g ctx _
    · exact .failure
    · exact .after fun _ => countingLoop hg hc (.declaration kind hitems)
  | none =>
    refine .after fun _ => .ite (fun _ => .after fun _ => countingLoop hg hc .nil) fun _ => ?_
    refine .after fun first => (sequenceOf (hg.assignment hc.withoutIn)).bind fun value hv => ?_
    refine .after fun next => ?_
    split
    · exact .after fun _ => .after fun _ => loopOver g ctx _
    · exact .after fun _ => countingLoop hg hc (.expression hv)

theorem jump (hc : ctx.Plain) (breaks : Bool) :
    (Grammar.jump ctx breaks).Gives Stmt.Cleared := by
  refine .after fun _ => .after fun label => .after fun _ => ?_
  refine (Gives.require (label.all ctx.labels.contains)).bind fun _ hlabel => .pure ?_
  -- labels that can be jumped to stand around the jump only, and there are none
  have hnone : label = none := by
    cases label with
    | none => rfl
    | some name =>
      rw [hc.noLabel] at hlabel
      cases hlabel
  rw [hnone]
  cases breaks with
  | true => exact .leaf rfl rfl
  | false => exact .leaf rfl rfl

theorem returnValue (hg : g.Clears) (hc : ctx.Plain) : (g.returnValue ctx).Gives Stmt.Cleared := by
  refine .after fun _ => .after fun _ => .after fun c => .ite (fun _ => ?_) fun _ => ?_
  · exact .after fun _ => .pure (.returnValue fun e he => nomatch he)
  · refine (expression hg hc).bind fun value hv => .after fun _ => .pure (.returnValue fun e he => ?_)
    cases he
    exact hv

theorem throwValue (hg : g.Clears) (hc : ctx.Plain) : (g.throwValue ctx).Gives Stmt.Cleared :=
  .after fun _ => .after fun _ => .after fun _ => (expression hg hc).bind fun _ hv => .after fun _ =>
    .pure (.throwValue hv)

theorem handler (hg : g.Clears) (hc : ctx.Plain) : (g.handler ctx).Gives Handler.Cleared := by
  refine .after fun _ => .ite (fun _ => .pure .nil) fun _ => .after fun _ => .ite (fun _ => ?_) fun _ => ?_
  · refine (hg.pattern ctx).bind fun param hp => .after fun _ => ?_
    exact (block hg hc).bind fun body hb => .pure (.binding hp hb)
  · exact (block hg hc).bind fun body hb => .pure (.plain hb)

theorem finalizer (hg : g.Clears) (hc : ctx.Plain) : (g.finalizer ctx).Gives Finalizer.Cleared :=
  .after fun _ => .ite (fun _ => (block hg hc).bind fun _ hb => .pure (.block hb)) fun _ => .pure .nil

theorem tryBlock (hg : g.Clears) (hc : ctx.Plain) : (g.tryBlock ctx).Gives Stmt.Cleared := by
  refine .after fun _ => (block hg hc).bind fun body hb => ?_
  refine (handler hg hc).bind fun handler hh => (finalizer hg hc).bind fun finalizer hf => ?_
  split
  · exact .failure
  · exact .pure (.tryBlock hb hh hf)

theorem switchForm (g : Grammar) (ctx : Context) : (g.switchForm ctx).Gives Stmt.Cleared :=
  .after fun _ => .after fun _ => .after fun _ => .after fun _ => .after fun _ => .after fun _ =>
    .pure (.foreign .switch)

theorem withForm (g : Grammar) (ctx : Context) : (g.withForm ctx).Gives Stmt.Cleared :=
  .after fun _ => .after fun _ => .after fun _ => .after fun _ => .pure (.foreign .withStatement)

theorem labelled (g : Grammar) (ctx : Context) (name : String) :
    (g.labelled ctx name).Gives Stmt.Cleared := by
  refine .after fun _ => .after fun _ => .ite (fun _ => ?_) fun _ => ?_
  · exact .after fun _ => .after fun _ => .after fun _ => .pure (.foreign .label)
  · exact .after fun _ => .pure (.foreign .label)

theorem expressionStatement (hg : g.Clears) (hc : ctx.Plain) :
    (g.expressionStatement ctx).Gives Stmt.Cleared := by
  refine (expressionRule hg hc.withIn).bind fun value hv => .after fun _ => .ite (fun _ => ?_) fun _ => ?_
  · refine .after fun _ => ?_
    split
    · exact labelled g ctx _
    · exact .failure
  · exact .after fun _ => .pure (.expression hv)

theorem importStatement (hg : g.Clears) (hc : ctx.Plain) :
    (g.importStatement ctx).Gives Stmt.Cleared :=
  .after fun _ => .after fun _ => (expressionRule hg hc.withIn).bind fun _ hv => .after fun _ =>
    .pure (.expression hv)

theorem declaration? (hg : g.Clears) (hc : ctx.Plain) (declares : Bool) :
    (g.declaration? ctx declares).Offers Stmt.Cleared := by
  have hclass : (g.classDeclaration ctx).Gives Stmt.Cleared :=
    .after fun _ => .after fun _ => .pure (.foreign .classDefinition)
  refine .after fun next => .after fun kind => ?_
  cases kind with
  | some kind => exact (variableDeclaration hg hc kind).bind fun _ hs => .offer hs
  | none =>
    refine .after fun _ => .ite (fun _ => ?_) fun _ => .after fun _ => .ite (fun _ => ?_) fun _ =>
      .after fun _ => .ite (fun _ => ?_) fun _ => .stop
    · exact .after fun _ => .after fun _ =>
        (functionDeclaration hg hc false).bind fun _ hs => .offer hs
    · exact .after fun _ => .after fun _ => hclass.bind fun _ hs => .offer hs
    · exact .after fun _ => .after fun _ =>
        (functionDeclaration hg hc true).bind fun _ hs => .offer hs

theorem wordStatement? (hg : g.Clears) (hc : ctx.Plain) (word : String) :
    (g.wordStatement? ctx word).Offers Stmt.Cleared := by
  unfold Grammar.wordStatement?
  split
  · exact (branch hg hc).bind fun _ hs => .offer hs
  · exact (whileLoop hg hc).bind fun _ hs => .offer hs
  · exact (doLoop hg hc).bind fun _ hs => .offer hs
  · exact (forLoop hg hc).bind fun _ hs => .offer hs
  · exact (jump hc true).bind fun _ hs => .offer hs
  · exact (jump hc false).bind fun _ hs => .offer hs
  · exact (returnValue hg hc).bind fun _ hs => .offer hs
  · exact (throwValue hg hc).bind fun _ hs => .offer hs
  · exact (tryBlock hg hc).bind fun _ hs => .offer hs
  · exact (switchForm g ctx).bind fun _ hs => .offer hs
  · exact (withForm g ctx).bind fun _ hs => .offer hs
  · exact (importStatement hg hc).bind fun _ hs => .offer hs
  · exact .after fun _ => .after fun _ => .offer (.leaf rfl rfl)
  · exact .stop

theorem statementRule (hg : g.Clears) (hc : ctx.Plain) (declares : Bool) :
    (g.statementRule ctx declares).Gives Stmt.Cleared := by
  refine .after fun first => .after fun _ => ?_
  have hinside : { ctx with topLevel := false }.Plain := ⟨hc.1, hc.2, hc.3, hc.4, hc.5⟩
  refine .ite (fun _ => (block hg hinside).bind fun body hb => .pure (.block hb)) fun _ => ?_
  refine .after fun _ => .ite (fun _ => .pure (.leaf rfl rfl)) fun _ => ?_
  refine (declaration? hg hinside declares).bind fun found hfound => ?_
  cases found with
  | some stmt => exact .pure (hfound stmt rfl)
  | none =>
    dsimp only
    split
    · refine (wordStatement? hg hinside _).bind fun found hfound => ?_
      cases found with
      | some stmt => exact .pure (hfound stmt rfl)
      | none => exact expressionStatement hg hinside
    · exact expressionStatement hg hinside

end Clears

/-- Every rule leads back with one step less, so that what the rules below give is cleared already. -/
theorem clears_withSteps (n : Nat) : (withSteps n).Clears := by
  induction n with
  | zero => exact ⟨fun _ => .failure, fun _ => .failure, fun _ => .failure, fun _ => .failure,
      fun _ _ => .failure⟩
  | succ n ih =>
    exact ⟨ih.assignmentRule, fun hc => ih.unaryRule hc false, ih.constructRule,
      fun ctx => Clears.patternRule _ ctx, fun declares hc => ih.statementRule hc declares⟩

end Grammar

end Reprl.Source
