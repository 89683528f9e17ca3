import Reprl.Proofs.Policy.Abides

/-! Code that refers to no name but those of a policy. Neither do its parts. -/

namespace Reprl.Source

open Policy Setting

mutual

theorem Expr.permits_parts (P : Policy) (e : Expr) (h : P.Spells e.identifiers) :
    P.setting.Permits e.parts := by
  refine permits_cons.mpr ⟨h, ?_⟩
  cases e with
  | identifier | number | string | bool | null | newTarget | foreign => exact permits_nil
  | template strings holes => exact Hole.permits_list P holes h
  | paren e => exact e.permits_parts P h
  | sequence items => exact Expr.permits_list P items h
  | array elements => exact Element.permits_list P elements h
  | object properties => exact Property.permits_list P properties h
  | function f => exact f.permits_parts P h
  | arrow f => exact f.permits_parts P h
  | unary op arg => exact permits_cons.mpr ⟨P.spells_nil, arg.permits_parts P h⟩
  | binary op left right =>
    obtain ⟨hl, hr⟩ := P.spells_append.mp h
    refine permits_append.mpr ⟨?_, right.permits_parts P hr⟩
    exact permits_cons.mpr ⟨P.spells_nil, left.permits_parts P hl⟩
  | logical op left right =>
    obtain ⟨hl, hr⟩ := P.spells_append.mp h
    exact permits_append.mpr ⟨left.permits_parts P hl, right.permits_parts P hr⟩
  | conditional test yes no =>
    simp only [Expr.identifiers, spells_append] at h
    obtain ⟨⟨ht, hy⟩, hn⟩ := h
    refine permits_append.mpr ⟨?_, no.permits_parts P hn⟩
    exact permits_append.mpr ⟨test.permits_parts P ht, yes.permits_parts P hy⟩
  | update op before place => exact permits_cons.mpr ⟨P.spells_nil, place.permits_parts P h⟩
  | assign op target value =>
    obtain ⟨ht, hv⟩ := P.spells_append.mp h
    have hparts := permits_append.mpr ⟨target.permits_parts P ht, value.permits_parts P hv⟩
    cases op with
    | compound op => exact permits_cons.mpr ⟨P.spells_nil, hparts⟩
    | plain | logical => exact hparts
  | member object key =>
    obtain ⟨ho, hk⟩ := P.spells_append.mp h
    refine permits_append.mpr ⟨?_, key.permits_inner P hk⟩
    exact permits_cons.mpr ⟨P.spells_nil, object.permits_parts P ho⟩
  | call callee args =>
    obtain ⟨hc, ha⟩ := P.spells_append.mp h
    exact permits_append.mpr ⟨callee.permits_parts P hc, Element.permits_list P args ha⟩
  | construct callee args =>
    obtain ⟨hc, ha⟩ := P.spells_append.mp h
    exact permits_append.mpr ⟨callee.permits_parts P hc, Element.permits_list P args ha⟩
  | superMember key => exact permits_cons.mpr ⟨P.spells_nil, key.permits_inner P h⟩
  | superCall args => exact Element.permits_list P args h
  | importCall args => exact Element.permits_list P args h
  | await arg => exact arg.permits_parts P h
  | yield arg => exact Expr.permits_option P arg h

theorem Expr.permits_option (P : Policy) (e : Option Expr)
    (h : P.Spells (Expr.identifiersOption e)) : P.setting.Permits (Expr.partsOption e) := by
  cases e with
  | none => exact permits_nil
  | some e => exact e.permits_parts P h

theorem Expr.permits_list (P : Policy) (items : List Expr)
    (h : P.Spells (Expr.identifiersIn items)) : P.setting.Permits (Expr.partsIn items) := by
  cases items with
  | nil => exact permits_nil
  | cons e rest =>
    obtain ⟨he, hrest⟩ := P.spells_append.mp h
    exact permits_append.mpr ⟨e.permits_parts P he, Expr.permits_list P rest hrest⟩

theorem Hole.permits_list (P : Policy) (holes : List Hole)
    (h : P.Spells (Hole.identifiersIn holes)) : P.setting.Permits (Hole.partsIn holes) := by
  cases holes with
  | nil => exact permits_nil
  | cons hole rest =>
    obtain ⟨value, text⟩ := hole
    obtain ⟨hv, hrest⟩ := P.spells_append.mp h
    exact permits_append.mpr ⟨value.permits_parts P hv, Hole.permits_list P rest hrest⟩

theorem Element.permits_list (P : Policy) (elements : List Element)
    (h : P.Spells (Element.identifiersIn elements)) :
    P.setting.Permits (Element.partsIn elements) := by
  cases elements with
  | nil => exact permits_nil
  | cons element rest =>
    obtain ⟨he, hrest⟩ := P.spells_append.mp h
    refine permits_append.mpr ⟨permits_cons.mpr ⟨he, ?_⟩, Element.permits_list P rest hrest⟩
    cases element with
    | elision => exact permits_nil
    | item value => exact value.permits_parts P he
    | spread value => exact value.permits_parts P he

theorem Property.permits_list (P : Policy) (properties : List Property)
    (h : P.Spells (Property.identifiersIn properties)) :
    P.setting.Permits (Property.partsIn properties) := by
  cases properties with
  | nil => exact permits_nil
  | cons property rest =>
    obtain ⟨hp, hrest⟩ := P.spells_append.mp h
    refine permits_append.mpr ⟨permits_cons.mpr ⟨hp, ?_⟩, Property.permits_list P rest hrest⟩
    cases property with
    | keyed key value =>
      obtain ⟨hk, hv⟩ := P.spells_append.mp hp
      refine permits_append.mpr ⟨?_, value.permits_parts P hv⟩
      exact permits_cons.mpr ⟨P.spells_nil, key.permits_inner P hk⟩
    | method key f =>
      obtain ⟨hk, hf⟩ := P.spells_append.mp hp
      refine permits_append.mpr ⟨?_, f.permits_parts P hf⟩
      exact permits_cons.mpr ⟨P.spells_nil, key.permits_inner P hk⟩
    | defaulted name value => exact value.permits_parts P (P.spells_cons.mp hp).2
    | spread value => exact value.permits_parts P hp
    | shorthand | foreign => exact permits_nil

theorem Key.permits_inner (P : Policy) (key : Key) (h : P.Spells key.identifiers) :
    P.setting.Permits key.inner := by
  cases key with
  | computed value => exact value.permits_parts P h
  | _ => exact permits_nil

theorem Target.permits_parts (P : Policy) (target : Target) (h : P.Spells target.identifiers) :
    P.setting.Permits target.parts := by
  cases target with
  | place e => exact e.permits_parts P h
  | pattern pattern => exact pattern.permits_inner P h

theorem Pattern.permits_inner (P : Policy) (pattern : Pattern) (h : P.Spells pattern.identifiers) :
    P.setting.Permits pattern.inner := by
  cases pattern with
  | name | elision => exact permits_nil
  | array elements => exact Pattern.permits_list P elements h
  | object properties => exact PatternProperty.permits_list P properties h
  | defaulted pattern value =>
    obtain ⟨hp, hv⟩ := P.spells_append.mp h
    exact permits_append.mpr ⟨pattern.permits_inner P hp, value.permits_parts P hv⟩
  | rest pattern => exact pattern.permits_inner P h
  | place e => exact e.permits_parts P h

theorem Pattern.permits_list (P : Policy) (patterns : List Pattern)
    (h : P.Spells (Pattern.identifiersIn patterns)) :
    P.setting.Permits (Pattern.innerIn patterns) := by
  cases patterns with
  | nil => exact permits_nil
  | cons pattern rest =>
    obtain ⟨hp, hrest⟩ := P.spells_append.mp h
    exact permits_append.mpr ⟨pattern.permits_inner P hp, Pattern.permits_list P rest hrest⟩

theorem PatternProperty.permits_list (P : Policy) (properties : List PatternProperty)
    (h : P.Spells (PatternProperty.identifiersIn properties)) :
    P.setting.Permits (PatternProperty.innerIn properties) := by
  cases properties with
  | nil => exact permits_nil
  | cons property rest =>
    cases property with
    | keyed key value =>
      simp only [PatternProperty.identifiersIn, spells_append] at h
      obtain ⟨⟨hk, hv⟩, hrest⟩ := h
      refine permits_append.mpr ⟨?_, PatternProperty.permits_list P rest hrest⟩
      refine permits_append.mpr ⟨?_, value.permits_inner P hv⟩
      exact permits_cons.mpr ⟨P.spells_nil, key.permits_inner P hk⟩
    | shorthand name value =>
      simp only [PatternProperty.identifiersIn, List.cons_append, spells_cons, spells_append] at h
      obtain ⟨-, hv, hrest⟩ := h
      exact permits_append.mpr
        ⟨Expr.permits_option P value hv, PatternProperty.permits_list P rest hrest⟩
    | rest pattern =>
      obtain ⟨hp, hrest⟩ := P.spells_append.mp h
      exact permits_append.mpr
        ⟨pattern.permits_inner P hp, PatternProperty.permits_list P rest hrest⟩

theorem Pattern.permits_params (P : Policy) (params : List Pattern)
    (h : P.Spells (Pattern.identifiersIn params)) : P.setting.Permits (Pattern.paramsIn params) := by
  cases params with
  | nil => exact permits_nil
  | cons param rest =>
    obtain ⟨hp, hrest⟩ := P.spells_append.mp h
    refine permits_append.mpr ⟨?_, Pattern.permits_params P rest hrest⟩
    exact permits_cons.mpr ⟨P.spells_nil, param.permits_inner P hp⟩

theorem Function.permits_parts (P : Policy) (f : Function) (h : P.Spells f.identifiers) :
    P.setting.Permits f.parts := by
  obtain ⟨name, params, body, async, generator⟩ := f
  simp only [Function.identifiers, spells_append] at h
  exact permits_append.mpr ⟨Pattern.permits_params P params h.1.2, body.permits_parts P h.2⟩

theorem Body.permits_parts (P : Policy) (body : Body) (h : P.Spells body.identifiers) :
    P.setting.Permits body.parts := by
  cases body with
  | block statements => exact Stmt.permits_list P statements h
  | concise value => exact value.permits_parts P h

theorem Stmt.permits_parts (P : Policy) (s : Stmt) (h : P.Spells s.identifiers) :
    P.setting.Permits s.parts := by
  refine permits_cons.mpr ⟨h, ?_⟩
  cases s with
  | empty | debugger | breakOff | continueOn | foreign => exact permits_nil
  | expression value => exact value.permits_parts P h
  | throwValue value => exact value.permits_parts P h
  | declaration kind items => exact Declarator.permits_list P items h
  | function name f => exact f.permits_parts P (P.spells_cons.mp h).2
  | block body => exact Stmt.permits_list P body h
  | branch test yes no =>
    simp only [Stmt.identifiers, spells_append] at h
    obtain ⟨⟨ht, hy⟩, hn⟩ := h
    refine permits_append.mpr ⟨?_, Stmt.permits_option P no hn⟩
    exact permits_append.mpr ⟨test.permits_parts P ht, yes.permits_parts P hy⟩
  | whileLoop test body =>
    obtain ⟨ht, hb⟩ := P.spells_append.mp h
    exact permits_append.mpr ⟨test.permits_parts P ht, body.permits_parts P hb⟩
  | doLoop body test =>
    obtain ⟨hb, ht⟩ := P.spells_append.mp h
    exact permits_append.mpr ⟨body.permits_parts P hb, test.permits_parts P ht⟩
  | forLoop start test update body =>
    simp only [Stmt.identifiers, spells_append] at h
    obtain ⟨⟨⟨hs, ht⟩, hu⟩, hb⟩ := h
    refine permits_append.mpr ⟨?_, body.permits_parts P hb⟩
    refine permits_append.mpr ⟨?_, Expr.permits_option P update hu⟩
    exact permits_append.mpr ⟨start.permits_parts P hs, Expr.permits_option P test ht⟩
  | returnValue value => exact Expr.permits_option P value h
  | tryBlock body handler finalizer =>
    simp only [Stmt.identifiers, spells_append] at h
    obtain ⟨⟨hb, hh⟩, hf⟩ := h
    refine permits_append.mpr ⟨?_, finalizer.permits_parts P hf⟩
    exact permits_append.mpr ⟨Stmt.permits_list P body hb, handler.permits_parts P hh⟩

theorem Stmt.permits_option (P : Policy) (s : Option Stmt)
    (h : P.Spells (Stmt.identifiersOption s)) : P.setting.Permits (Stmt.partsOption s) := by
  cases s with
  | none => exact permits_nil
  | some s => exact s.permits_parts P h

theorem Stmt.permits_list (P : Policy) (statements : List Stmt)
    (h : P.Spells (Stmt.identifiersIn statements)) : P.setting.Permits (Stmt.partsIn statements) := by
  cases statements with
  | nil => exact permits_nil
  | cons s rest =>
    obtain ⟨hs, hrest⟩ := P.spells_append.mp h
    exact permits_append.mpr ⟨s.permits_parts P hs, Stmt.permits_list P rest hrest⟩

theorem Declarator.permits_list (P : Policy) (items : List Declarator)
    (h : P.Spells (Declarator.identifiersIn items)) :
    P.setting.Permits (Declarator.partsIn items) := by
  cases items with
  | nil => exact permits_nil
  | cons item rest =>
    obtain ⟨target, value⟩ := item
    simp only [Declarator.identifiersIn, spells_append] at h
    obtain ⟨⟨ht, hv⟩, hrest⟩ := h
    refine permits_append.mpr ⟨?_, Declarator.permits_list P rest hrest⟩
    refine permits_append.mpr ⟨?_, Expr.permits_option P value hv⟩
    exact permits_cons.mpr ⟨P.spells_nil, target.permits_inner P ht⟩

theorem ForStart.permits_parts (P : Policy) (start : ForStart) (h : P.Spells start.identifiers) :
    P.setting.Permits start.parts := by
  cases start with
  | absent => exact permits_nil
  | declaration kind items => exact Declarator.permits_list P items h
  | expression value => exact value.permits_parts P h

theorem Handler.permits_parts (P : Policy) (handler : Handler) (h : P.Spells handler.identifiers) :
    P.setting.Permits handler.parts := by
  cases handler with
  | absent => exact permits_nil
  | plain body => exact Stmt.permits_list P body h
  | binding param body =>
    obtain ⟨hp, hb⟩ := P.spells_append.mp h
    refine permits_append.mpr ⟨?_, Stmt.permits_list P body hb⟩
    exact permits_cons.mpr ⟨P.spells_nil, param.permits_inner P hp⟩

theorem Finalizer.permits_parts (P : Policy) (finalizer : Finalizer)
    (h : P.Spells finalizer.identifiers) : P.setting.Permits finalizer.parts := by
  cases finalizer with
  | absent => exact permits_nil
  | block body => exact Stmt.permits_list P body h

end

end Reprl.Source
