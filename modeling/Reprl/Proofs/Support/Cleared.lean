import Reprl.Proofs.Support.Case
import Reprl.Source.Support

/-! Parts of trees in which nothing unsupported was found. A list of parts is cleared if all of them
have a case, unless some construct in them is unsupported, or some part is of a kind that nothing
looks for. Each form of the syntax is cleared if what it is made of is. -/

namespace Reprl.Source

/-- Parts without a case that are supported nevertheless: they fail when they are evaluated. -/
def Node.isExcepted : Node → Bool
  | .unary op => op == .delete
  | .binary op => op == .instanceOf
  | .expr (.superMember _) | .expr (.importCall _) | .expr .newTarget => true
  | .expr (.assign _ target _) => !target.isNameOrMember
  | .expr (.update _ _ place) | .updated place => !(Evaluator.bare place).isNameOrMember
  | .propertyKey .bigInteger => true
  | _ => false

/-- A property that has a default, which is no property of an object. -/
def Node.isDefaulted : Node → Bool
  | .property p => p.isDefaulted
  | _ => false

/-- Whether all parts but the defaulted properties have a case, if no construct is found in the parts
and none of them is excepted. -/
def Cleared (found : Option Construct) (nodes : List Node) : Prop :=
  found = none → (∀ node ∈ nodes, node.isExcepted = false) →
    ∀ node ∈ nodes, node.isDefaulted = false → node.isCased = true

namespace Cleared

variable {first second third : Option Construct} {node : Node} {nodes rest : List Node}

theorem nil : Cleared first [] := fun _ _ _ hmem => absurd hmem List.not_mem_nil

theorem found (what : Construct) : Cleared (some what) nodes := fun h => nomatch h

theorem cons (hn : node.isExcepted = false → node.isDefaulted = false → node.isCased = true)
    (hr : Cleared first rest) : Cleared first (node :: rest) := by
  intro hfound hexcepted
  obtain ⟨hnode, hrest⟩ := List.forall_mem_cons.mp hexcepted
  exact List.forall_mem_cons.mpr ⟨hn hnode, hr hfound hrest⟩

theorem excepted (hn : node.isExcepted = true) : Cleared first (node :: rest) := by
  intro _ hexcepted
  have hnode := hexcepted node List.mem_cons_self
  rw [hn] at hnode
  cases hnode

theorem append (h : Cleared first nodes) (hr : Cleared second rest) :
    Cleared (first <|> second) (nodes ++ rest) := by
  intro hfound hexcepted
  obtain ⟨hfirst, hsecond⟩ : first = none ∧ second = none := by simpa using hfound
  obtain ⟨hnodes, hrest⟩ := List.forall_mem_append.mp hexcepted
  exact List.forall_mem_append.mpr ⟨h hfirst hnodes, hr hsecond hrest⟩

/-- A part may stand before others although what is in it is looked at after them. -/
theorem append_swap (h : Cleared first nodes) (hr : Cleared second rest) :
    Cleared (second <|> first) (nodes ++ rest) := by
  intro hfound hexcepted
  obtain ⟨hsecond, hfirst⟩ : second = none ∧ first = none := by simpa using hfound
  obtain ⟨hnodes, hrest⟩ := List.forall_mem_append.mp hexcepted
  exact List.forall_mem_append.mpr ⟨h hfirst hnodes, hr hsecond hrest⟩

theorem assoc (h : Cleared ((first <|> second) <|> third) nodes) :
    Cleared (first <|> second <|> third) nodes := by
  intro hfound
  refine h ?_
  simpa [and_assoc] using hfound

end Cleared

protected def Expr.Cleared (e : Expr) : Prop := Source.Cleared e.unsupported e.parts

protected def Stmt.Cleared (s : Stmt) : Prop := Source.Cleared s.unsupported s.parts

protected def Property.Cleared (p : Property) : Prop := Source.Cleared p.unsupported p.parts

/-- A key that names a property of an object. -/
def Key.NameCleared (k : Key) : Prop := Source.Cleared k.unsupported (.propertyKey k :: k.inner)

/-- A key that names a member of a value. -/
def Key.MemberCleared (k : Key) : Prop :=
  k.namesMember = true ∧ Source.Cleared k.unsupported k.inner

protected def Element.Cleared : Element → Prop
  | .item value => value.Cleared
  | .elision | .spread _ => True

protected def Hole.Cleared : Hole → Prop
  | .mk value _ => value.Cleared

/-- Patterns other than names are found, except for places that are left out. -/
protected def Pattern.Cleared (p : Pattern) : Prop := p.unsupported = none → p.isName = true

protected def Body.Cleared (body : Body) : Prop := Source.Cleared body.unsupported body.parts

protected def Function.Cleared (f : Function) : Prop :=
  ∀ asyncForm, Source.Cleared (f.unsupported asyncForm) f.parts

protected def Declarator.Cleared : Declarator → Prop
  | .mk target value => target.Cleared ∧ ∀ e, value = some e → e.Cleared

protected def ForStart.Cleared (start : ForStart) : Prop :=
  Source.Cleared start.unsupported start.parts

protected def Handler.Cleared (handler : Handler) : Prop :=
  Source.Cleared handler.unsupported handler.parts

protected def Finalizer.Cleared (finalizer : Finalizer) : Prop :=
  Source.Cleared finalizer.unsupported finalizer.parts

/-! Lists. -/

theorem Expr.cleared_list {items : List Expr} (h : ∀ e ∈ items, e.Cleared) :
    Cleared (Expr.unsupportedIn items) (Expr.partsIn items) := by
  induction items with
  | nil => exact .nil
  | cons e rest ih =>
    obtain ⟨he, hrest⟩ := List.forall_mem_cons.mp h
    exact he.append (ih hrest)

theorem Expr.cleared_option {value : Option Expr} (h : ∀ e, value = some e → e.Cleared) :
    Cleared (Expr.unsupportedOption value) (Expr.partsOption value) := by
  cases value with
  | none => exact .nil
  | some e => exact h e rfl

theorem Hole.cleared_list {holes : List Hole} (h : ∀ hole ∈ holes, hole.Cleared) :
    Cleared (Hole.unsupportedIn holes) (Hole.partsIn holes) := by
  induction holes with
  | nil => exact .nil
  | cons hole rest ih =>
    obtain ⟨hhole, hrest⟩ := List.forall_mem_cons.mp h
    obtain ⟨value, text⟩ := hole
    exact Cleared.append hhole (ih hrest)

theorem Element.cleared_list {elements : List Element} (h : ∀ e ∈ elements, e.Cleared) :
    Cleared (Element.unsupportedIn elements) (Element.partsIn elements) := by
  induction elements with
  | nil => exact .nil
  | cons element rest ih =>
    obtain ⟨helement, hrest⟩ := List.forall_mem_cons.mp h
    cases element with
    | elision => exact .cons (fun _ _ => rfl) (ih hrest)
    | item value => exact .cons (fun _ _ => rfl) (Cleared.append helement (ih hrest))
    | spread value => exact .found .spread

theorem Property.cleared_list {properties : List Property} (h : ∀ p ∈ properties, p.Cleared) :
    Cleared (Property.unsupportedIn properties) (Property.partsIn properties) := by
  induction properties with
  | nil => exact .nil
  | cons property rest ih =>
    obtain ⟨hproperty, hrest⟩ := List.forall_mem_cons.mp h
    exact Cleared.append hproperty (ih hrest)

theorem Stmt.cleared_list {statements : List Stmt} (h : ∀ s ∈ statements, s.Cleared) :
    Cleared (Stmt.unsupportedIn statements) (Stmt.partsIn statements) := by
  induction statements with
  | nil => exact .nil
  | cons stmt rest ih =>
    obtain ⟨hstmt, hrest⟩ := List.forall_mem_cons.mp h
    exact Cleared.append hstmt (ih hrest)

theorem Stmt.cleared_option {stmt : Option Stmt} (h : ∀ s, stmt = some s → s.Cleared) :
    Cleared (Stmt.unsupportedOption stmt) (Stmt.partsOption stmt) := by
  cases stmt with
  | none => exact .nil
  | some s => exact h s rfl

theorem Pattern.Cleared.parts {pattern : Pattern} (h : pattern.Cleared) (use : Pattern → Node)
    (hu : ∀ p, (use p).isCased = p.isName) :
    Source.Cleared pattern.unsupported (use pattern :: pattern.inner) := by
  cases pattern with
  | name name => exact .cons (fun _ _ => hu (.name name)) .nil
  | elision => exact absurd (h rfl) Bool.false_ne_true
  | _ => exact .found .pattern

theorem Pattern.cleared_params {params : List Pattern} (h : ∀ p ∈ params, p.Cleared) :
    Cleared (Pattern.unsupportedIn params) (Pattern.paramsIn params) := by
  induction params with
  | nil => exact .nil
  | cons param rest ih =>
    obtain ⟨hparam, hrest⟩ := List.forall_mem_cons.mp h
    exact (hparam.parts .param fun _ => rfl).append (ih hrest)

theorem Declarator.cleared_list {items : List Declarator} (h : ∀ item ∈ items, item.Cleared) :
    Cleared (Declarator.unsupportedIn items) (Declarator.partsIn items) := by
  induction items with
  | nil => exact .nil
  | cons item rest ih =>
    obtain ⟨hitem, hrest⟩ := List.forall_mem_cons.mp h
    obtain ⟨target, value⟩ := item
    have htarget := hitem.1.parts .bound fun _ => rfl
    exact ((htarget.append (Expr.cleared_option hitem.2)).append (ih hrest)).assoc

namespace Expr.Cleared

variable {e left right test yes no callee base value place : Expr}

theorem leaf (hc : e.isCased = true) (hi : e.inner = []) : e.Cleared := by
  rw [Expr.Cleared, Expr.parts, hi]
  exact .cons (fun _ _ => hc) .nil

theorem foreign (what : Construct) : (Expr.foreign what).Cleared := .found what

theorem template {holes : List Hole} (h : ∀ hole ∈ holes, hole.Cleared) (head : String) :
    (Expr.template head holes).Cleared := .cons (fun _ _ => rfl) (Hole.cleared_list h)

theorem paren (h : e.Cleared) : (Expr.paren e).Cleared := .cons (fun _ _ => rfl) h

theorem sequence {items : List Expr} (h : ∀ e ∈ items, e.Cleared) : (Expr.sequence items).Cleared :=
  .cons (fun _ _ => rfl) (Expr.cleared_list h)

theorem array {elements : List Element} (h : ∀ element ∈ elements, element.Cleared) :
    (Expr.array elements).Cleared := .cons (fun _ _ => rfl) (Element.cleared_list h)

theorem object {properties : List Property} (h : ∀ p ∈ properties, p.Cleared) :
    (Expr.object properties).Cleared := .cons (fun _ _ => rfl) (Property.cleared_list h)

theorem function {f : Function} (h : f.Cleared) : (Expr.function f).Cleared :=
  .cons (fun _ _ => rfl) (h .asyncFunction)

theorem arrow {f : Function} (h : f.Cleared) : (Expr.arrow f).Cleared :=
  .cons (fun _ _ => rfl) (h .asyncArrow)

theorem unary (op : UnaryOp) (h : e.Cleared) : (Expr.unary op e).Cleared :=
  .cons (fun _ _ => rfl) (.cons (by cases op <;> decide) h)

theorem binary (op : BinaryOp) (hl : left.Cleared) (hr : right.Cleared) :
    (Expr.binary op left right).Cleared :=
  .cons (fun _ _ => rfl) (.cons (by cases op <;> decide) (Source.Cleared.append hl hr))

theorem logical (op : LogicalOp) (hl : left.Cleared) (hr : right.Cleared) :
    (Expr.logical op left right).Cleared :=
  .cons (fun _ _ => rfl) (Source.Cleared.append hl hr)

theorem conditional (ht : test.Cleared) (hy : yes.Cleared) (hn : no.Cleared) :
    (Expr.conditional test yes no).Cleared :=
  .cons (fun _ _ => rfl) ((Source.Cleared.append ht hy).append hn).assoc

theorem update (op : UpdateOp) (before : Bool) (h : place.Cleared) :
    (Expr.update op before place).Cleared := by
  cases hplace : (Evaluator.bare place).isNameOrMember with
  | true => exact .cons (fun _ _ => hplace) (.cons (fun _ _ => hplace) h)
  | false => exact .excepted (Bool.not_eq_eq_eq_not.mpr hplace)

/-- A target that is a pattern, or a place in parentheses, is excepted. -/
theorem assign (op : AssignOp) {target : Target} (ht : ∀ place, target = .place place → place.Cleared)
    (hv : value.Cleared) : (Expr.assign op target value).Cleared := by
  cases target with
  | pattern pattern => exact .excepted rfl
  | place place =>
    have hplace := ht place rfl
    cases hname : place.isNameOrMember with
    | false => exact .excepted (Bool.not_eq_eq_eq_not.mpr hname)
    | true =>
      refine .cons (fun _ _ => hname) ?_
      cases op with
      | compound op => exact .cons (by cases op <;> decide) (Source.Cleared.append hplace hv)
      | _ => exact Source.Cleared.append hplace hv

theorem member {key : Key} (hb : base.Cleared) (hk : key.MemberCleared) :
    (Expr.member base key).Cleared :=
  .cons (fun _ _ => rfl) (.cons (fun _ _ => hk.1) (Source.Cleared.append hb hk.2))

theorem call {args : List Element} (hc : callee.Cleared) (ha : ∀ arg ∈ args, arg.Cleared) :
    (Expr.call callee args).Cleared :=
  .cons (fun _ _ => rfl) (Source.Cleared.append hc (Element.cleared_list ha))

theorem construct {args : List Element} (hc : callee.Cleared) (ha : ∀ arg ∈ args, arg.Cleared) :
    (Expr.construct callee args).Cleared :=
  .cons (fun _ _ => rfl) (Source.Cleared.append hc (Element.cleared_list ha))

theorem superMember (key : Key) : (Expr.superMember key).Cleared := .excepted rfl

theorem importCall (args : List Element) : (Expr.importCall args).Cleared := .excepted rfl

theorem newTarget : Expr.newTarget.Cleared := .excepted rfl

end Expr.Cleared

theorem Key.MemberCleared.name (text : String) : (Key.name text).MemberCleared := ⟨rfl, .nil⟩

theorem Key.MemberCleared.computed {value : Expr} (h : value.Cleared) :
    (Key.computed value).MemberCleared := ⟨rfl, h⟩

namespace Key.NameCleared

theorem leaf {key : Key} (hc : key.namesProperty = true) (hi : key.inner = []) : key.NameCleared := by
  rw [NameCleared, hi]
  exact .cons (fun _ _ => hc) .nil

theorem bigInteger : Key.bigInteger.NameCleared := .excepted rfl

theorem computed {value : Expr} (h : value.Cleared) : (Key.computed value).NameCleared :=
  .cons (fun _ _ => rfl) h

end Key.NameCleared

namespace Property.Cleared

variable {key : Key}

theorem keyed {value : Expr} (hk : key.NameCleared) (hv : value.Cleared) :
    (Property.keyed key value).Cleared :=
  .cons (fun _ _ => rfl) (Source.Cleared.append hk hv)

theorem shorthand (name : String) : (Property.shorthand name).Cleared := .cons (fun _ _ => rfl) .nil

theorem method {f : Function} (hk : key.NameCleared) (hf : f.Cleared) :
    (Property.method key f).Cleared :=
  .cons (fun _ _ => rfl) (Source.Cleared.append hk (hf .asyncFunction))

theorem defaulted (name : String) {value : Expr} (h : value.Cleared) :
    (Property.defaulted name value).Cleared := .cons (fun _ hno => nomatch hno) h

theorem spread (value : Expr) : (Property.spread value).Cleared := .found .spread

theorem foreign (what : Construct) : (Property.foreign what).Cleared := .found what

end Property.Cleared

namespace Function.Cleared

variable {name : Option String} {params : List Pattern} {body : Body} {async generator : Bool}

theorem mk (hp : ∀ p ∈ params, p.Cleared)
    (hb : async = false → generator = false → body.Cleared) :
    (Function.mk name params body async generator).Cleared := by
  intro asyncForm
  cases async with
  | true => exact .found asyncForm
  | false =>
    cases generator with
    | true => exact .found .generator
    | false => exact (Pattern.cleared_params hp).append (hb rfl rfl)

end Function.Cleared

theorem Body.Cleared.block {statements : List Stmt} (h : ∀ s ∈ statements, s.Cleared) :
    (Body.block statements).Cleared := Stmt.cleared_list h

theorem Body.Cleared.concise {value : Expr} (h : value.Cleared) : (Body.concise value).Cleared := h

theorem Handler.Cleared.plain {body : List Stmt} (h : ∀ s ∈ body, s.Cleared) :
    (Handler.plain body).Cleared := Stmt.cleared_list h

theorem Handler.Cleared.binding {param : Pattern} {body : List Stmt} (hp : param.Cleared)
    (h : ∀ s ∈ body, s.Cleared) : (Handler.binding param body).Cleared :=
  (hp.parts .bound fun _ => rfl).append (Stmt.cleared_list h)

theorem Finalizer.Cleared.block {body : List Stmt} (h : ∀ s ∈ body, s.Cleared) :
    (Finalizer.block body).Cleared := Stmt.cleared_list h

theorem ForStart.Cleared.declaration (kind : VarKind) {items : List Declarator}
    (h : ∀ item ∈ items, item.Cleared) : (ForStart.declaration kind items).Cleared :=
  Declarator.cleared_list h

theorem ForStart.Cleared.expression {value : Expr} (h : value.Cleared) :
    (ForStart.expression value).Cleared := h

namespace Stmt.Cleared

variable {test value : Expr} {stmt : Stmt} {body : List Stmt}

theorem leaf (hc : stmt.isCased = true) (hi : stmt.inner = []) : stmt.Cleared := by
  rw [Stmt.Cleared, Stmt.parts, hi]
  exact .cons (fun _ _ => hc) .nil

theorem foreign (what : Construct) : (Stmt.foreign what).Cleared := .found what

theorem expression (h : value.Cleared) : (Stmt.expression value).Cleared := .cons (fun _ _ => rfl) h

theorem declaration (kind : VarKind) {items : List Declarator} (h : ∀ item ∈ items, item.Cleared) :
    (Stmt.declaration kind items).Cleared :=
  .cons (fun _ _ => rfl) (Declarator.cleared_list h)

theorem function (name : String) {f : Function} (h : f.Cleared) : (Stmt.function name f).Cleared :=
  .cons (fun _ _ => rfl) (h .asyncFunction)

theorem block (h : ∀ s ∈ body, s.Cleared) : (Stmt.block body).Cleared :=
  .cons (fun _ _ => rfl) (Stmt.cleared_list h)

theorem branch {no : Option Stmt} (ht : test.Cleared) (hy : stmt.Cleared)
    (hn : ∀ s, no = some s → s.Cleared) : (Stmt.branch test stmt no).Cleared :=
  .cons (fun _ _ => rfl) ((Source.Cleared.append ht hy).append (Stmt.cleared_option hn)).assoc

theorem whileLoop (ht : test.Cleared) (hb : stmt.Cleared) : (Stmt.whileLoop test stmt).Cleared :=
  .cons (fun _ _ => rfl) (Source.Cleared.append ht hb)

theorem doLoop (hb : stmt.Cleared) (ht : test.Cleared) : (Stmt.doLoop stmt test).Cleared :=
  .cons (fun _ _ => rfl) (Source.Cleared.append_swap hb ht)

theorem forLoop {start : ForStart} {test update : Option Expr} (hs : start.Cleared)
    (ht : ∀ e, test = some e → e.Cleared) (hu : ∀ e, update = some e → e.Cleared)
    (hb : stmt.Cleared) : (Stmt.forLoop start test update stmt).Cleared := by
  have hhead := (Source.Cleared.append hs (Expr.cleared_option ht)).append (Expr.cleared_option hu)
  exact .cons (fun _ _ => rfl) (hhead.append hb).assoc.assoc

theorem returnValue {value : Option Expr} (h : ∀ e, value = some e → e.Cleared) :
    (Stmt.returnValue value).Cleared := .cons (fun _ _ => rfl) (Expr.cleared_option h)

theorem throwValue (h : value.Cleared) : (Stmt.throwValue value).Cleared := .cons (fun _ _ => rfl) h

theorem tryBlock {handler : Handler} {finalizer : Finalizer} (hb : ∀ s ∈ body, s.Cleared)
    (hh : handler.Cleared) (hf : finalizer.Cleared) :
    (Stmt.tryBlock body handler finalizer).Cleared :=
  .cons (fun _ _ => rfl) (((Stmt.cleared_list hb).append hh).append hf).assoc

end Stmt.Cleared

end Reprl.Source
