import Reprl.Machine.Call
import Reprl.Proofs.Outcome
import Reprl.Proofs.Source.Parts
import Reprl.Source.Cover

/-! Parts of scripts that have a case of their own. Rules that do not know a part throw an error
that says so. A rule knows a part if it throws no such error, whatever it finds inside of the part.
Whether it does turns out to be a matter of the form of the part. -/

namespace Reprl

open Source

namespace Run

variable {α β : Type} {texts : List String}

/-- An action that never throws the error with one of some texts. -/
def Spares (texts : List String) (action : Run α) : Prop :=
  ∀ m ref m', action m = (.error (.thrown (.object ref)), m') →
    ∀ text ∈ texts, m'.heap.object ref ≠ .error "SyntaxError" text

end Run

/-- An evaluator that never throws and gives no objects. With it a script has no errors to throw. -/
structure Evaluator.Quiet (E : Evaluator) : Prop where
  eval (e : Expr) (env : Env) (m : Machine) :
    ∃ value m', E.eval e env m = (.ok value, m') ∧ ∀ ref, value ≠ .object ref
  exec (stmt : Stmt) (env : Env) (m : Machine) : ∃ flow m', E.exec stmt env m = (.ok flow, m')
  call (callee : Value) (args : List Value) (m : Machine) :
    ∃ value m', E.call callee args m = (.ok value, m')
  display (value : Value) (m : Machine) : ∃ text m', E.display value m = (.ok text, m')

/-- The evaluator that takes every part for nothing. -/
def Evaluator.idle : Evaluator where
  eval _ _ := pure .undefined
  exec _ _ := pure .normal
  call _ _ := pure .undefined
  display _ := pure ""
  laps := 0

theorem Evaluator.quiet_idle : Evaluator.idle.Quiet where
  eval _ _ m := ⟨.undefined, m, rfl, fun _ h => nomatch h⟩
  exec _ _ m := ⟨.normal, m, rfl⟩
  call _ _ m := ⟨.undefined, m, rfl⟩
  display _ m := ⟨"", m, rfl⟩

namespace Source

def Expr.isNameOrMember : Expr → Bool
  | .identifier _ | .member .. => true
  | _ => false

def Target.isNameOrMember : Target → Bool
  | .place e => e.isNameOrMember
  | .pattern _ => false

/-! What rules say about parts that they do not know. -/

def Stmt.refusals : List String := ["unsupported statement"]

def Expr.refusals : List String :=
  ["unsupported expression", "unsupported callee", "Invalid left-hand side in assignment"]

def Property.refusals : List String := ["unsupported property", "unsupported spread"]

def Key.nameRefusals : List String := ["unsupported property name"]

def Key.memberRefusals : List String := ["unsupported member"]

def Expr.placeRefusals : List String := ["Invalid left-hand side in assignment"]

def Pattern.refusals : List String := ["destructuring is not supported"]

def UnaryOp.refusals : List String := ["unsupported unary operator"]

def BinaryOp.refusals : List String := ["unsupported binary operator"]

/-- Whether a part has a case of its own: whatever is found in the parts inside of it, its rule does
not say that it does not know the part. A spread is read as the value that it spreads, and a
parameter may be left out, so that they have a case is not only a matter of errors. -/
def Node.HasCase (node : Node) : Prop :=
  match node with
  | .stmt s => ∀ E : Evaluator, E.Quiet → ∀ env, Run.Spares Stmt.refusals (E.execRule s env)
  | .expr e => ∀ E : Evaluator, E.Quiet → ∀ env, Run.Spares Expr.refusals (E.evalRule e env)
  | .element e => ∀ value, e ≠ .spread value
  | .property p =>
    ∀ E : Evaluator, E.Quiet → ∀ env, Run.Spares Property.refusals (E.evalProperty env p)
  | .propertyKey k =>
    ∀ E : Evaluator, E.Quiet → ∀ env, Run.Spares Key.nameRefusals (E.propertyName env k)
  | .memberKey k =>
    ∀ E : Evaluator, E.Quiet → ∀ env, Run.Spares Key.memberRefusals (E.memberName env k)
  | .updated place => ∀ E : Evaluator, E.Quiet → ∀ env value,
      Run.Spares Expr.placeRefusals (E.storeIn env (Evaluator.bare place) value)
  | .bound p => Run.Spares Pattern.refusals (Run.patternName p)
  | .param p => Run.Spares Pattern.refusals (Run.patternName p) ∧ (Run.paramName? p).isSome
  | .unary op => ∀ E : Evaluator, E.Quiet → ∀ a, Run.Spares UnaryOp.refusals (E.unary op a)
  | .binary op => ∀ E : Evaluator, E.Quiet → ∀ a b, Run.Spares BinaryOp.refusals (E.binary op a b)

def Stmt.isCased : Stmt → Bool
  | .breakOff label | .continueOn label => label.isNone
  | .foreign _ => false
  | _ => true

def Expr.isCased : Expr → Bool
  | .assign _ target _ => target.isNameOrMember
  | .update _ _ place => (Evaluator.bare place).isNameOrMember
  | .superMember _ | .superCall _ | .importCall _ | .newTarget | .await _ | .yield _
  | .foreign _ => false
  | _ => true

def Element.isCased : Element → Bool
  | .spread _ => false
  | _ => true

def Property.isCased : Property → Bool
  | .keyed .. | .shorthand _ | .method .. => true
  | _ => false

def Key.namesProperty : Key → Bool
  | .bigInteger | .classPrivate _ => false
  | _ => true

def Key.namesMember : Key → Bool
  | .name _ | .computed _ => true
  | _ => false

/-- The parts that have a case, by their form. -/
def Node.isCased : Node → Bool
  | .stmt s => s.isCased
  | .expr e => e.isCased
  | .element e => e.isCased
  | .property p => p.isCased
  | .propertyKey k => k.namesProperty
  | .memberKey k => k.namesMember
  | .updated place => (Evaluator.bare place).isNameOrMember
  | .bound p | .param p => p.isName
  | .unary op => op != .delete
  | .binary op => op != .instanceOf

end Source

theorem Object.error_inj {name name' text text' : String}
    (h : Object.error name text = .error name' text') : name = name' ∧ text = text' := by
  have hname : some (Value.string name) = some (.string name') := congrArg (·.get? "name") h
  have htext : some (Value.string text) = some (.string text') := congrArg (·.get? "message") h
  exact ⟨Value.string.inj (Option.some.inj hname), Value.string.inj (Option.some.inj htext)⟩

namespace Run

variable {α β : Type} {texts : List String}

theorem object_raiseError {name text : String} {m m' : Machine} {ref : Ref}
    (h : (raiseError name text : Run α) m = (.error (.thrown (.object ref)), m')) :
    m'.heap.object ref = .error name text := by
  have hraise : (raiseError name text : Run α) m = (.error (.thrown (.object m.heap.next)),
      { m with heap := m.heap.add (.object (.error name text)) }) := rfl
  rw [hraise] at h
  cases h
  rw [Heap.object, Heap.add, Heap.next, Array.getElem?_push_size]

theorem hoist_ok (env : Env) (body : List Stmt) (m : Machine) :
    ∃ m', hoist env body m = (.ok (), m') := by
  induction body generalizing m with
  | nil => exact ⟨m, rfl⟩
  | cons stmt rest ih =>
    cases stmt with
    | function name f =>
      cases env with
      | nil => exact ih _
      | cons scope outer => exact ih _
    | _ => exact ih m

namespace Spares

theorem of_ok {action : Run α} (h : ∀ m, ∃ x m', action m = (.ok x, m')) : Spares texts action := by
  intro m ref m' hrun
  obtain ⟨x, after, hok⟩ := h m
  rw [hok] at hrun
  cases hrun

theorem pure (x : α) : Spares texts (Pure.pure x) := of_ok fun m => ⟨x, m, rfl⟩

theorem exhaust : Spares texts (Action.exhaust : Run α) := fun _ _ _ h => nomatch h

theorem modifyHeap (f : Heap → Heap) : Spares texts (modifyHeap f) := of_ok fun _ => ⟨_, _, rfl⟩

theorem onHeap (operation : Heap → α × Heap) : Spares texts (onHeap operation) :=
  of_ok fun _ => ⟨_, _, rfl⟩

theorem newIdentity : Spares texts newIdentity := of_ok fun _ => ⟨_, _, rfl⟩

theorem track (ref : Ref) : Spares texts (track ref) := of_ok fun _ => ⟨_, _, rfl⟩

theorem get : Spares texts (MonadState.get : Run Machine) := of_ok fun _ => ⟨_, _, rfl⟩

theorem bind {action : Run α} {next : α → Run β} (h : Spares texts action)
    (hn : ∀ x, Spares texts (next x)) : Spares texts (action >>= next) := by
  intro m ref m' hrun
  rw [Action.bind_apply] at hrun
  rcases ha : action m with ⟨e | x, after⟩
  · rw [ha] at hrun
    cases hrun
    exact h m ref m' ha
  · rw [ha] at hrun
    exact hn x after ref m' hrun

theorem of_bind {action : Run α} {next : α → Run β} (h : Spares texts (action >>= next)) :
    Spares texts action := by
  intro m ref m' hrun
  exact h m ref m' (Action.bind_of_error hrun next)

theorem of_pure_bind {x : α} {next : α → Run β} (h : Spares texts (Pure.pure x >>= next)) :
    Spares texts (next x) := by rwa [pure_bind] at h

/-- All errors but those of the syntax are spared. -/
theorem raiseOther {name : String} (hn : name ≠ "SyntaxError") (text : String) :
    Spares texts (raiseError name text : Run α) := by
  intro m ref m' hrun other hmem heq
  rw [object_raiseError hrun] at heq
  exact hn (Object.error_inj heq).1

theorem raiseText {text : String} (ht : text ∉ texts) :
    Spares texts (raiseError "SyntaxError" text : Run α) := by
  intro m ref m' hrun other hmem heq
  rw [object_raiseError hrun] at heq
  exact ht ((Object.error_inj heq).2 ▸ hmem)

theorem not_raiseError {text : String} (ht : text ∈ texts) :
    ¬Spares texts (raiseError "SyntaxError" text : Run α) :=
  fun h => h {} _ _ rfl text ht (object_raiseError (α := α) rfl)

theorem newObject (o : Object) : Spares texts (newObject o) := (onHeap _).bind fun _ => pure _

theorem newArray (elements : Array Value) : Spares texts (newArray elements) :=
  (onHeap _).bind fun _ => pure _

theorem newFunction (f : Callable) : Spares texts (newFunction f) := newIdentity.bind fun _ => pure _

theorem childScope (env : Env) : Spares texts (childScope env) :=
  (onHeap _).bind fun ref => (track ref).bind fun _ => pure _

theorem declare (env : Env) (name : String) (value : Value) (mutable : Bool) :
    Spares texts (declare env name value mutable) := by
  cases env with
  | nil => exact pure ()
  | cons scope outer => exact onHeap fun heap => ((), heap.declare scope name value mutable)

theorem lookup (env : Env) (name : String) : Spares texts (lookup env name) := by
  refine get.bind fun m => ?_
  split
  · exact pure _
  · exact raiseOther (by decide) _

theorem assign (env : Env) (name : String) (value : Value) :
    Spares texts (assign env name value) := by
  refine (onHeap _).bind fun result => ?_
  rcases result with (_ | _) | _
  · exact declare globalEnv name value true
  · exact raiseOther (by decide) _
  · exact pure ()

theorem getProperty (value : Value) (key : String) : Spares texts (getProperty value key) := by
  cases value with
  | undefined => exact raiseOther (by decide) _
  | null => exact raiseOther (by decide) _
  | object ref => exact get.bind fun _ => pure _
  | array ref => exact get.bind fun _ => pure _
  | symbol identity description =>
    cases description with
    | none => exact pure _
    | some description => exact pure _
  | _ => exact pure _

theorem setProperty (target : Value) (key : String) (value : Value) :
    Spares texts (setProperty target key value) := by
  cases target with
  | undefined => exact raiseOther (by decide) _
  | null => exact raiseOther (by decide) _
  | object ref => exact (track ref).bind fun _ => modifyHeap _
  | array ref => exact (track ref).bind fun _ => modifyHeap _
  | _ => exact pure _

theorem patternName (ht : "destructuring is not supported" ∉ texts) (pattern : Pattern) :
    Spares texts (patternName pattern) := by
  cases pattern with
  | name name => exact pure name
  | _ => exact raiseText ht

theorem patternNames (ht : "destructuring is not supported" ∉ texts) (patterns : List Pattern) :
    Spares texts (patterns.mapM Run.patternName) := by
  induction patterns with
  | nil => exact pure []
  | cons pattern rest ih =>
    rw [List.mapM_cons]
    exact (patternName ht pattern).bind fun _ => ih.bind fun _ => pure _

end Spares

end Run

/-! What rules do with quiet parts. -/

namespace Evaluator

open Run (Spares)

variable {E : Evaluator} {texts : List String} {env : Env}

namespace Quiet

theorem spares_eval (hE : E.Quiet) (e : Expr) (env : Env) : Spares texts (E.eval e env) :=
  .of_ok fun m => by
    obtain ⟨value, m', hrun, -⟩ := hE.eval e env m
    exact ⟨value, m', hrun⟩

theorem spares_exec (hE : E.Quiet) (stmt : Stmt) (env : Env) : Spares texts (E.exec stmt env) :=
  .of_ok (hE.exec stmt env)

theorem spares_call (hE : E.Quiet) (callee : Value) (args : List Value) :
    Spares texts (E.call callee args) := .of_ok (hE.call callee args)

theorem spares_display (hE : E.Quiet) (value : Value) : Spares texts (E.display value) :=
  .of_ok (hE.display value)

theorem spares_stringOf (hE : E.Quiet) (value : Value) : Spares texts (E.stringOf value) := by
  cases value with
  | symbol identity description => exact .raiseOther (by decide) _
  | _ => exact hE.spares_display _

theorem spares_numberOf (hE : E.Quiet) (value : Value) : Spares texts (E.numberOf value) := by
  cases value with
  | symbol identity description => exact .raiseOther (by decide) _
  | object ref => exact (hE.spares_display _).bind fun _ => .pure _
  | array ref => exact (hE.spares_display _).bind fun _ => .pure _
  | function identity f => exact (hE.spares_display _).bind fun _ => .pure _
  | _ => exact .pure _

theorem spares_unary (hE : E.Quiet) {op : UnaryOp}
    (h : op = .delete → "unsupported unary operator" ∉ texts) (a : Value) :
    Spares texts (E.unary op a) := by
  cases op with
  | minus => exact (hE.spares_numberOf a).bind fun _ => .pure _
  | plus => exact (hE.spares_numberOf a).bind fun _ => .pure _
  | complement => exact (hE.spares_numberOf a).bind fun _ => .pure _
  | not => exact .pure _
  | typeof => exact .pure _
  | void => exact .pure _
  | delete => exact .raiseText (h rfl)

/-- What operators on two numbers do. -/
theorem spares_numbers (hE : E.Quiet) {α : Type} (a b : Value) (f : Float → Float → α) :
    Spares texts (do
      let x ← E.numberOf a
      let y ← E.numberOf b
      return f x y) :=
  (hE.spares_numberOf a).bind fun _ => (hE.spares_numberOf b).bind fun _ => .pure _

theorem spares_binary (hE : E.Quiet) {op : BinaryOp}
    (h : op = .instanceOf → "unsupported binary operator" ∉ texts) (a b : Value) :
    Spares texts (E.binary op a b) := by
  have hadd : Spares texts (E.add a b) := by
    rw [Evaluator.add]
    split
    · exact (hE.spares_stringOf a).bind fun _ => (hE.spares_stringOf b).bind fun _ => .pure _
    · exact hE.spares_numbers a b _
  have hmembership : Spares texts (E.membership a b) := by
    cases b with
    | object ref => exact (hE.spares_stringOf a).bind fun _ => Spares.get.bind fun _ => .pure _
    | _ => exact .raiseOther (by decide) _
  have hcomparison : ∀ strings numbers, Spares texts (E.comparison a b strings numbers) := by
    intro strings numbers
    unfold Evaluator.comparison
    split
    · exact .pure _
    · exact hE.spares_numbers a b _
  cases op with
  | add => exact hadd
  | membership => exact hmembership
  | less => exact hcomparison _ _
  | lessEqual => exact hcomparison _ _
  | greater => exact hcomparison _ _
  | greaterEqual => exact hcomparison _ _
  | equal => exact .pure _
  | notEqual => exact .pure _
  | strictEqual => exact .pure _
  | strictNotEqual => exact .pure _
  | instanceOf => exact .raiseText (h rfl)
  | _ => exact hE.spares_numbers a b _

/-! Expressions. -/

theorem spares_evalElements (hE : E.Quiet) (done : Array Value) (elements : List Element) :
    Spares texts (E.evalElements env done elements) := by
  induction elements generalizing done with
  | nil => exact .pure done
  | cons element rest ih =>
    cases element with
    | elision => exact (Spares.pure _).bind fun _ => ih _
    | item value => exact (hE.spares_eval value env).bind fun _ => ih _
    | spread value => exact (hE.spares_eval value env).bind fun _ => ih _

theorem spares_evalSequence (hE : E.Quiet) (last : Value) (items : List Expr) :
    Spares texts (E.evalSequence env last items) := by
  induction items generalizing last with
  | nil => exact .pure last
  | cons item rest ih => exact (hE.spares_eval item env).bind fun _ => ih _

theorem spares_evalHoles (hE : E.Quiet) (text : String) (holes : List Hole) :
    Spares texts (E.evalHoles env text holes) := by
  induction holes generalizing text with
  | nil => exact .pure _
  | cons hole rest ih =>
    obtain ⟨value, after⟩ := hole
    exact (hE.spares_eval value env).bind fun _ => (hE.spares_stringOf _).bind fun _ => ih _

theorem spares_propertyName (hE : E.Quiet) {key : Key}
    (h : key.namesProperty = false → "unsupported property name" ∉ texts) :
    Spares texts (E.propertyName env key) := by
  cases key with
  | computed value => exact (hE.spares_eval value env).bind fun _ => hE.spares_stringOf _
  | bigInteger => exact .raiseText (h rfl)
  | classPrivate name => exact .raiseText (h rfl)
  | _ => exact .pure _

theorem spares_memberName (hE : E.Quiet) {key : Key}
    (h : key.namesMember = false → "unsupported member" ∉ texts) :
    Spares texts (E.memberName env key) := by
  cases key with
  | computed value => exact (hE.spares_eval value env).bind fun _ => hE.spares_stringOf _
  | name text => exact .pure _
  | _ => exact .raiseText (h rfl)

theorem spares_evalProperty (hE : E.Quiet) {property : Property}
    (hname : "unsupported property name" ∉ texts)
    (h : property.isCased = false → "unsupported property" ∉ texts ∧ "unsupported spread" ∉ texts) :
    Spares texts (E.evalProperty env property) := by
  cases property with
  | keyed key value =>
    exact (hE.spares_propertyName fun _ => hname).bind fun _ =>
      (hE.spares_eval value env).bind fun _ => .pure _
  | shorthand name => exact (Spares.lookup env name).bind fun _ => .pure _
  | method key f =>
    exact (hE.spares_propertyName fun _ => hname).bind fun _ =>
      (Spares.newFunction _).bind fun _ => .pure _
  | spread value => exact .raiseText (h rfl).2
  | defaulted name value => exact .raiseText (h rfl).1
  | foreign what => exact .raiseText (h rfl).1

theorem spares_evalObject (hE : E.Quiet) {properties : List Property}
    (hname : "unsupported property name" ∉ texts) (hproperty : "unsupported property" ∉ texts)
    (hspread : "unsupported spread" ∉ texts) (o : Object) :
    Spares texts (E.evalObject env o properties) := by
  induction properties generalizing o with
  | nil => exact .newObject o
  | cons property rest ih =>
    exact (hE.spares_evalProperty hname fun _ => ⟨hproperty, hspread⟩).bind fun _ => ih _

theorem spares_evalTypeOf (hE : E.Quiet) (arg : Expr) : Spares texts (E.evalTypeOf env arg) := by
  cases arg with
  | identifier name =>
    refine Spares.get.bind fun m => ?_
    split
    · exact .pure _
    · exact .pure _
  | _ => exact (hE.spares_eval _ env).bind fun _ => .pure _

theorem spares_storeIn (hE : E.Quiet) (hmember : "unsupported member" ∉ texts) {place : Expr}
    (h : place.isNameOrMember = true) (value : Value) : Spares texts (E.storeIn env place value) := by
  cases place with
  | identifier name => exact .assign env name value
  | member object key =>
    exact (hE.spares_eval object env).bind fun target =>
      (hE.spares_memberName fun _ => hmember).bind fun name => .setProperty target name value
  | _ => cases h

theorem spares_assignedValue (hE : E.Quiet) (hbinary : "unsupported binary operator" ∉ texts)
    (op : AssignOp) (place value : Expr) : Spares texts (E.assignedValue env op place value) := by
  cases op with
  | plain => exact (hE.spares_eval value env).bind fun _ => .pure _
  | compound op =>
    exact (hE.spares_eval place env).bind fun _ => (hE.spares_eval value env).bind fun _ =>
      (hE.spares_binary (fun _ => hbinary) _ _).bind fun _ => .pure _
  | logical op =>
    refine (hE.spares_eval place env).bind fun old => ?_
    split
    · exact .pure _
    · exact (hE.spares_eval value env).bind fun _ => .pure _

theorem spares_assignTo (hE : E.Quiet) (hmember : "unsupported member" ∉ texts)
    (hbinary : "unsupported binary operator" ∉ texts) (op : AssignOp) {place : Expr}
    (h : place.isNameOrMember = true) (value : Expr) :
    Spares texts (E.assignTo env op place value) := by
  refine (hE.spares_assignedValue hbinary op place value).bind fun result => ?_
  cases result with
  | error kept => exact .pure kept
  | ok value => exact (hE.spares_storeIn hmember h value).bind fun _ => .pure value

theorem spares_evalAssign (hE : E.Quiet) (hmember : "unsupported member" ∉ texts)
    (hbinary : "unsupported binary operator" ∉ texts) {op : AssignOp} {target : Target} {value : Expr}
    (h : target.isNameOrMember = true) : Spares texts (E.evalAssign env op target value) := by
  rcases target with place | pattern
  · cases place with
    | identifier name => exact hE.spares_assignTo hmember hbinary op rfl value
    | member object key => exact hE.spares_assignTo hmember hbinary op rfl value
    | _ => cases h
  · cases h

theorem spares_evalCall (hE : E.Quiet) (callee : Expr) (args : List Element) :
    Spares texts (E.evalCall env callee args) := by
  have hargs : Spares texts (E.evalArgs env args) :=
    (hE.spares_evalElements _ args).bind fun _ => .pure _
  exact (hE.spares_eval callee env).bind fun _ => hargs.bind fun _ => hE.spares_call _ _

theorem spares_evalRule (hE : E.Quiet) {e : Expr} (h : e.isCased = true) :
    Spares Expr.refusals (E.evalRule e env) := by
  cases e with
  | identifier name => exact .lookup env name
  | number value => exact .pure _
  | string value => exact .pure _
  | bool value => exact .pure _
  | null => exact .pure _
  | template head holes => exact hE.spares_evalHoles head holes
  | paren inner => exact hE.spares_eval inner env
  | sequence items => exact hE.spares_evalSequence _ items
  | array elements => exact (hE.spares_evalElements _ elements).bind fun _ => .newArray _
  | object properties => exact hE.spares_evalObject (by decide) (by decide) (by decide) _
  | function f =>
    cases f
    exact .newFunction _
  | arrow f => exact (Spares.patternNames (by decide) _).bind fun _ => .newFunction _
  | unary op arg =>
    cases op with
    | typeof => exact hE.spares_evalTypeOf arg
    | _ => exact (hE.spares_eval arg env).bind fun _ => hE.spares_unary (fun _ => by decide) _
  | binary op left right =>
    exact (hE.spares_eval left env).bind fun _ => (hE.spares_eval right env).bind fun _ =>
      hE.spares_binary (fun _ => by decide) _ _
  | logical op left right =>
    refine (hE.spares_eval left env).bind fun a => ?_
    split
    · exact .pure a
    · exact hE.spares_eval right env
  | conditional test yes no =>
    refine (hE.spares_eval test env).bind fun a => ?_
    split
    · exact hE.spares_eval yes env
    · exact hE.spares_eval no env
  | update op before place =>
    exact (hE.spares_eval place env).bind fun _ => (hE.spares_numberOf _).bind fun _ =>
      (hE.spares_storeIn (by decide) h _).bind fun _ => .pure _
  | assign op target value => exact hE.spares_evalAssign (by decide) (by decide) h
  | member object key =>
    exact (hE.spares_eval object env).bind fun target =>
      (hE.spares_memberName fun _ => by decide).bind fun name => .getProperty target name
  | call callee args => exact hE.spares_evalCall callee args
  | construct callee args =>
    refine (hE.spares_evalCall callee args).bind fun result => ?_
    split
    · exact .pure result
    · exact .newObject _
  | _ => cases h

/-! Statements. -/

theorem execList_ok (hE : E.Quiet) (env : Env) (body : List Stmt) (m : Machine) :
    ∃ flow m', E.execList env body m = (.ok flow, m') := by
  induction body generalizing m with
  | nil => exact ⟨.normal, m, rfl⟩
  | cons stmt rest ih =>
    obtain ⟨flow, after, hrun⟩ := hE.exec stmt env m
    rw [Evaluator.execList, Action.bind_of_ok hrun]
    cases flow with
    | normal => exact ih after
    | _ => exact ⟨_, after, rfl⟩

theorem execBlock_ok (hE : E.Quiet) (env : Env) (body : List Stmt) (m : Machine) :
    ∃ flow m', E.execBlock env body m = (.ok flow, m') := by
  obtain ⟨scope, opened, hscope⟩ : ∃ scope opened, Run.childScope env m = (.ok scope, opened) :=
    ⟨_, _, rfl⟩
  obtain ⟨hoisted, hhoist⟩ := Run.hoist_ok scope body opened
  rw [Evaluator.execBlock, Action.bind_of_ok hscope, Action.bind_of_ok hhoist]
  exact hE.execList_ok scope body hoisted

theorem spares_execBlock (hE : E.Quiet) (body : List Stmt) : Spares texts (E.execBlock env body) :=
  .of_ok (hE.execBlock_ok env body)

theorem spares_execDeclarators (hE : E.Quiet) (ht : "destructuring is not supported" ∉ texts)
    (mutable : Bool) (items : List Declarator) :
    Spares texts (E.execDeclarators env mutable items) := by
  induction items with
  | nil => exact .pure ()
  | cons item rest ih =>
    obtain ⟨target, value⟩ := item
    have hdeclare : ∀ name value, Spares texts (do
        Run.declare env name value mutable
        E.execDeclarators env mutable rest) :=
      fun name value => (Spares.declare env name value mutable).bind fun _ => ih
    refine (Spares.patternName ht target).bind fun name => ?_
    cases value with
    | none => exact (Spares.pure _).bind (hdeclare name)
    | some value => exact (hE.spares_eval value env).bind (hdeclare name)

theorem spares_holds (hE : E.Quiet) (test : Expr) : Spares texts (E.holds env test) :=
  (hE.spares_eval test env).bind fun _ => .pure _

theorem spares_repeatBody {body : Run Flow} {next : Run Bool} (hb : Spares texts body)
    (hn : Spares texts next) (laps : Nat) : Spares texts (repeatBody body next laps) := by
  induction laps with
  | zero => exact .exhaust
  | succ laps ih =>
    have hnext : Spares texts (do
        if ← next then repeatBody body next laps else return .normal) := by
      refine hn.bind fun more => ?_
      split
      · exact ih
      · exact .pure _
    refine hb.bind fun flow => ?_
    cases flow with
    | normal => exact hnext
    | continued => exact hnext
    | broken => exact .pure _
    | returned value => exact .pure _

theorem spares_execWhile (hE : E.Quiet) (test : Expr) (body : Stmt) :
    Spares texts (E.execWhile env test body) := by
  refine (hE.spares_holds test).bind fun first => ?_
  split
  · exact spares_repeatBody (hE.spares_exec body env) (hE.spares_holds test) E.laps
  · exact .pure _

theorem spares_testFor (hE : E.Quiet) (test : Option Expr) : Spares texts (E.testFor env test) := by
  cases test with
  | none => exact .pure true
  | some test => exact hE.spares_holds test

theorem spares_updateFor (hE : E.Quiet) (update : Option Expr) :
    Spares texts (E.updateFor env update) := by
  cases update with
  | none => exact .pure ()
  | some update => exact (hE.spares_eval update env).bind fun _ => .pure ()

theorem spares_startFor (hE : E.Quiet) (ht : "destructuring is not supported" ∉ texts)
    (start : ForStart) : Spares texts (E.startFor env start) := by
  cases start with
  | absent => exact .pure ()
  | declaration kind items => exact hE.spares_execDeclarators ht _ items
  | expression value => exact (hE.spares_eval value env).bind fun _ => .pure ()

theorem spares_execFor (hE : E.Quiet) (ht : "destructuring is not supported" ∉ texts)
    (start : ForStart) (test update : Option Expr) (body : Stmt) :
    Spares texts (E.execFor env start test update body) := by
  refine (Spares.childScope env).bind fun scope => (hE.spares_startFor ht start).bind fun _ => ?_
  refine (hE.spares_testFor test).bind fun first => ?_
  split
  · refine spares_repeatBody (hE.spares_exec body scope) ?_ E.laps
    exact (hE.spares_updateFor update).bind fun _ => hE.spares_testFor test
  · exact .pure _

/-- Nothing is thrown in the body, so that neither the handler nor anyone else sees an error. -/
theorem spares_execTry (hE : E.Quiet) (body : List Stmt) (handler : Handler) (finalizer : Finalizer) :
    Spares texts (E.execTry env body handler finalizer) := by
  have hfinish : ∀ flow, Spares texts (E.finish env (.ok flow) finalizer) := by
    intro flow
    cases finalizer with
    | absent => exact .pure flow
    | block body =>
      refine (hE.spares_execBlock body).bind fun last => ?_
      cases last with
      | normal => exact .pure flow
      | _ => exact .pure _
  intro m ref m' hrun
  obtain ⟨flow, after, hblock⟩ := hE.execBlock_ok env body m
  have hcaught : (Action.attempt (E.execBlock env body) : Run (Except Value Flow)) m =
      (.ok (.ok flow), after) := by rw [Action.attempt, hblock]
  have htry : E.execTry env body handler finalizer m = E.finish env (.ok flow) finalizer after :=
    Action.bind_of_ok hcaught _
  exact hfinish flow after ref m' (htry ▸ hrun)

theorem spares_throwValue (hE : E.Quiet) (value : Expr) :
    Spares texts (E.execRule (.throwValue value) env) := by
  intro m ref m' hrun
  obtain ⟨thrown, after, heval, hobject⟩ := hE.eval value env m
  rw [Evaluator.execRule, Action.bind_of_ok heval] at hrun
  cases hrun
  exact absurd rfl (hobject ref)

theorem spares_execRule (hE : E.Quiet) {stmt : Stmt} (h : stmt.isCased = true) :
    Spares Stmt.refusals (E.execRule stmt env) := by
  cases stmt with
  | expression value => exact (hE.spares_eval value env).bind fun _ => .pure _
  | declaration kind items =>
    exact (hE.spares_execDeclarators (by decide) _ items).bind fun _ => .pure _
  | function name f => exact .pure _
  | empty => exact .pure _
  | debugger => exact .pure _
  | block body => exact hE.spares_execBlock body
  | branch test yes no =>
    refine (hE.spares_holds test).bind fun first => ?_
    split
    · exact hE.spares_exec yes env
    · cases no with
      | none => exact .pure _
      | some no => exact hE.spares_exec no env
  | whileLoop test body => exact hE.spares_execWhile test body
  | doLoop body test =>
    exact spares_repeatBody (hE.spares_exec body env) (hE.spares_holds test) E.laps
  | forLoop start test update body => exact hE.spares_execFor (by decide) start test update body
  | breakOff label =>
    cases label with
    | none => exact .pure _
    | some name => cases h
  | continueOn label =>
    cases label with
    | none => exact .pure _
    | some name => cases h
  | returnValue value =>
    cases value with
    | none => exact .pure _
    | some value => exact (hE.spares_eval value env).bind fun _ => .pure _
  | throwValue value => exact hE.spares_throwValue value
  | tryBlock body handler finalizer => exact hE.spares_execTry body handler finalizer
  | foreign what => cases h

end Quiet

end Evaluator

namespace Source

theorem Pattern.spares_of_isName {texts : List String} {pattern : Pattern}
    (h : pattern.isName = true) : Run.Spares texts (Run.patternName pattern) := by
  cases pattern with
  | name name => exact .pure name
  | _ => cases h

theorem Pattern.not_spares {pattern : Pattern} (h : pattern.isName = false) :
    ¬Run.Spares Pattern.refusals (Run.patternName pattern) := by
  cases pattern with
  | name name => cases h
  | _ => exact Run.Spares.not_raiseError (by decide)

theorem Pattern.isSome_paramName? (pattern : Pattern) :
    (Run.paramName? pattern).isSome = pattern.isName := by
  cases pattern <;> rfl

theorem Node.hasCase_of_isCased {node : Node} (h : node.isCased = true) : node.HasCase := by
  cases node with
  | stmt s => exact fun E hE env => hE.spares_execRule h
  | expr e => exact fun E hE env => hE.spares_evalRule h
  | element e =>
    rintro value rfl
    cases h
  | property p =>
    refine fun E hE env => hE.spares_evalProperty (by decide) fun hno => ?_
    rw [show p.isCased = true from h] at hno
    cases hno
  | propertyKey k =>
    refine fun E hE env => hE.spares_propertyName fun hno => ?_
    rw [show k.namesProperty = true from h] at hno
    cases hno
  | memberKey k =>
    refine fun E hE env => hE.spares_memberName fun hno => ?_
    rw [show k.namesMember = true from h] at hno
    cases hno
  | updated place => exact fun E hE env value => hE.spares_storeIn (by decide) h value
  | bound p => exact Pattern.spares_of_isName h
  | param p => exact ⟨Pattern.spares_of_isName h, p.isSome_paramName?.trans h⟩
  | unary op => exact fun E hE a => hE.spares_unary (fun hop => absurd hop (bne_iff_ne.mp h)) a
  | binary op => exact fun E hE a b => hE.spares_binary (fun hop => absurd hop (bne_iff_ne.mp h)) a b

theorem Expr.not_spares_storeIn {texts : List String} {place : Expr}
    (ht : "Invalid left-hand side in assignment" ∈ texts) (h : place.isNameOrMember = false)
    (E : Evaluator) (env : Env) (value : Value) : ¬Run.Spares texts (E.storeIn env place value) := by
  cases place with
  | identifier name => cases h
  | member object key => cases h
  | _ => exact Run.Spares.not_raiseError ht

/-- The rules for all other parts do nothing but throw, after an update has read the old value. -/
theorem Node.not_hasCase {node : Node} (h : node.isCased = false) : ¬node.HasCase := by
  have refused : ∀ {α : Type} {texts : List String} {text : String}, text ∈ texts →
      ¬Run.Spares texts (Run.raiseError "SyntaxError" text : Run α) :=
    fun ht => Run.Spares.not_raiseError ht
  intro hcase
  let idle := Evaluator.idle
  have hidle : idle.Quiet := Evaluator.quiet_idle
  cases node with
  | stmt s =>
    cases s with
    | breakOff label =>
      cases label with
      | none => cases h
      | some name => exact refused (by decide) (hcase idle hidle [])
    | continueOn label =>
      cases label with
      | none => cases h
      | some name => exact refused (by decide) (hcase idle hidle [])
    | foreign what => exact refused (by decide) (hcase idle hidle [])
    | _ => cases h
  | expr e =>
    cases e with
    | assign op target value =>
      rcases target with place | pattern
      · cases place with
        | identifier name => cases h
        | member object key => cases h
        | _ => exact refused (by decide) (hcase idle hidle [])
      · exact refused (by decide) (hcase idle hidle [])
    | update op before place =>
      have hknown : "Invalid left-hand side in assignment" ∈ Expr.refusals := by decide
      have hstore := hcase idle hidle []
      exact Expr.not_spares_storeIn hknown h idle [] _ hstore.of_pure_bind.of_pure_bind.of_bind
    | superMember key => exact refused (by decide) (hcase idle hidle [])
    | superCall args => exact refused (by decide) (hcase idle hidle [])
    | importCall args => exact refused (by decide) (hcase idle hidle [])
    | newTarget => exact refused (by decide) (hcase idle hidle [])
    | await arg => exact refused (by decide) (hcase idle hidle [])
    | yield arg => exact refused (by decide) (hcase idle hidle [])
    | foreign what => exact refused (by decide) (hcase idle hidle [])
    | _ => cases h
  | element e =>
    cases e with
    | spread value => exact hcase value rfl
    | _ => cases h
  | property p =>
    cases p with
    | defaulted name value => exact refused (by decide) (hcase idle hidle [])
    | spread value => exact refused (by decide) (hcase idle hidle [])
    | foreign what => exact refused (by decide) (hcase idle hidle [])
    | _ => cases h
  | propertyKey k =>
    cases k with
    | bigInteger => exact refused (by decide) (hcase idle hidle [])
    | classPrivate name => exact refused (by decide) (hcase idle hidle [])
    | _ => cases h
  | memberKey k =>
    cases k with
    | name text => cases h
    | computed value => cases h
    | _ => exact refused (by decide) (hcase idle hidle [])
  | updated place =>
    exact Expr.not_spares_storeIn (by decide) h idle [] .undefined (hcase idle hidle [] .undefined)
  | bound p => exact Pattern.not_spares h hcase
  | param p => exact Pattern.not_spares h hcase.1
  | unary op => exact refused (by decide) (bne_eq_false_iff_eq.mp h ▸ hcase idle hidle .undefined)
  | binary op => exact refused (by decide) (bne_eq_false_iff_eq.mp h ▸ hcase idle hidle .undefined .undefined)

/-- Which parts have a case is a matter of their form. -/
theorem Node.hasCase_iff {node : Node} : node.HasCase ↔ node.isCased = true := by
  refine ⟨fun hcase => ?_, hasCase_of_isCased⟩
  cases h : node.isCased with
  | true => rfl
  | false => exact absurd hcase (not_hasCase h)

end Source

end Reprl
