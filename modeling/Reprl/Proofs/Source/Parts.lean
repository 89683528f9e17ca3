import Reprl.Source.Tree

/-! The parts of a syntax tree. Each is a node together with the use that is made of it, since
the same key, pattern or operator is read in different ways in different places. -/

namespace Reprl.Source

inductive Node where
  | stmt (s : Stmt)
  | expr (e : Expr)
  /-- An element of an array or an argument of a call. -/
  | element (e : Element)
  | property (p : Property)
  /-- The name of a property in an object. -/
  | propertyKey (k : Key)
  /-- The name of a property behind a value. -/
  | memberKey (k : Key)
  /-- A place that an update stores into. -/
  | updated (place : Expr)
  /-- What a declaration or a handler binds. -/
  | bound (p : Pattern)
  | param (p : Pattern)
  | unary (op : UnaryOp)
  | binary (op : BinaryOp)

mutual

/-- The parts inside an expression. -/
def Expr.inner : Expr → List Node
  | .identifier _ | .number _ | .string _ | .bool _ | .null | .newTarget | .foreign _ => []
  | .template _ holes => Hole.partsIn holes
  | .paren e => .expr e :: e.inner
  | .sequence items => Expr.partsIn items
  | .array elements => Element.partsIn elements
  | .object properties => Property.partsIn properties
  | .function f | .arrow f => f.parts
  | .unary op arg => .unary op :: .expr arg :: arg.inner
  | .binary op left right => .binary op :: .expr left :: left.inner ++ .expr right :: right.inner
  | .logical _ left right => .expr left :: left.inner ++ .expr right :: right.inner
  | .conditional test yes no =>
    .expr test :: test.inner ++ .expr yes :: yes.inner ++ .expr no :: no.inner
  | .update _ _ place => .updated place :: .expr place :: place.inner
  | .assign (.compound op) target value => .binary op :: target.parts ++ .expr value :: value.inner
  | .assign _ target value => target.parts ++ .expr value :: value.inner
  | .member object key => .memberKey key :: .expr object :: object.inner ++ key.inner
  | .call callee args | .construct callee args =>
    .expr callee :: callee.inner ++ Element.partsIn args
  | .superMember key => .memberKey key :: key.inner
  | .superCall args | .importCall args => Element.partsIn args
  | .await arg => .expr arg :: arg.inner
  | .yield arg => Expr.partsOption arg

def Expr.partsOption : Option Expr → List Node
  | none => []
  | some e => .expr e :: e.inner

def Expr.partsIn : List Expr → List Node
  | [] => []
  | e :: rest => .expr e :: e.inner ++ Expr.partsIn rest

def Hole.partsIn : List Hole → List Node
  | [] => []
  | .mk value _ :: rest => .expr value :: value.inner ++ Hole.partsIn rest

def Element.inner : Element → List Node
  | .elision => []
  | .item value | .spread value => .expr value :: value.inner

def Element.partsIn : List Element → List Node
  | [] => []
  | element :: rest => .element element :: element.inner ++ Element.partsIn rest

def Property.inner : Property → List Node
  | .keyed key value => .propertyKey key :: key.inner ++ .expr value :: value.inner
  | .method key f => .propertyKey key :: key.inner ++ f.parts
  | .defaulted _ value | .spread value => .expr value :: value.inner
  | .shorthand _ | .foreign _ => []

def Property.partsIn : List Property → List Node
  | [] => []
  | property :: rest => .property property :: property.inner ++ Property.partsIn rest

def Key.inner : Key → List Node
  | .computed value => .expr value :: value.inner
  | .name _ | .string _ | .number _ | .bigInteger | .classPrivate _ => []

def Target.parts : Target → List Node
  | .place e => .expr e :: e.inner
  | .pattern pattern => pattern.inner

def Pattern.inner : Pattern → List Node
  | .name _ | .elision => []
  | .array elements => Pattern.innerIn elements
  | .object properties => PatternProperty.innerIn properties
  | .defaulted pattern value => pattern.inner ++ .expr value :: value.inner
  | .rest pattern => pattern.inner
  | .place e => .expr e :: e.inner

def Pattern.innerIn : List Pattern → List Node
  | [] => []
  | pattern :: rest => pattern.inner ++ Pattern.innerIn rest

def PatternProperty.innerIn : List PatternProperty → List Node
  | [] => []
  | .keyed key value :: rest =>
    .propertyKey key :: key.inner ++ value.inner ++ PatternProperty.innerIn rest
  | .shorthand _ value :: rest => Expr.partsOption value ++ PatternProperty.innerIn rest
  | .rest pattern :: rest => pattern.inner ++ PatternProperty.innerIn rest

def Pattern.paramsIn : List Pattern → List Node
  | [] => []
  | pattern :: rest => .param pattern :: pattern.inner ++ Pattern.paramsIn rest

def Function.parts : Function → List Node
  | .mk _ params body _ _ => Pattern.paramsIn params ++ body.parts

def Body.parts : Body → List Node
  | .block statements => Stmt.partsIn statements
  | .concise value => .expr value :: value.inner

/-- The parts inside a statement. -/
def Stmt.inner : Stmt → List Node
  | .expression value | .throwValue value => .expr value :: value.inner
  | .declaration _ items => Declarator.partsIn items
  | .function _ f => f.parts
  | .block body => Stmt.partsIn body
  | .empty | .debugger | .breakOff _ | .continueOn _ | .foreign _ => []
  | .branch test yes no =>
    .expr test :: test.inner ++ .stmt yes :: yes.inner ++ Stmt.partsOption no
  | .whileLoop test body => .expr test :: test.inner ++ .stmt body :: body.inner
  | .doLoop body test => .stmt body :: body.inner ++ .expr test :: test.inner
  | .forLoop start test update body =>
    start.parts ++ Expr.partsOption test ++ Expr.partsOption update ++ .stmt body :: body.inner
  | .returnValue value => Expr.partsOption value
  | .tryBlock body handler finalizer => Stmt.partsIn body ++ handler.parts ++ finalizer.parts

def Stmt.partsOption : Option Stmt → List Node
  | none => []
  | some s => .stmt s :: s.inner

def Stmt.partsIn : List Stmt → List Node
  | [] => []
  | s :: rest => .stmt s :: s.inner ++ Stmt.partsIn rest

def Declarator.partsIn : List Declarator → List Node
  | [] => []
  | .mk target value :: rest =>
    .bound target :: target.inner ++ Expr.partsOption value ++ Declarator.partsIn rest

def ForStart.parts : ForStart → List Node
  | .absent => []
  | .declaration _ items => Declarator.partsIn items
  | .expression value => .expr value :: value.inner

def Handler.parts : Handler → List Node
  | .absent => []
  | .plain body => Stmt.partsIn body
  | .binding param body => .bound param :: param.inner ++ Stmt.partsIn body

def Finalizer.parts : Finalizer → List Node
  | .absent => []
  | .block body => Stmt.partsIn body

end

def Expr.parts (e : Expr) : List Node := .expr e :: e.inner

def Stmt.parts (s : Stmt) : List Node := .stmt s :: s.inner

def Property.parts (p : Property) : List Node := .property p :: p.inner

end Reprl.Source
