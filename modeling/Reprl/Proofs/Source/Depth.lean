import Reprl.Source.Tree

/-! How deep a syntax tree is: the number of statements and expressions on its longest path.
Everything else on a path, such as elements, properties and patterns, is not counted. -/

namespace Reprl.Source

mutual

def Expr.depth : Expr → Nat
  | .identifier _ | .number _ | .string _ | .bool _ | .null | .newTarget | .foreign _ => 1
  | .template _ holes => 1 + Hole.depthIn holes
  | .paren inner => 1 + inner.depth
  | .sequence items => 1 + Expr.depthIn items
  | .array elements => 1 + Element.depthIn elements
  | .object properties => 1 + Property.depthIn properties
  | .function f => 1 + f.depth
  | .arrow f => 1 + f.depth
  | .unary _ arg => 1 + arg.depth
  | .binary _ left right => 1 + max left.depth right.depth
  | .logical _ left right => 1 + max left.depth right.depth
  | .conditional test yes no => 1 + max test.depth (max yes.depth no.depth)
  | .update _ _ place => 1 + place.depth
  | .assign _ target value => 1 + max target.depth value.depth
  | .member object key => 1 + max object.depth key.depth
  | .call callee args => 1 + max callee.depth (Element.depthIn args)
  | .construct callee args => 1 + max callee.depth (Element.depthIn args)
  | .superMember key => 1 + key.depth
  | .superCall args => 1 + Element.depthIn args
  | .importCall args => 1 + Element.depthIn args
  | .await arg => 1 + arg.depth
  | .yield arg => 1 + Expr.depthOption arg

def Expr.depthOption : Option Expr → Nat
  | none => 0
  | some e => e.depth

def Expr.depthIn : List Expr → Nat
  | [] => 0
  | e :: rest => max e.depth (Expr.depthIn rest)

def Hole.depthIn : List Hole → Nat
  | [] => 0
  | .mk value _ :: rest => max value.depth (Hole.depthIn rest)

def Element.depthIn : List Element → Nat
  | [] => 0
  | .elision :: rest => Element.depthIn rest
  | .item value :: rest => max value.depth (Element.depthIn rest)
  | .spread value :: rest => max value.depth (Element.depthIn rest)

def Property.depth : Property → Nat
  | .keyed key value => max key.depth value.depth
  | .shorthand _ | .foreign _ => 0
  | .method key f => max key.depth f.depth
  | .defaulted _ value => value.depth
  | .spread value => value.depth

def Property.depthIn : List Property → Nat
  | [] => 0
  | p :: rest => max p.depth (Property.depthIn rest)

def Key.depth : Key → Nat
  | .computed value => value.depth
  | .name _ | .string _ | .number _ | .bigInteger | .classPrivate _ => 0

def Target.depth : Target → Nat
  | .place value => value.depth
  | .pattern pattern => pattern.depth

def Pattern.depth : Pattern → Nat
  | .name _ | .elision => 0
  | .array elements => Pattern.depthIn elements
  | .object properties => PatternProperty.depthIn properties
  | .defaulted pattern value => max pattern.depth value.depth
  | .rest pattern => pattern.depth
  | .place value => value.depth

def Pattern.depthIn : List Pattern → Nat
  | [] => 0
  | p :: rest => max p.depth (Pattern.depthIn rest)

def PatternProperty.depth : PatternProperty → Nat
  | .keyed key value => max key.depth value.depth
  | .shorthand _ value => Expr.depthOption value
  | .rest pattern => pattern.depth

def PatternProperty.depthIn : List PatternProperty → Nat
  | [] => 0
  | p :: rest => max p.depth (PatternProperty.depthIn rest)

def Function.depth : Function → Nat
  | .mk _ params body _ _ => max (Pattern.depthIn params) body.depth

def Body.depth : Body → Nat
  | .block statements => Stmt.depthIn statements
  | .concise value => value.depth

def Stmt.depth : Stmt → Nat
  | .expression value => 1 + value.depth
  | .declaration _ items => 1 + Declarator.depthIn items
  | .function _ f => 1 + f.depth
  | .block body => 1 + Stmt.depthIn body
  | .empty | .debugger | .breakOff _ | .continueOn _ | .foreign _ => 1
  | .branch test yes no => 1 + max test.depth (max yes.depth (Stmt.depthOption no))
  | .whileLoop test body => 1 + max test.depth body.depth
  | .doLoop body test => 1 + max body.depth test.depth
  | .forLoop start test update body =>
    1 + max start.depth (max (Expr.depthOption test) (max (Expr.depthOption update) body.depth))
  | .returnValue value => 1 + Expr.depthOption value
  | .throwValue value => 1 + value.depth
  | .tryBlock body handler finalizer => 1 + max (Stmt.depthIn body) (max handler.depth finalizer.depth)

def Stmt.depthOption : Option Stmt → Nat
  | none => 0
  | some s => s.depth

def Stmt.depthIn : List Stmt → Nat
  | [] => 0
  | s :: rest => max s.depth (Stmt.depthIn rest)

def Declarator.depthIn : List Declarator → Nat
  | [] => 0
  | .mk target value :: rest =>
    max target.depth (max (Expr.depthOption value) (Declarator.depthIn rest))

def ForStart.depth : ForStart → Nat
  | .absent => 0
  | .declaration _ items => Declarator.depthIn items
  | .expression value => value.depth

def Handler.depth : Handler → Nat
  | .absent => 0
  | .plain body => Stmt.depthIn body
  | .binding param body => max param.depth (Stmt.depthIn body)

def Finalizer.depth : Finalizer → Nat
  | .absent => 0
  | .block body => Stmt.depthIn body

end

end Reprl.Source
