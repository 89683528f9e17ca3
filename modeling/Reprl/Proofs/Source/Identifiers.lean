import Reprl.Proofs.Source.Parts

/-! The identifiers of a syntax tree: names that are referred to, bound or assigned, and names of
shorthand properties. Keys, members and labels are no identifiers. A statement may bind names in
the scope in which it stands or keep them to itself. -/

namespace Reprl.Source

mutual

def Expr.identifiers : Expr → List String
  | .identifier name => [name]
  | .number _ | .string _ | .bool _ | .null | .newTarget | .foreign _ => []
  | .template _ holes => Hole.identifiersIn holes
  | .paren inner => inner.identifiers
  | .sequence items => Expr.identifiersIn items
  | .array elements => Element.identifiersIn elements
  | .object properties => Property.identifiersIn properties
  | .function f | .arrow f => f.identifiers
  | .unary _ arg => arg.identifiers
  | .binary _ left right | .logical _ left right => left.identifiers ++ right.identifiers
  | .conditional test yes no => test.identifiers ++ yes.identifiers ++ no.identifiers
  | .update _ _ place => place.identifiers
  | .assign _ target value => target.identifiers ++ value.identifiers
  | .member object key => object.identifiers ++ key.identifiers
  | .call callee args | .construct callee args => callee.identifiers ++ Element.identifiersIn args
  | .superMember key => key.identifiers
  | .superCall args | .importCall args => Element.identifiersIn args
  | .await arg => arg.identifiers
  | .yield arg => Expr.identifiersOption arg

def Expr.identifiersOption : Option Expr → List String
  | none => []
  | some e => e.identifiers

def Expr.identifiersIn : List Expr → List String
  | [] => []
  | e :: rest => e.identifiers ++ Expr.identifiersIn rest

def Hole.identifiersIn : List Hole → List String
  | [] => []
  | .mk value _ :: rest => value.identifiers ++ Hole.identifiersIn rest

def Element.identifiers : Element → List String
  | .elision => []
  | .item value | .spread value => value.identifiers

def Element.identifiersIn : List Element → List String
  | [] => []
  | element :: rest => element.identifiers ++ Element.identifiersIn rest

def Property.identifiers : Property → List String
  | .keyed key value => key.identifiers ++ value.identifiers
  | .shorthand name => [name]
  | .method key f => key.identifiers ++ f.identifiers
  | .defaulted name value => name :: value.identifiers
  | .spread value => value.identifiers
  | .foreign _ => []

def Property.identifiersIn : List Property → List String
  | [] => []
  | property :: rest => property.identifiers ++ Property.identifiersIn rest

def Key.identifiers : Key → List String
  | .computed value => value.identifiers
  | .name _ | .string _ | .number _ | .bigInteger | .classPrivate _ => []

def Target.identifiers : Target → List String
  | .place value => value.identifiers
  | .pattern pattern => pattern.identifiers

def Pattern.identifiers : Pattern → List String
  | .name name => [name]
  | .elision => []
  | .array elements => Pattern.identifiersIn elements
  | .object properties => PatternProperty.identifiersIn properties
  | .defaulted pattern value => pattern.identifiers ++ value.identifiers
  | .rest pattern => pattern.identifiers
  | .place value => value.identifiers

def Pattern.identifiersIn : List Pattern → List String
  | [] => []
  | pattern :: rest => pattern.identifiers ++ Pattern.identifiersIn rest

def PatternProperty.identifiersIn : List PatternProperty → List String
  | [] => []
  | .keyed key value :: rest =>
    key.identifiers ++ value.identifiers ++ PatternProperty.identifiersIn rest
  | .shorthand name value :: rest =>
    name :: Expr.identifiersOption value ++ PatternProperty.identifiersIn rest
  | .rest pattern :: rest => pattern.identifiers ++ PatternProperty.identifiersIn rest

def Function.identifiers : Function → List String
  | .mk name params body _ _ => name.toList ++ Pattern.identifiersIn params ++ body.identifiers

def Body.identifiers : Body → List String
  | .block statements => Stmt.identifiersIn statements
  | .concise value => value.identifiers

def Stmt.identifiers : Stmt → List String
  | .expression value | .throwValue value => value.identifiers
  | .declaration _ items => Declarator.identifiersIn items
  | .function name f => name :: f.identifiers
  | .block body => Stmt.identifiersIn body
  | .empty | .debugger | .breakOff _ | .continueOn _ | .foreign _ => []
  | .branch test yes no => test.identifiers ++ yes.identifiers ++ Stmt.identifiersOption no
  | .whileLoop test body => test.identifiers ++ body.identifiers
  | .doLoop body test => body.identifiers ++ test.identifiers
  | .forLoop start test update body =>
    start.identifiers ++ Expr.identifiersOption test ++ Expr.identifiersOption update ++
      body.identifiers
  | .returnValue value => Expr.identifiersOption value
  | .tryBlock body handler finalizer =>
    Stmt.identifiersIn body ++ handler.identifiers ++ finalizer.identifiers

def Stmt.identifiersOption : Option Stmt → List String
  | none => []
  | some s => s.identifiers

def Stmt.identifiersIn : List Stmt → List String
  | [] => []
  | s :: rest => s.identifiers ++ Stmt.identifiersIn rest

def Declarator.identifiersIn : List Declarator → List String
  | [] => []
  | .mk target value :: rest =>
    target.identifiers ++ Expr.identifiersOption value ++ Declarator.identifiersIn rest

def ForStart.identifiers : ForStart → List String
  | .absent => []
  | .declaration _ items => Declarator.identifiersIn items
  | .expression value => value.identifiers

def Handler.identifiers : Handler → List String
  | .absent => []
  | .plain body => Stmt.identifiersIn body
  | .binding param body => param.identifiers ++ Stmt.identifiersIn body

def Finalizer.identifiers : Finalizer → List String
  | .absent => []
  | .block body => Stmt.identifiersIn body

end

mutual

/-- Whether a statement declares names in the scope in which it stands. Function declarations
take effect before, and blocks, loops with a head and handlers have scopes of their own. -/
def Stmt.declares : Stmt → Bool
  | .declaration .. => true
  | .branch _ yes no => yes.declares || Stmt.declaresOption no
  | .whileLoop _ body | .doLoop body _ => body.declares
  | .expression _ | .function .. | .block _ | .empty | .debugger | .forLoop .. | .breakOff _
  | .continueOn _ | .returnValue _ | .throwValue _ | .tryBlock .. | .foreign _ => false

def Stmt.declaresOption : Option Stmt → Bool
  | none => false
  | some s => s.declares

end

/-- The identifiers in a part. -/
def Node.identifiers : Node → List String
  | .stmt s => s.identifiers
  | .expr e => e.identifiers
  | .element e => e.identifiers
  | .property p => p.identifiers
  | .propertyKey _ | .memberKey _ | .updated _ | .bound _ | .param _ | .unary _ | .binary _ => []

end Reprl.Source
