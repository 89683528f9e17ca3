import Reprl.Source.Tree

/-! The first construct of a script that it may not use. Parts of the tree are
visited in the order in which they stand, except that the test of a `do` loop
comes before its body. -/

namespace Reprl.Source

mutual

def Expr.unsupported : Expr → Option Construct
  | .identifier _ | .number _ | .string _ | .bool _ | .null | .newTarget => none
  | .template _ holes => Hole.unsupportedIn holes
  | .paren inner => inner.unsupported
  | .sequence items => Expr.unsupportedIn items
  | .array elements => Element.unsupportedIn elements
  | .object properties => Property.unsupportedIn properties
  | .function f => f.unsupported .asyncFunction
  | .arrow f => f.unsupported .asyncArrow
  | .unary _ arg => arg.unsupported
  | .binary _ left right => left.unsupported <|> right.unsupported
  | .logical _ left right => left.unsupported <|> right.unsupported
  | .conditional test yes no => test.unsupported <|> yes.unsupported <|> no.unsupported
  | .update _ _ place => place.unsupported
  | .assign _ target value => target.unsupported <|> value.unsupported
  | .member object key => object.unsupported <|> key.unsupported
  | .call callee args => callee.unsupported <|> Element.unsupportedIn args
  | .construct callee args => callee.unsupported <|> Element.unsupportedIn args
  | .superMember key => key.unsupported
  | .superCall args => Element.unsupportedIn args
  | .importCall args => Element.unsupportedIn args
  | .await arg => arg.unsupported
  | .yield arg => Expr.unsupportedOption arg
  | .foreign what => some what

def Expr.unsupportedOption : Option Expr → Option Construct
  | none => none
  | some e => e.unsupported

def Expr.unsupportedIn : List Expr → Option Construct
  | [] => none
  | e :: rest => e.unsupported <|> Expr.unsupportedIn rest

def Hole.unsupportedIn : List Hole → Option Construct
  | [] => none
  | .mk value _ :: rest => value.unsupported <|> Hole.unsupportedIn rest

def Element.unsupportedIn : List Element → Option Construct
  | [] => none
  | .elision :: rest => Element.unsupportedIn rest
  | .item value :: rest => value.unsupported <|> Element.unsupportedIn rest
  | .spread _ :: _ => some .spread

def Property.unsupported : Property → Option Construct
  | .keyed key value => key.unsupported <|> value.unsupported
  | .shorthand _ => none
  | .method key f => key.unsupported <|> f.unsupported .asyncFunction
  | .defaulted _ value => value.unsupported
  | .spread _ => some .spread
  | .foreign what => some what

def Property.unsupportedIn : List Property → Option Construct
  | [] => none
  | p :: rest => p.unsupported <|> Property.unsupportedIn rest

def Key.unsupported : Key → Option Construct
  | .computed value => value.unsupported
  | .name _ | .string _ | .number _ | .bigInteger | .classPrivate _ => none

/-- Targets may be patterns whose members are names. -/
def Target.unsupported : Target → Option Construct
  | .place value => value.unsupported
  | .pattern (.array elements) => Pattern.unsupportedIn elements
  | .pattern (.object properties) => PatternProperty.unsupportedIn properties
  | .pattern pattern => pattern.unsupported

/-- Only names and places left out declare something. -/
def Pattern.unsupported : Pattern → Option Construct
  | .name _ | .elision => none
  | .array _ | .object _ | .defaulted .. | .rest _ | .place _ => some .pattern

def Pattern.unsupportedIn : List Pattern → Option Construct
  | [] => none
  | p :: rest => p.unsupported <|> Pattern.unsupportedIn rest

def PatternProperty.unsupportedIn : List PatternProperty → Option Construct
  | [] => none
  | .keyed key value :: rest =>
    key.unsupported <|> value.unsupported <|> PatternProperty.unsupportedIn rest
  | .shorthand _ value :: rest =>
    Expr.unsupportedOption value <|> PatternProperty.unsupportedIn rest
  | .rest pattern :: rest => pattern.unsupported <|> PatternProperty.unsupportedIn rest

/-- The name of what an asynchronous function is depends on how it is written. -/
def Function.unsupported (asyncForm : Construct) : Function → Option Construct
  | .mk _ params body async generator =>
    (if async then some asyncForm else none) <|>
      (if generator then some .generator else none) <|>
      Pattern.unsupportedIn params <|> body.unsupported

def Body.unsupported : Body → Option Construct
  | .block statements => Stmt.unsupportedIn statements
  | .concise value => value.unsupported

def Stmt.unsupported : Stmt → Option Construct
  | .expression value => value.unsupported
  | .declaration _ items => Declarator.unsupportedIn items
  | .function _ f => f.unsupported .asyncFunction
  | .block body => Stmt.unsupportedIn body
  | .empty | .debugger | .breakOff _ | .continueOn _ => none
  | .branch test yes no => test.unsupported <|> yes.unsupported <|> Stmt.unsupportedOption no
  | .whileLoop test body => test.unsupported <|> body.unsupported
  | .doLoop body test => test.unsupported <|> body.unsupported
  | .forLoop start test update body =>
    start.unsupported <|> Expr.unsupportedOption test <|> Expr.unsupportedOption update <|>
      body.unsupported
  | .returnValue value => Expr.unsupportedOption value
  | .throwValue value => value.unsupported
  | .tryBlock body handler finalizer =>
    Stmt.unsupportedIn body <|> handler.unsupported <|> finalizer.unsupported
  | .foreign what => some what

def Stmt.unsupportedOption : Option Stmt → Option Construct
  | none => none
  | some s => s.unsupported

def Stmt.unsupportedIn : List Stmt → Option Construct
  | [] => none
  | s :: rest => s.unsupported <|> Stmt.unsupportedIn rest

def Declarator.unsupportedIn : List Declarator → Option Construct
  | [] => none
  | .mk target value :: rest =>
    target.unsupported <|> Expr.unsupportedOption value <|> Declarator.unsupportedIn rest

def ForStart.unsupported : ForStart → Option Construct
  | .absent => none
  | .declaration _ items => Declarator.unsupportedIn items
  | .expression value => value.unsupported

def Handler.unsupported : Handler → Option Construct
  | .absent => none
  | .plain body => Stmt.unsupportedIn body
  | .binding param body => param.unsupported <|> Stmt.unsupportedIn body

def Finalizer.unsupported : Finalizer → Option Construct
  | .absent => none
  | .block body => Stmt.unsupportedIn body

end

def Construct.name : Construct → String
  | .classDefinition => "class"
  | .asyncFunction => "async function"
  | .generator => "generator"
  | .asyncArrow => "async arrow function"
  | .pattern => "destructuring or default parameter"
  | .spread => "spread"
  | .regularExpression => "regular expression"
  | .bigInteger => "BigInt"
  | .this => "this"
  | .getter => "getter"
  | .setter => "setter"
  | .label => "label"
  | .switch => "switch"
  | .forIn => "for-in"
  | .forOf => "for-of"
  | .withStatement => "with"
  | .taggedTemplate => "tagged template"
  | .optionalChaining => "optional chaining"

end Reprl.Source
