import Reprl.Source.Cover

/-! Functions and what they are made of: property keys, binding patterns,
parameters and bodies. Rules that lead back to themselves go through a `Grammar`,
and only after something is read. -/

namespace Reprl.Source

open Reprl.Source.Parser

/-- The rules of the grammar that other rules lead back to. -/
structure Grammar where
  assignment : Context → Parser Expr
  unary : Context → Parser Expr
  construct : Context → Parser Expr
  leftHandSide : Context → Parser Expr
  pattern : Context → Parser Pattern
  /-- The flag says whether declarations may stand here. -/
  statement : Context → Bool → Parser Stmt

def sequenceOf (assignment : Context → Parser Expr) (ctx : Context) : Parser Expr := do
  let first ← assignment ctx
  if !(← atMark ",") then return first
  let others ← collect do
    if ← eatMark "," then return some (← assignment ctx) else return none
  return .sequence (first :: others)

namespace Grammar

def expression (g : Grammar) (ctx : Context) : Parser Expr := sequenceOf g.assignment ctx.withIn

def computedKey (g : Grammar) (ctx : Context) : Parser Key := do
  expectMark "["
  let value ← g.assignment ctx.withIn
  expectMark "]"
  return .computed value

def propertyKey (g : Grammar) (ctx : Context) : Parser Key := do
  match ← token with
  | .word name _ => advance; return .name name
  | .string value legacy _ => require (!(legacy && ctx.strict)); advance; return .string value
  | .number value legacy => require (!(legacy && ctx.strict)); advance; return .number value
  | .bigInteger => advance; return .bigInteger
  | _ => g.computedKey ctx

def bindingName (ctx : Context) : Parser String := do
  match ← token with
  | .word name _ => require (ctx.allowsBinding name); advance; return name
  | _ => failure

def bindingElement (g : Grammar) (ctx : Context) : Parser Pattern := do
  let pattern ← g.pattern ctx
  if ← eatMark "=" then return .defaulted pattern (← g.assignment ctx.withIn)
  else return pattern

/-- An element and its comma, or the last elements up to a closing mark. -/
def listedElement (g : Grammar) (ctx : Context) (closing : String) : Parser Pattern := do
  if ← eatMark "..." then
    let pattern ← g.pattern ctx
    require (← atMark closing)
    return .rest pattern
  else
    let element ← g.bindingElement ctx
    if !(← eatMark ",") then require (← atMark closing)
    return element

def arrayPattern (g : Grammar) (ctx : Context) : Parser Pattern := do
  let elements ← collect do
    if ← atMark "]" then return none
    else if ← eatMark "," then return some .elision
    else return some (← g.listedElement ctx "]")
  expectMark "]"
  return .array elements

def patternProperty (g : Grammar) (ctx : Context) : Parser PatternProperty := do
  if ← eatMark "..." then
    let name ← bindingName ctx
    require (← atMark "\x7d")
    return .rest (.name name)
  else
    let first ← token
    let key ← g.propertyKey ctx
    if ← eatMark ":" then return .keyed key (← g.bindingElement ctx)
    else match first with
      | .word name _ =>
        require (ctx.allowsBinding name)
        if ← eatMark "=" then return .shorthand name (some (← g.assignment ctx.withIn))
        else return .shorthand name none
      | _ => failure

def patternRule (g : Grammar) (ctx : Context) : Parser Pattern := do
  if ← eatMark "[" then g.arrayPattern ctx
  else if ← eatMark "\x7b" then
    let (properties, _) ← commaList "\x7d" (g.patternProperty ctx)
    return .object properties
  else return .name (← bindingName ctx)

def parameters (g : Grammar) (ctx : Context) : Parser (List Pattern) := do
  expectMark "("
  let params ← collect do
    if ← atMark ")" then return none else return some (← g.listedElement ctx ")")
  expectMark ")"
  return params

def statements (g : Grammar) (ctx : Context) : Parser (List Stmt) :=
  collect do
    if (← atMark "\x7d") || (← token).isFinish then return none
    else return some (← g.statement ctx true)

def isDirective : Token → Bool
  | .string _ _ directive => directive
  | _ => false

def isStringStatement : Stmt → Bool
  | .expression (.string _) => true
  | _ => false

/-- Statements of which the first may be a directive that makes the rest strict.
The flag says whether it is. -/
def bodyStatements (g : Grammar) (ctx : Context) : Parser (List Stmt × Bool) := do
  if isDirective (← token) then
    let first ← g.statement ctx true
    let strict := isStringStatement first
    let rest ← g.statements { ctx with strict := ctx.strict || strict }
    return (first :: rest, strict)
  else return (← g.statements ctx, false)

/-- A function body in braces. It may turn strict only if all parameters are names. -/
def functionBody (g : Grammar) (ctx : Context) (params : List Pattern) :
    Parser (List Stmt) := do
  expectMark "\x7b"
  let (body, strict) ← g.bodyStatements ctx
  expectMark "\x7d"
  require (!strict || params.all Pattern.isName)
  return body

def functionTail (g : Grammar) (ctx : Context) (name : Option String) : Parser Function := do
  let params ← g.parameters ctx
  let body ← g.functionBody ctx params
  return .mk name params (.block body) ctx.inAsync ctx.inGenerator

def functionExpression (g : Grammar) (ctx : Context) (async : Bool) : Parser Expr := do
  let generator ← eatMark "*"
  let ctx := ctx.function async generator
  if ← atMark "(" then return .function (← g.functionTail ctx none)
  else
    let name ← bindingName ctx
    return .function (← g.functionTail ctx (some name))

def functionDeclaration (g : Grammar) (ctx : Context) (async : Bool) : Parser Stmt := do
  let generator ← eatMark "*"
  let name ← bindingName ctx
  return .function name (← g.functionTail (ctx.function async generator) (some name))

/-- Accessors take nothing to read a value and one parameter to write it. -/
def accessorFits (reads : Bool) (params : List Pattern) : Bool :=
  if reads then params.isEmpty
  else match params with
    | [.rest _] => false
    | [_] => true
    | _ => false

/-- What follows the body of an arrow function's parameters and the arrow. -/
def arrowTail (g : Grammar) (ctx : Context) (async : Bool) (params : List Pattern) :
    Parser Expr := do
  if ← atMark "\x7b" then
    let body ← g.functionBody (ctx.body async false) params
    return .arrow (.mk none params (.block body) async false)
  else
    let value ← g.assignment { ctx with inAsync := async, inGenerator := false }
    return .arrow (.mk none params (.concise value) async false)

end Grammar

end Reprl.Source
