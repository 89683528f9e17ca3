import Reprl.Source.Grammar.Class
import Reprl.Source.Grammar.Operator

/-! Expressions, from the tightest forms to assignments. The flag `head` says that
a place is the start of an assignment expression, the only one for arrow functions. -/

namespace Reprl.Source.Grammar

open Reprl.Source.Parser

def element (g : Grammar) (ctx : Context) : Parser Element := do
  if ← eatMark "..." then return .spread (← g.assignment ctx.withIn)
  else return .item (← g.assignment ctx.withIn)

/-- Elements in parentheses, and whether a comma follows the last. -/
def elements (g : Grammar) (ctx : Context) : Parser (List Element × Bool) := do
  expectMark "("
  commaList ")" (g.element ctx)

def arguments (g : Grammar) (ctx : Context) : Parser (List Element) :=
  return (← g.elements ctx).1

/-- Reads template text from the current token on, past that token's first character. -/
def templateText (tagged : Bool) : Parser TemplateText := do
  match template? [] true (← get).rest with
  | some (text, after) =>
    require (tagged || text.wellFormed)
    resume after
    return text
  | none => failure

def cooked (text : TemplateText) : String := String.ofList (Text.cookChars text.raw)

def holes (g : Grammar) (ctx : Context) (tagged : Bool) : Nat → Parser (List Hole)
  | 0 => failure
  | fuel + 1 => do
    let value ← g.expression ctx
    require (← atMark "\x7d")
    let text ← templateText tagged
    if text.opens then return .mk value (cooked text) :: (← g.holes ctx tagged fuel)
    else return [.mk value (cooked text)]

/-- A template, with the cursor on its opening quote. -/
def template (g : Grammar) (ctx : Context) (tagged : Bool) : Parser Expr := do
  let text ← templateText tagged
  if text.opens then
    let holes ← g.holes ctx tagged ((← get).left + 1)
    return .template (cooked text) holes
  else return .template (cooked text) []

def arrayLiteral (g : Grammar) (ctx : Context) : Parser Expr := do
  let elements ← collect do
    if ← atMark "]" then return none
    else if ← eatMark "," then return some .elision
    else
      let element ← g.element ctx
      if !(← eatMark ",") then require (← atMark "]")
      return some element
  expectMark "]"
  return .array elements

/-- A word here is the name of a property and not a modifier before one. -/
def endsPropertyName (t : Token) : Bool :=
  t.isMark "," || t.isMark ":" || t.isMark "(" || t.isMark "\x7d" || t.isMark "="

def eatPropertyModifier (word : String) (sameLine : Bool) : Parser Bool := do
  let next ← ahead
  if (← atWord word) && !endsPropertyName next.token && !(sameLine && next.newline) then
    advance
    return true
  else return false

def method (g : Grammar) (ctx : Context) (async generator : Bool) : Parser Property := do
  let key ← g.propertyKey ctx
  return .method key (← g.functionTail (ctx.method async generator) none)

def accessor (g : Grammar) (ctx : Context) (reads : Bool) : Parser Property := do
  discard <| g.propertyKey ctx
  let f ← g.functionTail (ctx.method false false) none
  require (accessorFits reads f.params)
  return .foreign (if reads then .getter else .setter)

def property (g : Grammar) (ctx : Context) : Parser Property := do
  if ← eatMark "..." then return .spread (← g.assignment ctx.withIn)
  else if ← eatMark "*" then g.method ctx false true
  else if ← eatPropertyModifier "async" true then
    let generator ← eatMark "*"
    g.method ctx true generator
  else if ← eatPropertyModifier "get" false then g.accessor ctx true
  else if ← eatPropertyModifier "set" false then g.accessor ctx false
  else
    let first ← token
    let key ← g.propertyKey ctx
    if ← atMark "(" then
      return .method key (← g.functionTail (ctx.method false false) none)
    else if ← eatMark ":" then return .keyed key (← g.assignment ctx.withIn)
    else match first with
      | .word name _ =>
        require (ctx.allowsName name)
        if ← eatMark "=" then return .defaulted name (← g.assignment ctx.withIn)
        else return .shorthand name
      | _ => failure

def objectLiteral (g : Grammar) (ctx : Context) : Parser Expr := do
  let (properties, _) ← commaList "\x7d" (g.property ctx)
  return .object properties

def plainItem? : Element → Option Expr
  | .item value => some value
  | _ => none

/-- An expression in parentheses, or the parameters of an arrow function and it. Of
the object literals with a default that do not become patterns, those that stand
in such parentheses by themselves are refused, and all others are left alone. -/
def parenthesized (g : Grammar) (ctx : Context) (head : Bool) : Parser Expr := do
  let (items, trailing) ← g.elements ctx
  if ← atMark "=>" then
    require (head && !(← newlineBefore))
    let params ← (Element.toParams? ctx.strict trailing items : Option _)
    advance
    g.arrowTail ctx false params
  else
    require (!items.any Element.isDefaulted)
    match ← (items.mapM plainItem? : Option _) with
    | [] => failure
    | [value] => return .paren value
    | values => return .paren (.sequence values)

/-- An arrow function of one parameter, with the cursor on the parameter. -/
def shortArrow (g : Grammar) (ctx : Context) (async : Bool) : Parser Expr := do
  let name ← bindingName ctx
  require (!(← newlineBefore))
  expectMark "=>"
  g.arrowTail ctx async [.name name]

def isNameToken (ctx : Context) : Token → Bool
  | .word name _ => ctx.allowsName name
  | _ => false

/-- What starts with the word `async`: a function, or an ordinary use of the name. -/
def asyncForm (g : Grammar) (ctx : Context) (head : Bool) : Parser Expr := do
  let next ← ahead
  if !next.newline && next.token.isWord "function" then
    advance
    advance
    g.functionExpression ctx true
  else if head && !next.newline && isNameToken ctx next.token && next.next.token.isMark "=>" then
    advance
    g.shortArrow ctx true
  else if head && !next.newline && next.token.isMark "(" then
    advance
    let (items, trailing) ← g.elements ctx
    if (← atMark "=>") && !(← newlineBefore) then
      let params ← (Element.toParams? ctx.strict trailing items : Option _)
      advance
      g.arrowTail ctx true params
    else
      require (!items.any Element.isDefaulted)
      return .call (.identifier "async") items
  else if head && next.token.isMark "=>" then g.shortArrow ctx false
  else
    advance
    return .identifier "async"

def identifier (g : Grammar) (ctx : Context) (name : String) (head : Bool) : Parser Expr := do
  require (ctx.allowsName name)
  if head && (← ahead).token.isMark "=>" then g.shortArrow ctx false
  else
    advance
    return .identifier name

def wordForm (g : Grammar) (ctx : Context) (name : String) (head : Bool) : Parser Expr := do
  match name with
  | "function" => advance; g.functionExpression ctx false
  | "class" => advance; g.classExpression ctx
  | "async" => g.asyncForm ctx head
  | "this" => advance; return .foreign .this
  | "null" => advance; return .null
  | "true" => advance; return .bool true
  | "false" => advance; return .bool false
  | name => g.identifier ctx name head

def regularExpression : Parser Expr := do
  match regex? ((← get).start.drop 1) with
  | some after => resume after; return .foreign .regularExpression
  | none => failure

def primary (g : Grammar) (ctx : Context) (head : Bool) : Parser Expr := do
  match ← token with
  | .word name escaped =>
    if escaped then g.identifier ctx name head else g.wordForm ctx name head
  | .number value legacy =>
    require (!(legacy && ctx.strict))
    advance
    return .number value
  | .string value legacy _ =>
    require (!(legacy && ctx.strict))
    advance
    return .string value
  | .bigInteger => advance; return .foreign .bigInteger
  | .mark "(" => g.parenthesized ctx head
  | .mark "[" => advance; g.arrayLiteral ctx
  | .mark "\x7b" => advance; g.objectLiteral ctx
  | .mark "\x60" => g.template ctx false
  | .mark "/" | .mark "/=" => regularExpression
  | .classPrivate _ =>
    require (ctx.inClass && (← ahead).token.isWord "in")
    advance
    return .foreign .classDefinition
  | _ => failure

def pointKey (ctx : Context) : Parser Key := do
  match ← token with
  | .word name _ => advance; return .name name
  | .classPrivate name => require ctx.inClass; advance; return .classPrivate name
  | _ => failure

def bracketKey (g : Grammar) (ctx : Context) : Parser Key := do
  expectMark "["
  let value ← g.expression ctx
  expectMark "]"
  return .computed value

def optionalLink (g : Grammar) (ctx : Context) : Parser Unit := do
  if ← atMark "(" then discard <| g.arguments ctx
  else if ← atMark "[" then discard <| g.bracketKey ctx
  else discard <| pointKey ctx

/-- A value with the links read after it. A chain with an optional link is one
foreign construct as a whole. -/
structure Linked where
  value : Expr
  optional : Bool

def Linked.extend (l : Linked) (value : Expr) : Linked :=
  if l.optional then l else { l with value }

def link (g : Grammar) (ctx : Context) (calls : Bool) (l : Linked) : Parser (Option Linked) := do
  match ← token with
  | .mark "." =>
    advance
    return some (l.extend (.member l.value (← pointKey ctx)))
  | .mark "[" => return some (l.extend (.member l.value (← g.bracketKey ctx)))
  | .mark "(" =>
    if calls then return some (l.extend (.call l.value (← g.arguments ctx))) else return none
  | .mark "?." =>
    require calls
    advance
    g.optionalLink ctx
    return some ⟨.foreign .optionalChaining, true⟩
  | .mark "\x60" =>
    require (!l.optional)
    discard <| g.template ctx true
    return some ⟨.foreign .taggedTemplate, false⟩
  | _ => return none

def links (g : Grammar) (ctx : Context) (calls : Bool) (value : Expr) : Parser Expr := do
  return (← iterate (g.link ctx calls) ⟨value, false⟩).value

def superForm (g : Grammar) (ctx : Context) : Parser Expr := do
  expectWord "super"
  if ← atMark "(" then
    require ctx.superCall
    return .superCall (← g.arguments ctx)
  require ctx.superMember
  if ← eatMark "." then return .superMember (← pointKey ctx)
  else return .superMember (← g.bracketKey ctx)

def isSpread : Element → Bool
  | .spread _ => true
  | _ => false

def importForm (g : Grammar) (ctx : Context) : Parser Expr := do
  expectWord "import"
  let args ← g.arguments ctx
  require (!args.isEmpty && args.length ≤ 2 && !args.any isSpread)
  return .importCall args

def constructRule (g : Grammar) (ctx : Context) : Parser Expr := do
  expectWord "new"
  if ← eatMark "." then
    expectWord "target"
    require ctx.newTarget
    return .newTarget
  let base ←
    if ← atWord "new" then g.construct ctx
    else if ← atWord "super" then g.superForm ctx
    else if ← atWord "import" then failure
    else g.primary ctx false
  let callee ← g.links ctx false base
  let args ← if ← atMark "(" then g.arguments ctx else pure []
  return .construct callee args

def isArrow : Expr → Bool
  | .arrow _ => true
  | _ => false

def leftHandSideRule (g : Grammar) (ctx : Context) (head : Bool) : Parser Expr := do
  let base ←
    if ← atWord "new" then g.constructRule ctx
    else if ← atWord "super" then g.superForm ctx
    else if ← atWord "import" then g.importForm ctx
    else g.primary ctx head
  if isArrow base then return base else g.links ctx true base

def postfixForm (g : Grammar) (ctx : Context) (head : Bool) : Parser Expr := do
  let value ← g.leftHandSideRule ctx head
  if isArrow value then return value
  match updateOp? (← token), ← newlineBefore with
  | some op, false =>
    require (value.isPlace ctx.strict)
    advance
    return .update op false value
  | _, _ => return value

def isIdentifier : Expr → Bool
  | .identifier _ => true
  | _ => false

def unaryRule (g : Grammar) (ctx : Context) (head : Bool) : Parser Expr := do
  let first ← token
  match unaryOp? first, updateOp? first with
  | some op, _ =>
    advance
    let arg ← g.unary ctx
    require (!(op = .delete && ctx.strict && isIdentifier arg))
    return .unary op arg
  | none, some op =>
    advance
    let place ← g.unary ctx
    require (place.isPlace ctx.strict)
    return .update op true place
  | none, none =>
    if ctx.inAsync && first.isWord "await" then
      advance
      return .await (← g.unary ctx)
    else g.postfixForm ctx head

def operands (g : Grammar) (ctx : Context) (head : Bool) : Parser Expr := do
  let first ← g.unaryRule ctx head
  if isArrow first then return first
  let rest ← collect do
    match between? ctx (← token) with
    | none => return none
    | some op =>
      advance
      return some (op, ← g.unaryRule ctx false)
  (group first rest : Option Expr)

def conditional (g : Grammar) (ctx : Context) (head : Bool) : Parser Expr := do
  let test ← g.operands ctx head
  if isArrow test then return test
  else if ← eatMark "?" then
    let yes ← g.assignment ctx.withIn
    expectMark ":"
    return .conditional test yes (← g.assignment ctx)
  else return test

/-- Nothing more belongs to a `yield` before this token. -/
def endsYield (t : Token) : Bool :=
  [")", "]", "\x7d", ",", ";", ":"].any t.isMark || t.isFinish || t.isWord "in" || t.isWord "of"

def yieldForm (g : Grammar) (ctx : Context) : Parser Expr := do
  expectWord "yield"
  if (← newlineBefore) || endsYield (← token) then return .yield none
  else
    discard <| eatMark "*"
    return .yield (some (← g.assignment ctx))

def assignmentRule (g : Grammar) (ctx : Context) : Parser Expr := do
  if ctx.inGenerator && (← atWord "yield") then g.yieldForm ctx
  else
    let left ← g.conditional ctx true
    if isArrow left then return left
    match assignOp? (← token) with
    | none => return left
    | some .plain =>
      let target ← (left.toTarget? ctx.strict : Option _)
      advance
      return .assign .plain target (← g.assignment ctx)
    | some op =>
      require (left.isPlace ctx.strict)
      advance
      return .assign op (.place left) (← g.assignment ctx)

def expressionRule (g : Grammar) (ctx : Context) : Parser Expr := sequenceOf g.assignmentRule ctx

end Reprl.Source.Grammar
