import Reprl.Source.Grammar.Function

/-! Classes. They are read to their end, and nothing of them is kept. -/

namespace Reprl.Source.Grammar

open Reprl.Source.Parser

/-- A word here is the name of a member and not a modifier before one. -/
def endsMemberName (t : Token) : Bool :=
  t.isMark "(" || t.isMark "=" || t.isMark ";" || t.isMark "\x7d" || t.isFinish

def eatModifier (word : String) (sameLine : Bool) : Parser Bool := do
  let next ← ahead
  if (← atWord word) && !endsMemberName next.token && !(sameLine && next.newline) then
    advance
    return true
  else return false

def classKey (g : Grammar) (ctx : Context) : Parser Key := do
  match ← token with
  | .classPrivate name => advance; return .classPrivate name
  | _ => g.propertyKey ctx

def isConstructorKey : Key → Bool
  | .name name | .string name => name = "constructor"
  | _ => false

def staticBlock (g : Grammar) (ctx : Context) : Parser Unit := do
  advance
  discard <| g.statements { ctx.method false false with inFunction := false }
  expectMark "\x7d"

/-- A member of a class; the result says whether it is the constructor. -/
def classMember (g : Grammar) (ctx : Context) (derived : Bool) : Parser Bool := do
  let static ← eatModifier "static" false
  if static && (← atMark "\x7b") then
    g.staticBlock ctx
    return false
  let async ← eatModifier "async" true
  let generator ← eatMark "*"
  let reads ← if async || generator then pure false else eatModifier "get" false
  let writes ← if async || generator || reads then pure false else eatModifier "set" false
  let key ← g.classKey ctx
  let constructs := !static && isConstructorKey key
  if ← atMark "(" then
    require (!constructs || !(async || generator || reads || writes))
    let inner := ctx.method async generator
    let f ← g.functionTail { inner with superCall := constructs && derived } none
    require (!(reads || writes) || accessorFits reads f.params)
    return constructs
  else
    require (!(async || generator || reads || writes) && !isConstructorKey key)
    if ← eatMark "=" then
      discard <| g.assignment (ctx.method false false)
    endStatement
    return false

/-- Superclass and members of a class, after its name if it has one. -/
def classTail (g : Grammar) (ctx : Context) : Parser Unit := do
  let ctx := { ctx with strict := true, inClass := true }
  let derived ← eatWord "extends"
  if derived then discard <| g.leftHandSide ctx
  expectMark "\x7b"
  let members ← collect do
    if ← atMark "\x7d" then return none
    else if ← eatMark ";" then return some false
    else return some (← g.classMember ctx derived)
  expectMark "\x7d"
  require ((members.filter id).length ≤ 1)

def classExpression (g : Grammar) (ctx : Context) : Parser Expr := do
  if !(← atMark "\x7b") && !(← atWord "extends") then
    discard <| bindingName { ctx with strict := true }
  g.classTail ctx
  return .foreign .classDefinition

def classDeclaration (g : Grammar) (ctx : Context) : Parser Stmt := do
  discard <| bindingName { ctx with strict := true }
  g.classTail ctx
  return .foreign .classDefinition

end Reprl.Source.Grammar
