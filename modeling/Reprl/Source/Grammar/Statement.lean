import Reprl.Source.Grammar.Expression

/-! Statements and declarations, and the grammar as a whole. Bodies of loops and branches
take statements only, blocks and function bodies take declarations too. Rules lead back to
one another through a grammar that allows one step less, so a text of `n` characters needs
fewer than `n + 2` steps. -/

namespace Reprl.Source

open Reprl.Source.Parser

mutual

/-- Some name that the pattern declares satisfies a test. -/
def Pattern.anyName (p : String → Bool) : Pattern → Bool
  | .name name => p name
  | .elision | .place _ => false
  | .array elements => Pattern.anyNameIn p elements
  | .object properties => Pattern.anyPropertyName p properties
  | .defaulted pattern _ => pattern.anyName p
  | .rest pattern => pattern.anyName p

def Pattern.anyNameIn (p : String → Bool) : List Pattern → Bool
  | [] => false
  | pattern :: rest => pattern.anyName p || Pattern.anyNameIn p rest

def Pattern.anyPropertyName (p : String → Bool) : List PatternProperty → Bool
  | [] => false
  | property :: rest => property.anyName p || Pattern.anyPropertyName p rest

def PatternProperty.anyName (p : String → Bool) : PatternProperty → Bool
  | .keyed _ value => value.anyName p
  | .shorthand name _ => p name
  | .rest pattern => pattern.anyName p

end

namespace Grammar

def block (g : Grammar) (ctx : Context) : Parser (List Stmt) := do
  expectMark "\x7b"
  let body ← g.statements ctx
  expectMark "\x7d"
  return body

def parenExpression (g : Grammar) (ctx : Context) : Parser Expr := do
  expectMark "("
  let value ← g.expression ctx
  expectMark ")"
  return value

/-- The token after the word `let` makes it open a declaration. -/
def followsLet : Token → Bool
  | .word name _ => !reservedWords.contains name
  | t => t.isMark "[" || t.isMark "\x7b"

def varKind? (declares : Bool) : Parser (Option VarKind) := do
  if ← atWord "var" then return some .var
  else if declares && (← atWord "const") then return some .constant
  else if declares && (← atWord "let") && followsLet (← ahead).token then return some .lexical
  else return none

def declarator (g : Grammar) (ctx : Context) (kind : VarKind) : Parser Declarator := do
  let target ← g.pattern ctx
  require (kind = .var || !target.anyName (· = "let"))
  if ← eatMark "=" then return .mk target (some (← g.assignment ctx))
  else return .mk target none

def declarators (g : Grammar) (ctx : Context) (kind : VarKind) : Parser (List Declarator) := do
  advance
  let first ← g.declarator ctx kind
  let others ← collect do
    if ← eatMark "," then return some (← g.declarator ctx kind) else return none
  return first :: others

def Declarator.hasValue : Declarator → Bool
  | .mk _ value => value.isSome

/-- A declaration outside the head of a loop over something gives values to
constants and patterns. -/
def isComplete (kind : VarKind) : Declarator → Bool
  | .mk target value => value.isSome || (target.isName && kind ≠ .constant)

def variableDeclaration (g : Grammar) (ctx : Context) (kind : VarKind) : Parser Stmt := do
  let items ← g.declarators ctx.withIn kind
  require (items.all (isComplete kind))
  endStatement
  return .declaration kind items

def branch (g : Grammar) (ctx : Context) : Parser Stmt := do
  expectWord "if"
  let test ← g.parenExpression ctx
  let yes ← g.statement ctx false
  if ← eatWord "else" then return .branch test yes (some (← g.statement ctx false))
  else return .branch test yes none

def whileLoop (g : Grammar) (ctx : Context) : Parser Stmt := do
  expectWord "while"
  let test ← g.parenExpression ctx
  return .whileLoop test (← g.statement ctx.loop false)

def doLoop (g : Grammar) (ctx : Context) : Parser Stmt := do
  expectWord "do"
  let body ← g.statement ctx.loop false
  expectWord "while"
  let test ← g.parenExpression ctx
  discard <| eatMark ";"
  return .doLoop body test

def loopOver (g : Grammar) (ctx : Context) (what : Construct) : Parser Stmt := do
  advance
  discard <| if what = .forIn then g.expression ctx else g.assignment ctx.withIn
  expectMark ")"
  discard <| g.statement ctx.loop false
  return .foreign what

def countingLoop (g : Grammar) (ctx : Context) (start : ForStart) : Parser Stmt := do
  expectMark ";"
  let test ← if ← atMark ";" then pure none else some <$> g.expression ctx
  expectMark ";"
  let update ← if ← atMark ")" then pure none else some <$> g.expression ctx
  expectMark ")"
  return .forLoop start test update (← g.statement ctx.loop false)

def overWhat? : Token → Option Construct
  | .word "in" false => some .forIn
  | .word "of" false => some .forOf
  | _ => none

def forLoop (g : Grammar) (ctx : Context) : Parser Stmt := do
  expectWord "for"
  let awaits ← if ctx.inAsync then eatWord "await" else pure false
  expectMark "("
  match ← varKind? true with
  | some kind =>
    let items ← g.declarators ctx.withoutIn kind
    match overWhat? (← token), items with
    | some what, [item] =>
      require (!Declarator.hasValue item || (what = .forIn && !ctx.strict))
      require (!awaits || what = .forOf)
      g.loopOver ctx what
    | some _, _ => failure
    | none, _ =>
      require (!awaits && items.all (isComplete kind))
      g.countingLoop ctx (.declaration kind items)
  | none =>
    if ← atMark ";" then
      require !awaits
      g.countingLoop ctx .absent
    else
      let first ← token
      let value ← sequenceOf g.assignment ctx.withoutIn
      match overWhat? (← token) with
      | some what =>
        require ((value.toTarget? ctx.strict).isSome && (!awaits || what = .forOf))
        -- a bare `async` before `of` could start an arrow function
        require (!(first.isWord "async" && isIdentifier value && what = .forOf && !awaits))
        g.loopOver ctx what
      | none =>
        require !awaits
        g.countingLoop ctx (.expression value)

def jumpLabel (ctx : Context) : Parser (Option String) := do
  match ← token with
  | .word name _ =>
    if ← newlineBefore then
      endStatement
      return none
    else
      require (ctx.allowsName name)
      advance
      endStatement
      return some name
  | _ =>
    endStatement
    return none

def jump (ctx : Context) (breaks : Bool) : Parser Stmt := do
  advance
  let label ← jumpLabel ctx
  require (if breaks then ctx.canBreak else ctx.canContinue)
  require (label.all ctx.labels.contains)
  return if breaks then .breakOff label else .continueOn label

def returnValue (g : Grammar) (ctx : Context) : Parser Stmt := do
  expectWord "return"
  require ctx.inFunction
  let c ← get
  if c.newline || c.token.isMark ";" || c.token.isMark "\x7d" || c.token.isFinish then
    endStatement
    return .returnValue none
  else
    let value ← g.expression ctx
    endStatement
    return .returnValue (some value)

def throwValue (g : Grammar) (ctx : Context) : Parser Stmt := do
  expectWord "throw"
  require (!(← newlineBefore))
  let value ← g.expression ctx
  endStatement
  return .throwValue value

def handler (g : Grammar) (ctx : Context) : Parser Handler := do
  if !(← eatWord "catch") then return .absent
  else if ← eatMark "(" then
    let param ← g.pattern ctx
    expectMark ")"
    return .binding param (← g.block ctx)
  else return .plain (← g.block ctx)

def finalizer (g : Grammar) (ctx : Context) : Parser Finalizer := do
  if ← eatWord "finally" then return .block (← g.block ctx) else return .absent

def tryBlock (g : Grammar) (ctx : Context) : Parser Stmt := do
  expectWord "try"
  let body ← g.block ctx
  match ← g.handler ctx, ← g.finalizer ctx with
  | .absent, .absent => failure
  | handler, finalizer => return .tryBlock body handler finalizer

def atCaseEnd : Parser Bool := do
  return (← atMark "\x7d") || (← atWord "case") || (← atWord "default")

/-- One case of a switch; the result says whether it is the default. -/
def switchCase (g : Grammar) (ctx : Context) : Parser Bool := do
  let isDefault ← eatWord "default"
  if !isDefault then
    expectWord "case"
    discard <| g.expression ctx
  expectMark ":"
  discard <| collect do
    if (← atCaseEnd) || (← token).isFinish then return none
    else return some (← g.statement ctx true)
  return isDefault

def switchForm (g : Grammar) (ctx : Context) : Parser Stmt := do
  expectWord "switch"
  discard <| g.parenExpression ctx
  expectMark "\x7b"
  let cases ← collect do
    if ← atMark "\x7d" then return none
    else return some (← g.switchCase { ctx with canBreak := true })
  expectMark "\x7d"
  require ((cases.filter id).length ≤ 1)
  return .foreign .switch

def withForm (g : Grammar) (ctx : Context) : Parser Stmt := do
  expectWord "with"
  require !ctx.strict
  discard <| g.parenExpression ctx
  discard <| g.statement ctx false
  return .foreign .withStatement

def labelled (g : Grammar) (ctx : Context) (name : String) : Parser Stmt := do
  require (!ctx.labels.contains name)
  let ctx := { ctx with labels := name :: ctx.labels, canBreak := true }
  if ← eatWord "function" then
    require (!(← atMark "*"))
    discard <| g.functionDeclaration ctx false
  else discard <| g.statement ctx false
  return .foreign .label

def expressionStatement (g : Grammar) (ctx : Context) : Parser Stmt := do
  let value ← g.expressionRule ctx.withIn
  if isIdentifier value && (← atMark ":") then
    advance
    match value with
    | .identifier name => g.labelled ctx name
    | _ => failure
  else
    endStatement
    return .expression value

/-- An imported module as the start of an expression. No semicolon is asked for. -/
def importStatement (g : Grammar) (ctx : Context) : Parser Stmt := do
  require ((← ahead).token.isMark "(")
  let value ← g.expressionRule ctx.withIn
  discard <| eatMark ";"
  return .expression value

def declaration? (g : Grammar) (ctx : Context) (declares : Bool) : Parser (Option Stmt) := do
  let next ← ahead
  match ← varKind? declares with
  | some kind => return some (← g.variableDeclaration ctx kind)
  | none =>
    if ← atWord "function" then
      require declares
      advance
      return some (← g.functionDeclaration ctx false)
    else if ← atWord "class" then
      require declares
      advance
      return some (← g.classDeclaration ctx)
    else if (← atWord "async") && next.token.isWord "function" && !next.newline then
      advance
      advance
      return some (← g.functionDeclaration ctx true)
    else return none

def wordStatement? (g : Grammar) (ctx : Context) (word : String) : Parser (Option Stmt) := do
  match word with
  | "if" => return some (← g.branch ctx)
  | "while" => return some (← g.whileLoop ctx)
  | "do" => return some (← g.doLoop ctx)
  | "for" => return some (← g.forLoop ctx)
  | "break" => return some (← jump ctx true)
  | "continue" => return some (← jump ctx false)
  | "return" => return some (← g.returnValue ctx)
  | "throw" => return some (← g.throwValue ctx)
  | "try" => return some (← g.tryBlock ctx)
  | "switch" => return some (← g.switchForm ctx)
  | "with" => return some (← g.withForm ctx)
  | "import" => return some (← g.importStatement ctx)
  | "debugger" =>
    advance
    endStatement
    return some .debugger
  | _ => return none

def statementRule (g : Grammar) (ctx : Context) (declares : Bool) : Parser Stmt := do
  let first ← token
  -- at the top of a script `await` does not start a statement
  require (!(ctx.topLevel && first.isWord "await"))
  let ctx := { ctx with topLevel := false }
  if first.isMark "\x7b" then return .block (← g.block ctx)
  else if ← eatMark ";" then return .empty
  else match ← g.declaration? ctx declares with
    | some stmt => return stmt
    | none =>
      match first with
      | .word word false =>
        match ← g.wordStatement? ctx word with
        | some stmt => return stmt
        | none => g.expressionStatement ctx
      | _ => g.expressionStatement ctx

def exhausted : Grammar where
  assignment _ := failure
  unary _ := failure
  construct _ := failure
  leftHandSide _ := failure
  pattern _ := failure
  statement _ _ := failure

def withSteps : Nat → Grammar
  | 0 => exhausted
  | n + 1 =>
    { assignment := fun ctx => (withSteps n).assignmentRule ctx
      unary := fun ctx => (withSteps n).unaryRule ctx false
      construct := fun ctx => (withSteps n).constructRule ctx
      leftHandSide := fun ctx => (withSteps n).leftHandSideRule ctx false
      pattern := fun ctx => (withSteps n).patternRule ctx
      statement := fun ctx declares => (withSteps n).statementRule ctx declares }

end Grammar

end Reprl.Source
