import Reprl.Source.Token
import Reprl.Source.Tree

/-! Parsers: functions that read a tree from a cursor or refuse the text. Why a
text is refused is not kept, since all refusals are the same error. -/

namespace Reprl.Source

abbrev Parser := StateT Cursor Option

structure Context where
  strict : Bool := false
  inFunction : Bool := false
  inGenerator : Bool := false
  inAsync : Bool := false
  inClass : Bool := false
  canBreak : Bool := false
  canContinue : Bool := false
  labels : List String := []
  /-- The operator `in` may stand here, as it may not in the head of a loop. -/
  allowIn : Bool := true
  superMember : Bool := false
  superCall : Bool := false
  newTarget : Bool := false
  /-- The statements of the script itself, in no block or function. -/
  topLevel : Bool := false

namespace Context

def withIn (ctx : Context) : Context := { ctx with allowIn := true }

def withoutIn (ctx : Context) : Context := { ctx with allowIn := false }

/-- Inside a function none of the loops and labels around it can be left. -/
def body (ctx : Context) (async generator : Bool) : Context :=
  { ctx with
    inFunction := true, inAsync := async, inGenerator := generator
    canBreak := false, canContinue := false, labels := [], allowIn := true
    topLevel := false }

def function (ctx : Context) (async generator : Bool) : Context :=
  { ctx.body async generator with superMember := false, superCall := false, newTarget := true }

def method (ctx : Context) (async generator : Bool) : Context :=
  { ctx.body async generator with superMember := true, superCall := false, newTarget := true }

def loop (ctx : Context) : Context := { ctx with canBreak := true, canContinue := true }

end Context

def reservedWords : List String :=
  ["break", "case", "catch", "class", "const", "continue", "debugger", "default", "delete",
    "do", "else", "enum", "export", "extends", "false", "finally", "for", "function", "if",
    "import", "in", "instanceof", "new", "null", "return", "super", "switch", "this", "throw",
    "true", "try", "typeof", "var", "void", "while", "with"]

def strictReservedWords : List String :=
  ["implements", "interface", "let", "package", "private", "protected", "public", "static",
    "yield"]

/-- A word can name a variable here. -/
def Context.allowsName (ctx : Context) (name : String) : Bool :=
  !reservedWords.contains name &&
    !(ctx.strict && strictReservedWords.contains name) &&
    !(ctx.inGenerator && name = "yield") && !(ctx.inAsync && name = "await")

/-- A word can name a variable that is declared here. -/
def Context.allowsBinding (ctx : Context) (name : String) : Bool :=
  ctx.allowsName name && !(ctx.strict && (name = "eval" || name = "arguments"))

namespace Token

def isMark (t : Token) (text : String) : Bool :=
  match t with
  | .mark m => m = text
  | _ => false

def isWord (t : Token) (name : String) : Bool :=
  match t with
  | .word w escaped => w = name && !escaped
  | _ => false

def isFinish : Token → Bool
  | .finish => true
  | _ => false

end Token

namespace Parser

variable {α : Type}

def token : Parser Token := do return (← get).token

def newlineBefore : Parser Bool := do return (← get).newline

def ahead : Parser Cursor := do return (← get).next

def advance : Parser Unit := modify Cursor.next

def require (condition : Bool) : Parser Unit := if condition then pure () else failure

def atMark (text : String) : Parser Bool := do return (← token).isMark text

def atWord (name : String) : Parser Bool := do return (← token).isWord name

def eatMark (text : String) : Parser Bool := do
  if ← atMark text then advance; return true else return false

def eatWord (name : String) : Parser Bool := do
  if ← atWord name then advance; return true else return false

def expectMark (text : String) : Parser Unit := do require (← eatMark text)

def expectWord (name : String) : Parser Unit := do require (← eatWord name)

/-- Runs a step until it gives nothing, at most `fuel` times. -/
def collectFrom (step : Parser (Option α)) : Nat → List α → Parser (List α)
  | 0, _ => failure
  | fuel + 1, found => do
    match ← step with
    | none => return found.reverse
    | some item => collectFrom step fuel (item :: found)

/-- Runs a step that reads something until it gives nothing. -/
def collect (step : Parser (Option α)) : Parser (List α) := do
  collectFrom step ((← get).left + 1) []

/-- Changes a value by a step that reads something until the step gives nothing. -/
def iterateFrom (step : α → Parser (Option α)) : Nat → α → Parser α
  | 0, _ => failure
  | fuel + 1, value => do
    match ← step value with
    | none => return value
    | some next => iterateFrom step fuel next

def iterate (step : α → Parser (Option α)) (value : α) : Parser α := do
  iterateFrom step ((← get).left + 1) value

/-- Items between commas up to a closing mark, which is read too. A comma may
follow the last item; the result says whether one does. -/
def commaList (closing : String) (item : Parser α) : Parser (List α × Bool) := do
  let items ← collect do
    if ← atMark closing then return none
    else
      let value ← item
      let comma ← eatMark ","
      if !comma then require (← atMark closing)
      return some (value, comma)
  expectMark closing
  return (items.map (·.1), (items.getLast?.map (·.2)).getD false)

/-- The end of a statement: a semicolon, or a place where one may be left out. -/
def endStatement : Parser Unit := do
  if ← eatMark ";" then return
  let c ← get
  require (c.newline || c.token.isMark "\x7d" || c.token.isFinish)

def resume (text : List Char) : Parser Unit :=
  modify fun c => Cursor.read false (c.left - 1) text

end Parser

end Reprl.Source
