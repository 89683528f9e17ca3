/-! Syntax trees of scripts. Constructs that are read but have no meaning here are
leaves that only say what they are, since nothing inside them is looked at. -/

namespace Reprl.Source

/-- Constructs that scripts may not use, although they are well formed. -/
inductive Construct where
  | classDefinition
  | asyncFunction
  | generator
  | asyncArrow
  | pattern
  | spread
  | regularExpression
  | bigInteger
  | this
  | getter
  | setter
  | label
  | switch
  | forIn
  | forOf
  | withStatement
  | taggedTemplate
  | optionalChaining
  deriving DecidableEq, Repr

inductive UnaryOp where
  | minus | plus | not | complement | typeof | void | delete
  deriving DecidableEq, Repr

inductive BinaryOp where
  | add | subtract | multiply | divide | remainder | power
  | equal | notEqual | strictEqual | strictNotEqual
  | less | lessEqual | greater | greaterEqual
  | bitAnd | bitOr | bitXor
  | shiftLeft | shiftRight | shiftRightUnsigned
  | membership | instanceOf
  deriving DecidableEq, Repr

inductive LogicalOp where
  | and | or | nullish
  deriving DecidableEq, Repr

inductive AssignOp where
  | plain
  | compound (op : BinaryOp)
  | logical (op : LogicalOp)
  deriving DecidableEq, Repr

inductive UpdateOp where
  | increment | decrement
  deriving DecidableEq, Repr

inductive VarKind where
  | var | lexical | constant
  deriving DecidableEq, Repr

mutual

inductive Expr where
  | identifier (name : String)
  | number (value : Float)
  | string (value : String)
  | bool (value : Bool)
  | null
  | template (head : String) (holes : List Hole)
  | paren (inner : Expr)
  | sequence (items : List Expr)
  | array (elements : List Element)
  | object (properties : List Property)
  | function (f : Function)
  | arrow (f : Function)
  | unary (op : UnaryOp) (arg : Expr)
  | binary (op : BinaryOp) (left right : Expr)
  | logical (op : LogicalOp) (left right : Expr)
  | conditional (test yes no : Expr)
  /-- The operator stands before the place if `before` holds, else after it. -/
  | update (op : UpdateOp) (before : Bool) (place : Expr)
  | assign (op : AssignOp) (target : Target) (value : Expr)
  | member (object : Expr) (key : Key)
  | call (callee : Expr) (args : List Element)
  | construct (callee : Expr) (args : List Element)
  | superMember (key : Key)
  | superCall (args : List Element)
  | importCall (args : List Element)
  | newTarget
  | await (arg : Expr)
  | yield (arg : Option Expr)
  | foreign (what : Construct)

/-- A substitution of a template with the text after it. -/
inductive Hole where
  | mk (value : Expr) (text : String)

/-- An element of an array or an argument of a call. Arguments are never left out. -/
inductive Element where
  | elision
  | item (value : Expr)
  | spread (value : Expr)

inductive Property where
  | keyed (key : Key) (value : Expr)
  | shorthand (name : String)
  | method (key : Key) (f : Function)
  /-- A name with a default, which has a meaning in patterns only. -/
  | defaulted (name : String) (value : Expr)
  | spread (value : Expr)
  | foreign (what : Construct)

inductive Key where
  | name (text : String)
  | string (value : String)
  | number (value : Float)
  | bigInteger
  | computed (value : Expr)
  /-- The name of a member that only its class can see. -/
  | classPrivate (name : String)

inductive Target where
  | place (value : Expr)
  | pattern (value : Pattern)

inductive Pattern where
  | name (name : String)
  | elision
  | array (elements : List Pattern)
  | object (properties : List PatternProperty)
  | defaulted (pattern : Pattern) (value : Expr)
  | rest (pattern : Pattern)
  | place (value : Expr)

inductive PatternProperty where
  | keyed (key : Key) (value : Pattern)
  | shorthand (name : String) (value : Option Expr)
  | rest (pattern : Pattern)

inductive Function where
  | mk (name : Option String) (params : List Pattern) (body : Body) (async generator : Bool)

inductive Body where
  | block (statements : List Stmt)
  | concise (value : Expr)

inductive Stmt where
  | expression (value : Expr)
  | declaration (kind : VarKind) (items : List Declarator)
  | function (name : String) (f : Function)
  | block (body : List Stmt)
  | empty
  | debugger
  | branch (test : Expr) (yes : Stmt) (no : Option Stmt)
  | whileLoop (test : Expr) (body : Stmt)
  | doLoop (body : Stmt) (test : Expr)
  | forLoop (start : ForStart) (test update : Option Expr) (body : Stmt)
  | breakOff (label : Option String)
  | continueOn (label : Option String)
  | returnValue (value : Option Expr)
  | throwValue (value : Expr)
  | tryBlock (body : List Stmt) (handler : Handler) (finalizer : Finalizer)
  | foreign (what : Construct)

inductive Declarator where
  | mk (target : Pattern) (value : Option Expr)

inductive ForStart where
  | absent
  | declaration (kind : VarKind) (items : List Declarator)
  | expression (value : Expr)

inductive Handler where
  | absent
  | plain (body : List Stmt)
  | binding (param : Pattern) (body : List Stmt)

inductive Finalizer where
  | absent
  | block (body : List Stmt)

end

instance : Inhabited Expr := ⟨.null⟩
instance : Inhabited Stmt := ⟨.empty⟩

abbrev Script := List Stmt

def Function.params : Function → List Pattern
  | .mk _ params _ _ _ => params

def Function.body : Function → Body
  | .mk _ _ body _ _ => body

end Reprl.Source
