import Reprl.Source.Parser

/-! Expressions that turn out to be patterns. Parameters of arrow functions and
targets of assignments are read as expressions first, and an operator after them
tells what they are. -/

namespace Reprl.Source

def Expr.isPlace (strict : Bool) : Expr → Bool
  | .identifier name => !(strict && (name = "eval" || name = "arguments"))
  | .member .. => true
  | .superMember .. => true
  | .paren inner => inner.isPlace strict
  | _ => false

mutual

def Pattern.declares : Pattern → Bool
  | .name _ | .elision => true
  | .array elements => Pattern.allDeclare elements
  | .object properties => Pattern.allPropertiesDeclare properties
  | .defaulted pattern _ => pattern.declares
  | .rest pattern => pattern.declares
  | .place _ => false

def Pattern.allDeclare : List Pattern → Bool
  | [] => true
  | p :: rest => p.declares && Pattern.allDeclare rest

def Pattern.allPropertiesDeclare : List PatternProperty → Bool
  | [] => true
  | p :: rest => p.declares && Pattern.allPropertiesDeclare rest

def PatternProperty.declares : PatternProperty → Bool
  | .keyed _ value => value.declares
  | .shorthand .. => true
  | .rest pattern => pattern.declares

end

mutual

/-- The pattern that an expression on the left of `=` stands for. -/
def Expr.toPattern? (strict : Bool) : Expr → Option Pattern
  | .identifier name =>
    if (Expr.identifier name).isPlace strict then some (.name name) else none
  | .array elements => (Element.toPatterns? strict elements).map .array
  | .object properties => (Property.toPatterns? strict properties).map .object
  | .assign .plain target value =>
    match target with
    | .place (.identifier name) => some (.defaulted (.name name) value)
    | .place place => some (.defaulted (.place place) value)
    | .pattern pattern => some (.defaulted pattern value)
  | .member object key => some (.place (.member object key))
  | .superMember key => some (.place (.superMember key))
  | .paren inner => if inner.isPlace strict then some (.place (.paren inner)) else none
  | _ => none

def Element.toPatterns? (strict : Bool) : List Element → Option (List Pattern)
  | [] => some []
  | .elision :: rest => (Element.toPatterns? strict rest).map (.elision :: ·)
  | .item value :: rest => do
    let pattern ← value.toPattern? strict
    let patterns ← Element.toPatterns? strict rest
    return pattern :: patterns
  | [.spread value] =>
    match value with
    | .assign .. => none
    | value => (value.toPattern? strict).map ([.rest ·])
  | .spread _ :: _ :: _ => none

def Property.toPatterns? (strict : Bool) : List Property → Option (List PatternProperty)
  | [] => some []
  | .keyed key value :: rest => do
    let pattern ← value.toPattern? strict
    let patterns ← Property.toPatterns? strict rest
    return .keyed key pattern :: patterns
  | .shorthand name :: rest =>
    (Property.toPatterns? strict rest).map (.shorthand name none :: ·)
  | .defaulted name value :: rest =>
    (Property.toPatterns? strict rest).map (.shorthand name (some value) :: ·)
  | [.spread value] =>
    match value with
    | .assign .. => none
    | value => (value.toPattern? strict).map ([.rest ·])
  | _ :: _ => none

end

def Expr.toTarget? (strict : Bool) (e : Expr) : Option Target :=
  match e with
  | .array _ | .object _ => (e.toPattern? strict).map .pattern
  | e => if e.isPlace strict then some (.place e) else none

/-- The parameters of an arrow function; the last may take all that remain. -/
def Element.toParams? (strict trailing : Bool) (elements : List Element) :
    Option (List Pattern) :=
  match elements.getLast? with
  | some (.spread _) => if trailing then none else params
  | _ => params
where
  params := (Element.toPatterns? strict elements).filter Pattern.allDeclare

def Property.isDefaulted : Property → Bool
  | .defaulted .. => true
  | _ => false

/-- An object literal in which a name has a default, as names may have in patterns. -/
def Element.isDefaulted : Element → Bool
  | .item (.object properties) | .spread (.object properties) =>
    properties.any Property.isDefaulted
  | _ => false

def Pattern.isName : Pattern → Bool
  | .name _ => true
  | _ => false

end Reprl.Source
