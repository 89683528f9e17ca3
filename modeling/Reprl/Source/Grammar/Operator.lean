import Reprl.Source.Parser

/-! Binary operators and how tightly they bind. An expression is first read as
operands with operators between them and then grouped into a tree. -/

namespace Reprl.Source

inductive Between where
  | logical (op : LogicalOp)
  | binary (op : BinaryOp)

def Between.level : Between → Nat
  | .logical .or | .logical .nullish => 1
  | .logical .and => 2
  | .binary .bitOr => 3
  | .binary .bitXor => 4
  | .binary .bitAnd => 5
  | .binary .equal | .binary .notEqual | .binary .strictEqual | .binary .strictNotEqual => 6
  | .binary .less | .binary .lessEqual | .binary .greater | .binary .greaterEqual
  | .binary .membership | .binary .instanceOf => 7
  | .binary .shiftLeft | .binary .shiftRight | .binary .shiftRightUnsigned => 8
  | .binary .add | .binary .subtract => 9
  | .binary .multiply | .binary .divide | .binary .remainder => 10
  | .binary .power => 11

/-- Powers group to the right, all other operators to the left. -/
def Between.groupsRight : Between → Bool
  | .binary .power => true
  | _ => false

def betweenMarks : List (String × Between) :=
  [("||", .logical .or), ("??", .logical .nullish), ("&&", .logical .and),
    ("|", .binary .bitOr), ("^", .binary .bitXor), ("&", .binary .bitAnd),
    ("==", .binary .equal), ("!=", .binary .notEqual),
    ("===", .binary .strictEqual), ("!==", .binary .strictNotEqual),
    ("<", .binary .less), ("<=", .binary .lessEqual),
    (">", .binary .greater), (">=", .binary .greaterEqual),
    ("<<", .binary .shiftLeft), (">>", .binary .shiftRight),
    (">>>", .binary .shiftRightUnsigned),
    ("+", .binary .add), ("-", .binary .subtract),
    ("*", .binary .multiply), ("/", .binary .divide), ("%", .binary .remainder),
    ("**", .binary .power)]

def between? (ctx : Context) : Token → Option Between
  | .mark text => betweenMarks.lookup text
  | .word name escaped =>
    if escaped then none
    else if name = "instanceof" then some (.binary .instanceOf)
    else if name = "in" && ctx.allowIn then some (.binary .membership)
    else none
  | _ => none

def assignMarks : List (String × AssignOp) :=
  [("=", .plain), ("+=", .compound .add), ("-=", .compound .subtract),
    ("*=", .compound .multiply), ("/=", .compound .divide), ("%=", .compound .remainder),
    ("**=", .compound .power), ("<<=", .compound .shiftLeft), (">>=", .compound .shiftRight),
    (">>>=", .compound .shiftRightUnsigned), ("&=", .compound .bitAnd),
    ("|=", .compound .bitOr), ("^=", .compound .bitXor),
    ("&&=", .logical .and), ("||=", .logical .or), ("??=", .logical .nullish)]

def assignOp? : Token → Option AssignOp
  | .mark text => assignMarks.lookup text
  | _ => none

def unaryOp? : Token → Option UnaryOp
  | .mark "-" => some .minus
  | .mark "+" => some .plus
  | .mark "!" => some .not
  | .mark "~" => some .complement
  | .word "typeof" false => some .typeof
  | .word "void" false => some .void
  | .word "delete" false => some .delete
  | _ => none

def updateOp? : Token → Option UpdateOp
  | .mark "++" => some .increment
  | .mark "--" => some .decrement
  | _ => none

/-- A choice between values by `&&` or `||`, not in parentheses. -/
def Expr.isAndOr : Expr → Bool
  | .logical .and .. | .logical .or .. => true
  | _ => false

/-- The node of one operator. `??` does not take a bare `&&` or `||` as operand. -/
def Between.join (op : Between) (left right : Expr) : Option Expr :=
  match op with
  | .logical .nullish =>
    if left.isAndOr || right.isAndOr then none else some (.logical .nullish left right)
  | .logical op => some (.logical op left right)
  | .binary op => some (.binary op left right)

/-- Operands that wait for their right-hand sides, innermost first. -/
abbrev Waiting := List (Expr × Between)

/-- Joins the waiting operators of at least a level with the operand on their right. -/
def closeLevel (level : Nat) : Waiting → Expr → Option (Waiting × Expr)
  | [], right => some ([], right)
  | (left, op) :: waiting, right =>
    if level ≤ op.level then do closeLevel level waiting (← op.join left right)
    else some ((left, op) :: waiting, right)

/-- The base of a power must not be a bare unary expression. -/
def Between.takesLeft (op : Between) (left : Expr) : Bool :=
  match op, left with
  | .binary .power, .unary .. | .binary .power, .await _ => false
  | _, _ => true

def groupFrom (waiting : Waiting) (current : Expr) : List (Between × Expr) → Option Expr
  | [] => (closeLevel 0 waiting current).map (·.2)
  | (op, operand) :: rest => do
    if !op.takesLeft current then none
    else
      let level := if op.groupsRight then op.level + 1 else op.level
      let (waiting, left) ← closeLevel level waiting current
      groupFrom ((left, op) :: waiting) operand rest

def group (first : Expr) (rest : List (Between × Expr)) : Option Expr := groupFrom [] first rest

end Reprl.Source
