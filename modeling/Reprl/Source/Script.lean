import Reprl.Source.Grammar.Statement
import Reprl.Source.Nesting
import Reprl.Source.Support

/-! Scripts from their text. A text is refused when it nests too deeply, is not
well formed or uses an unsupported construct, and is checked in this order. -/

namespace Reprl.Source

inductive SyntaxError where
  | tooDeep
  | malformed
  | unsupported (what : Construct)
  deriving DecidableEq, Repr

/-- What is wrong, in words; malformed text is not described any further. -/
def SyntaxError.message : SyntaxError → Option String
  | .tooDeep => some ("nesting deeper than " ++ toString maxDepth ++ " levels is not supported")
  | .malformed => none
  | .unsupported what => some (what.name ++ " is not supported")

/-- The tree of a well-formed text, whatever constructs it uses. -/
def tree? (source : String) : Option Script :=
  let cursor := Cursor.ofScript source
  let parser : Parser Script := do
    let g := Grammar.withSteps (cursor.left + 1)
    let (body, _) ← g.bodyStatements { topLevel := true }
    Parser.require (← Parser.token).isFinish
    return body
  (parser cursor).map (·.1)

def parse (source : String) : Except SyntaxError Script :=
  if !withinDepth source then .error .tooDeep
  else match tree? source with
    | none => .error .malformed
    | some script =>
      match Stmt.unsupportedIn script with
      | some what => .error (.unsupported what)
      | none => .ok script

end Reprl.Source
