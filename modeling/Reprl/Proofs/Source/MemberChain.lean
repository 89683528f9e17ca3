import Mathlib.Data.List.TakeWhile
import Reprl.Proofs.Source.Depth
import Reprl.Proofs.Source.Nesting
import Reprl.Source.Script

/-! Members of a number, as in `1..a.a.a`. The scan for depth takes the whole chain for the rest
of the number and counts none of its links, while the parser puts one member on top of another.
So there are accepted scripts of every depth. -/

namespace Reprl

namespace Source

open Reprl.Text Reprl.Source.Parser

/-- A parser reads something between two cursors. -/
def Parser.Reads {α : Type} (p : Parser α) (c : Cursor) (a : α) (c' : Cursor) : Prop :=
  p c = some (a, c')

theorem Parser.Reads.bind {α β : Type} {p : Parser α} {f : α → Parser β} {a : α} {b : β}
    {c c' c'' : Cursor} (h : p.Reads c a c') (hf : (f a).Reads c' b c'') :
    (p >>= f).Reads c b c'' := by
  have hrun : (p >>= f) c = (p c).bind fun r => f r.1 r.2 := rfl
  rw [Reads, hrun, h]
  exact hf

namespace MemberChain

def links : Nat → List Char
  | 0 => []
  | n + 1 => '.' :: 'a' :: links n

def source (n : Nat) : String := String.ofList ('1' :: '.' :: links n)

def one : Float := Number.Decimal.value ⟨false, ['1'], 0⟩

def expr : Nat → Expr
  | 0 => .number one
  | n + 1 => .member (expr n) (.name "a")

theorem isNumberByte_links (n : Nat) :
    ∀ b ∈ (links n).flatMap String.utf8EncodeChar, isNumberByte b = true := by
  induction n with
  | zero => exact fun _ h => absurd h List.not_mem_nil
  | succ n ih =>
    have hlink : (String.utf8EncodeChar '.' ++ String.utf8EncodeChar 'a').all isNumberByte = true := rfl
    rw [links, List.flatMap_cons, List.flatMap_cons, ← List.append_assoc]
    exact List.forall_mem_append.mpr ⟨List.all_eq_true.mp hlink, ih⟩

theorem withinDepth_source (n : Nat) : withinDepth (source n) = true := by
  let rest := String.utf8EncodeChar '.' ++ (links n).flatMap String.utf8EncodeChar
  have hpoint : (String.utf8EncodeChar '.').all isNumberByte = true := rfl
  have hall : ∀ b ∈ rest, isNumberByte b = true :=
    List.forall_mem_append.mpr ⟨List.all_eq_true.mp hpoint, isNumberByte_links n⟩
  -- The scan of the number goes on over every link.
  have hstep : Nesting.step {} 0x31 rest = (some {}, []) := by
    rw [← List.dropWhile_eq_nil_iff.mpr hall]
    rfl
  have hbytes : encode (source n) = 0x31 :: rest := by
    rw [encode_eq, source, String.toList_ofList]
    rfl
  rw [withinDepth_eq, hbytes, Nesting.scan_cons hstep, Nesting.scan]
  rfl

def atNumber (left n : Nat) : Cursor :=
  { token := .number one false, start := '1' :: '.' :: links n, rest := links n, newline := true, left }

/-- The cursor on the next link, or at the end of the script. -/
def atLink (left n : Nat) : Cursor := Cursor.read false left (links n)

def atName (left n : Nat) : Cursor :=
  { token := .word "a" false, start := 'a' :: links n, rest := links n, newline := false, left }

theorem left_atLink (left n : Nat) : (atLink left n).left = left := by
  cases n <;> rfl

theorem read_name (left n : Nat) : Cursor.read false left ('a' :: links n) = atName left n := by
  have hstart : isIdentifierStart 'a' = true := by decide
  have hstop : isIdentifierPart '.' = false := by decide
  have hword : word? [] false ('a' :: links n) = some (⟨['a'], false⟩, links n) := by
    cases n with
    | zero => simp [links, word?, hstart]
    | succ n => simp [links, word?, hstart, hstop]
  have htrivia : skipTrivia .blank false ('a' :: links n) = some (false, 'a' :: links n) := rfl
  simp [Cursor.read, htrivia, readToken, hword, hstart, atName]

theorem read_number (left n : Nat) : Cursor.read true left ('1' :: '.' :: links n) = atNumber left n := by
  have hstart : isIdentifierStart '1' = false := by decide
  have hdigit : isDecimal '1' = true := by decide
  have hnumber : number? ('1' :: '.' :: links n) = some (.number one false, links n) := by
    cases n <;> rfl
  have htrivia : skipTrivia .blank true ('1' :: '.' :: links n) = some (true, '1' :: '.' :: links n) :=
    rfl
  simp [Cursor.read, htrivia, readToken, hnumber, hstart, hdigit, atNumber]

theorem length_links (n : Nat) : (links n).length = 2 * n := by
  induction n with
  | zero => rfl
  | succ n ih =>
    simp only [links, List.length_cons, ih]
    omega

theorem ofScript_source (n : Nat) : Cursor.ofScript (source n) = atNumber (2 * n + 2 + 1) n := by
  have htext : (source n).toList = '1' :: '.' :: links n := String.toList_ofList
  have hlength : ('1' :: '.' :: links n).length = 2 * n + 2 := by
    simp only [List.length_cons, length_links]
  have hread : Cursor.ofScript (source n) =
      Cursor.read true (('1' :: '.' :: links n).length + 1) ('1' :: '.' :: links n) := by
    rw [Cursor.ofScript, htext]
    rfl
  rw [hread, hlength]
  exact read_number _ n

variable {g : Grammar} {left n : Nat}

theorem reads_link (g : Grammar) (k left n : Nat) :
    (g.link {} true ⟨expr k, false⟩).Reads (atLink left (n + 1)) (some ⟨expr (k + 1), false⟩)
      (atLink (left - 1 - 1) n) := by
  have htoken : token.Reads (atLink left (n + 1)) (.mark ".") (atLink left (n + 1)) := rfl
  have hadvance : advance.Reads (atLink left (n + 1)) () (atName (left - 1) n) :=
    congrArg (fun c => some ((), c)) (read_name (left - 1) n)
  have hname : (Grammar.pointKey {}).Reads (atName (left - 1) n) (.name "a")
      (atLink (left - 1 - 1) n) := rfl
  exact htoken.bind (hadvance.bind (hname.bind rfl))

theorem reads_linksFrom (g : Grammar) {fuel : Nat} (k left : Nat) {n : Nat} (h : n < fuel) :
    ∃ after, (iterateFrom (g.link {} true) fuel ⟨expr k, false⟩).Reads (atLink left n)
      ⟨expr (k + n), false⟩ (atLink after 0) := by
  obtain ⟨fuel, rfl⟩ : ∃ more, fuel = more + 1 := ⟨fuel - 1, by omega⟩
  -- On the links that are left: each of them makes the chain so far the object of one member more.
  induction n generalizing fuel k left with
  | zero => exact ⟨left, rfl⟩
  | succ n ih =>
    obtain ⟨fuel, rfl⟩ : ∃ more, fuel = more + 1 := ⟨fuel - 1, by omega⟩
    obtain ⟨after, hrest⟩ := ih (k + 1) (left - 1 - 1) fuel (by omega)
    rw [Nat.add_right_comm] at hrest
    exact ⟨after, (reads_link g k left n).bind hrest⟩

theorem reads_links (g : Grammar) (h : n ≤ left) :
    ∃ after, (g.links {} true (expr 0)).Reads (atLink left n) (expr n) (atLink after 0) := by
  obtain ⟨after, hfrom⟩ := reads_linksFrom g 0 left (Nat.lt_succ_of_le h)
  rw [Nat.zero_add] at hfrom
  have hrun : iterate (g.link {} true) ⟨expr 0, false⟩ (atLink left n) =
      iterateFrom (g.link {} true) ((atLink left n).left + 1) ⟨expr 0, false⟩ (atLink left n) := rfl
  rw [left_atLink] at hrun
  have hiterate : (iterate (g.link {} true) ⟨expr 0, false⟩).Reads (atLink left n) ⟨expr n, false⟩
      (atLink after 0) := hrun.trans hfrom
  exact ⟨after, hiterate.bind rfl⟩

theorem isArrow_expr (n : Nat) : Grammar.isArrow (expr n) = false := by
  cases n <;> rfl

theorem reads_assignment (g : Grammar) (h : n ≤ left) :
    ∃ after, (g.assignmentRule {}).Reads (atNumber (left + 1) n) (expr n) (atLink after 0) := by
  obtain ⟨after, hlinks⟩ := reads_links g h
  -- Nothing follows the chain, so at each level of the grammar the expression is the chain.
  have hleft : (g.leftHandSideRule {} true).Reads (atNumber (left + 1) n) (expr n) (atLink after 0) :=
    hlinks
  have hpostfix : (g.postfixForm {} true).Reads (atNumber (left + 1) n) (expr n) (atLink after 0) := by
    refine hleft.bind ?_
    rw [isArrow_expr]
    rfl
  have hunary : (g.unaryRule {} true).Reads (atNumber (left + 1) n) (expr n) (atLink after 0) := hpostfix
  have hoperands : (g.operands {} true).Reads (atNumber (left + 1) n) (expr n) (atLink after 0) := by
    refine hunary.bind ?_
    rw [isArrow_expr]
    rfl
  have hconditional : (g.conditional {} true).Reads (atNumber (left + 1) n) (expr n)
      (atLink after 0) := by
    refine hoperands.bind ?_
    rw [isArrow_expr]
    rfl
  have hyield : (atWord "yield").Reads (atNumber (left + 1) n) false (atNumber (left + 1) n) := rfl
  refine ⟨after, hyield.bind ?_⟩
  simp only [Bool.and_false, Bool.false_eq_true, if_false]
  refine hconditional.bind ?_
  rw [isArrow_expr]
  rfl

theorem reads_statement (g : Grammar) (h : n ≤ left) :
    ∃ after, (g.statementRule { topLevel := true } true).Reads (atNumber (left + 1) n)
      (.expression (expr n)) (atLink after 0) := by
  obtain ⟨after, hassignment⟩ := reads_assignment g h
  have hexpression : (g.expressionRule {}).Reads (atNumber (left + 1) n) (expr n) (atLink after 0) :=
    hassignment.bind rfl
  have hstatement : (g.expressionStatement {}).Reads (atNumber (left + 1) n) (.expression (expr n))
      (atLink after 0) := by
    refine hexpression.bind ?_
    cases n <;> rfl
  exact ⟨after, hstatement⟩

theorem tree?_source (n : Nat) : tree? (source n) = some [.expression (expr n)] := by
  have hle : n ≤ 2 * n + 2 := by omega
  obtain ⟨after, hrule⟩ := reads_statement (.withSteps (2 * n + 2 + 1)) hle
  let g := Grammar.withSteps (2 * n + 2 + 1 + 1)
  let c := atNumber (2 * n + 2 + 1) n
  let item : Parser (Option Stmt) := do
    if (← atMark "\x7d") || (← token).isFinish then return none
    else return some (← g.statement { topLevel := true } true)
  have hstatement : (g.statement { topLevel := true } true).Reads c (.expression (expr n))
      (atLink after 0) := hrule
  have hitem : item.Reads c (some (.expression (expr n))) (atLink after 0) :=
    hstatement.bind (f := fun stmt => pure (some stmt)) rfl
  have hitems : (collectFrom item (2 * n + 2 + 1 + 1) []).Reads c [.expression (expr n)]
      (atLink after 0) := hitem.bind rfl
  have hstatements : (g.statements { topLevel := true }).Reads c [.expression (expr n)]
      (atLink after 0) := hitems
  have hbody : (g.bodyStatements { topLevel := true }).Reads c ([.expression (expr n)], false)
      (atLink after 0) := hstatements.bind (f := fun body => pure (body, false)) rfl
  have hfinish : (do
      require (← token).isFinish
      return [.expression (expr n)] : Parser Script).Reads (atLink after 0) [.expression (expr n)]
      (atLink after 0) := rfl
  rw [tree?, ofScript_source]
  exact congrArg (Option.map Prod.fst) (hbody.bind hfinish)

theorem unsupported_expr (n : Nat) : (expr n).unsupported = none := by
  induction n with
  | zero => simp only [expr, Expr.unsupported]
  | succ n ih =>
    simp only [expr, Expr.unsupported, ih, Key.unsupported]
    rfl

theorem depth_expr (n : Nat) : (expr n).depth = n + 1 := by
  induction n with
  | zero => simp only [expr, Expr.depth]
  | succ n ih =>
    simp only [expr, Expr.depth, ih, Key.depth]
    omega

theorem parse_source (n : Nat) : parse (source n) = .ok [.expression (expr n)] := by
  have hsupported : Stmt.unsupportedIn [.expression (expr n)] = none := by
    simp only [Stmt.unsupportedIn, Stmt.unsupported, unsupported_expr]
    rfl
  simp only [parse, withinDepth_source, tree?_source, hsupported]
  rfl

theorem depthIn_source (n : Nat) : Stmt.depthIn [.expression (expr n)] = n + 2 := by
  simp only [Stmt.depthIn, Stmt.depth, depth_expr]
  omega

end MemberChain

/-- No bound holds for the depth of accepted scripts: a chain of members of a number is accepted
however long it is. -/
theorem accepted_scripts_nest_without_bound (bound : Nat) :
    ∃ (source : String) (script : Script), parse source = .ok script ∧ bound < Stmt.depthIn script := by
  refine ⟨MemberChain.source bound, _, MemberChain.parse_source bound, ?_⟩
  rw [MemberChain.depthIn_source]
  omega

theorem memberChain_exceeds_twice_limit :
    ∃ script, parse (MemberChain.source 1001) = .ok script ∧ 2 * maxDepth < Stmt.depthIn script := by
  refine ⟨_, MemberChain.parse_source 1001, ?_⟩
  rw [MemberChain.depthIn_source]
  decide

end Source

end Reprl
