import Mathlib.Data.List.Chain
import Reprl.Proofs.Situation.Basic

/-! What refers to what. The nodes are what is freed when nothing refers to it any more: the cells of
the heap, and the functions of scripts. A cell refers to what it holds, a scope to the scope around
it as well, and a function to the scope in which it was made. -/

namespace Reprl

/-- The values that are bound, stored or listed in a cell. -/
def Cell.values : Cell → List Value
  | .scope bindings => bindings.entries.map (·.2.value)
  | .object o => o.properties.entries.map (·.2)
  | .array a => a.elements.toList ++ a.extra.entries.map (·.2)

inductive Node where
  | cell (ref : Ref)
  | closure (identity : Nat) (c : Closure)

/-- The node that a value refers to, if it refers to one. -/
def Node.of : Value → Option Node
  | .object ref | .array ref => some (.cell ref)
  | .function identity (.closure c) => some (.closure identity c)
  | _ => none

namespace Situation

/-- A value is somewhere: code holds it, it is in a cell, or it waits as a job. -/
inductive Present (s : Situation) (value : Value) : Prop where
  | held (h : s.held value)
  | content {ref : Ref} {cell : Cell} (hc : s.machine.heap.cells[ref]? = some cell)
    (h : value ∈ cell.values)
  | job (h : value ∈ s.machine.jobs.toList)

/-- Code runs in a chain of scopes, or a function was made in it. -/
def InUse (s : Situation) (env : Env) : Prop :=
  s.chains env ∨ ∃ identity c, s.Present (.function identity (.closure c)) ∧ c.env = env

inductive Refers (s : Situation) : Node → Node → Prop where
  | parent {env outer : Env} {scope around : Ref} (h : s.InUse env)
    (hs : scope :: around :: outer <:+ env) : Refers s (.cell scope) (.cell around)
  | content {ref : Ref} {cell : Cell} {value : Value} {node : Node}
    (hc : s.machine.heap.cells[ref]? = some cell) (h : value ∈ cell.values)
    (hn : Node.of value = some node) : Refers s (.cell ref) node
  | captured {identity : Nat} {c : Closure} {scope : Ref} {outer : Env}
    (h : s.Present (.function identity (.closure c))) (hs : c.env = scope :: outer) :
    Refers s (.closure identity c) (.cell scope)

/-- A way along references that ends where it began. -/
def Cycle (s : Situation) : List Node → Prop
  | [] => False
  | first :: rest => List.IsChain s.Refers (first :: (rest ++ [first]))

/-- What is left when all that nothing refers to has been freed: nodes that code holds, those of
jobs, and those that others of them refer to. -/
def Outlasts (s : Situation) (left : Node → Prop) : Prop :=
  ∀ node, left node → (∃ value, (s.held value ∨ value ∈ s.machine.jobs.toList) ∧
    Node.of value = some node) ∨ ∃ other, left other ∧ s.Refers other node

variable {s : Situation} {nodes : List Node} {left : Node → Prop}

/-- A cycle leaves the nodes from which all references go down. -/
theorem Cycle.exists_of_descent (hc : s.Cycle nodes) {inside : Node → Prop} {rank : Node → Nat}
    (h : ∀ a b, inside a → s.Refers a b → rank b < rank a) : ∃ node ∈ nodes, ¬inside node := by
  by_contra hall
  simp only [not_exists, not_and, not_not] at hall
  cases nodes with
  | nil => exact hc
  | cons first rest =>
    have hdown : List.IsChain (fun a b => rank b < rank a) (first :: (rest ++ [first])) := by
      refine List.IsChain.imp_of_mem_imp (fun a b ha _ hab => h a b (hall a ?_) hab) hc
      simpa [or_comm, or_left_comm] using ha
    have htrans : IsTrans Node fun a b => rank b < rank a := ⟨fun _ _ _ hab hbc => hbc.trans hab⟩
    have hpairwise := List.isChain_iff_pairwise.mp hdown
    have hself := (List.pairwise_cons.mp hpairwise).1 first (by simp)
    exact Nat.lt_irrefl _ hself

/-- Where all references go down from a limit, what is left is held from outside. -/
theorem Outlasts.reached (hl : s.Outlasts left) {rank : Node → Nat} {limit : Nat}
    (h : ∀ a b, left a → s.Refers a b → rank b < rank a ∧ rank a ≤ limit) {node : Node}
    (hn : left node) : ∃ value root, (s.held value ∨ value ∈ s.machine.jobs.toList) ∧
      Node.of value = some root ∧ Relation.ReflTransGen s.Refers root node := by
  -- On the distance from the limit: what refers to a node is nearer to it.
  induction hd : limit - rank node using Nat.strong_induction_on generalizing node with
  | _ distance ih =>
    rcases hl node hn with ⟨value, hheld, hof⟩ | ⟨other, hother, hrefers⟩
    · exact ⟨value, node, hheld, hof, .refl⟩
    · obtain ⟨hlt, hle⟩ := h other node hother hrefers
      obtain ⟨value, root, hheld, hof, hway⟩ := ih (limit - rank other) (by omega) hother rfl
      exact ⟨value, root, hheld, hof, hway.tail hrefers⟩

end Situation

end Reprl
