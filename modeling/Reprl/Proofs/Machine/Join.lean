import Reprl.Machine.Call
import Reprl.Proofs.Outcome
import Reprl.Proofs.Value.Elements

/-! The text of an array. Arrays may hold themselves and share what they hold: an array that
stands on the way to itself has no text there, and all others are joined in full each time. -/

namespace Reprl

namespace Heap

def elements (h : Heap) (ref : Ref) : List Value := (h.array ref).elementsInOrder

/-- Cells that are not on a path. -/
def offPath (h : Heap) (path : List Ref) : List Ref := (List.range h.next).filter (· ∉ path)

theorem elements_of_absent {h : Heap} {ref : Ref} (hr : h.next ≤ ref) : h.elements ref = [] := by
  have hcell : h.cells[ref]? = none := Array.getElem?_eq_none hr
  rw [elements, array, hcell]
  rfl

theorem length_offPath_lt {h : Heap} {path : List Ref} {ref : Ref} {value : Value} (hr : ref ∉ path)
    (hv : value ∈ h.elements ref) : (h.offPath (ref :: path)).length < (h.offPath path).length := by
  have hlive : ref < h.next := by
    refine Nat.lt_of_not_le fun habsent => ?_
    rw [elements_of_absent habsent] at hv
    cases hv
  have hoff : ref ∈ h.offPath path := by simp [offPath, hlive, hr]
  have hinner : h.offPath (ref :: path) = (h.offPath path).filter (· ≠ ref) := by
    rw [offPath, offPath, List.filter_filter]
    refine List.filter_congr fun other _ => ?_
    simp only [List.mem_cons, not_or, ← Bool.decide_and]
  rw [hinner]
  exact List.length_filter_lt_length_iff_exists.mpr ⟨ref, hoff, by simp⟩

/-- The text of an element of an array, given that of the array which it may be. -/
def elementText (value : Value) (inside : (ref : Ref) → value = .array ref → String) : String :=
  match value with
  | .undefined | .null => ""
  | .array ref => inside ref rfl
  | .bool b => if b then "true" else "false"
  | .number x => Number.text x
  | .string s => s
  | .symbol _ description => symbolText description
  | .function _ f => functionText f
  | .object _ => ""

/-- The text of an array inside those on a path. -/
def joined (h : Heap) (path : List Ref) (ref : Ref) : String :=
  if ref ∈ path then ""
  else ",".intercalate ((h.elements ref).attach.map fun value =>
    elementText value.1 fun inside _ => h.joined (ref :: path) inside)
termination_by (h.offPath path).length
decreasing_by exact length_offPath_lt ‹_› value.2

theorem joined_of_mem {h : Heap} {path : List Ref} {ref : Ref} (hr : ref ∈ path) :
    h.joined path ref = "" := by
  rw [joined, if_pos hr]

theorem joined_of_not_mem {h : Heap} {path : List Ref} {ref : Ref} (hr : ref ∉ path) :
    h.joined path ref =
      ",".intercalate ((h.elements ref).map fun value =>
        elementText value fun inside _ => h.joined (ref :: path) inside) := by
  let text (value : Value) : String := elementText value fun inside _ => h.joined (ref :: path) inside
  rw [joined, if_neg hr]
  exact congrArg _ (List.attach_map_val (f := text))

/-- The arrays that a join enters one inside the other, the outermost first. -/
inductive Enters (h : Heap) : List Ref → Ref → List Ref → Prop where
  | one {path : List Ref} {ref : Ref} (hr : ref ∉ path) : Enters h path ref [ref]
  | inner {path chain : List Ref} {ref inside : Ref} (hr : ref ∉ path)
    (hv : .array inside ∈ h.elements ref) (hc : Enters h (ref :: path) inside chain) :
    Enters h path ref (ref :: chain)

/-- No array that the join enters is too long, and it enters none too deeply. -/
structure Joins (h : Heap) (path : List Ref) (room : Nat) (ref : Ref) : Prop where
  short : ∀ chain, h.Enters path ref chain → ∀ entered ∈ chain, (h.array entered).length ≤ maxJoinLength
  shallow : ∀ chain, h.Enters path ref chain → chain.length ≤ room

theorem joins_of_mem {h : Heap} {path : List Ref} {room : Nat} {ref : Ref} (hr : ref ∈ path) :
    h.Joins path room ref := by
  have hnone : ∀ chain, ¬h.Enters path ref chain := by
    intro chain hc
    cases hc with
    | one hr' => exact hr' hr
    | inner hr' _ _ => exact hr' hr
  exact ⟨fun chain hc => absurd hc (hnone chain), fun chain hc => absurd hc (hnone chain)⟩

/-- An array may be entered if it is not too long, there is room for it, and each array in it
may be entered with what room is left. -/
theorem joins_iff {h : Heap} {path : List Ref} {room : Nat} {ref : Ref} (hr : ref ∉ path) :
    h.Joins path room ref ↔ (h.array ref).length ≤ maxJoinLength ∧ 0 < room ∧
      ∀ inside, .array inside ∈ h.elements ref → h.Joins (ref :: path) (room - 1) inside := by
  constructor
  · intro hjoins
    refine ⟨hjoins.short [ref] (.one hr) ref List.mem_cons_self, hjoins.shallow [ref] (.one hr), ?_⟩
    intro inside hv
    refine ⟨fun chain hc entered hmem => ?_, fun chain hc => ?_⟩
    · exact hjoins.short _ (.inner hr hv hc) entered (List.mem_cons_of_mem ref hmem)
    · have hlength := hjoins.shallow _ (.inner hr hv hc)
      rw [List.length_cons] at hlength
      omega
  · rintro ⟨hlength, hroom, hinside⟩
    refine ⟨fun chain hc => ?_, fun chain hc => ?_⟩
    · cases hc with
      | one => simpa using hlength
      | inner _ hv hc =>
        intro entered hmem
        rcases List.mem_cons.mp hmem with rfl | hlater
        · exact hlength
        · exact (hinside _ hv).short _ hc entered hlater
    · cases hc with
      | one => exact hroom
      | inner _ hv hc =>
        have hrest := (hinside _ hv).shallow _ hc
        rw [List.length_cons]
        omega

/-- Its arrays were made from elements and written to, and hold no objects. -/
structure OfArrays (h : Heap) : Prop where
  written : ∀ ref, ∃ elements writes, h.array ref = (ArrayObject.ofElements elements).setAll writes
  objectFree : ∀ ref inside, .object inside ∉ h.elements ref

end Heap

/-- How a conversion ends: with a text if it fits and else with a thrown RangeError, which is
all that it leaves behind. -/
structure Concludes (fits : Prop) (text : String) (m : Machine)
    (run : Except (Abrupt Value) String × Machine) : Prop where
  done (h : fits) : run = (.ok text, m)
  failed (h : ¬fits) : ∃ message, run = (.error (.thrown (.object m.heap.next)),
    { m with heap := m.heap.add (.object (.error "RangeError" message)) })

namespace Concludes

theorem pure (text : String) (m : Machine) : Concludes True text m ((Pure.pure text : Run String) m) :=
  ⟨fun _ => rfl, fun h => absurd trivial h⟩

theorem raised (text : String) (m : Machine) (message : String) :
    Concludes False text m ((Run.raiseError "RangeError" message : Run String) m) :=
  ⟨fun h => h.elim, fun _ => ⟨message, rfl⟩⟩

theorem congr {fits fits' : Prop} {text text' : String} {m : Machine}
    {run : Except (Abrupt Value) String × Machine} (h : Concludes fits text m run)
    (hf : fits' ↔ fits) (ht : fits → text' = text) : Concludes fits' text' m run :=
  ⟨fun hfits => ht (hf.mp hfits) ▸ h.done (hf.mp hfits), fun hnot => h.failed (mt hf.mpr hnot)⟩

/-- An action after one that may fail. -/
theorem bind {fits fits' : Prop} {text text' : String} {m : Machine} {action : Run String}
    (h : Concludes fits text m (action m)) (next : String → Run String)
    (h' : fits → Concludes fits' text' m (next text m)) :
    Concludes (fits ∧ fits') text' m ((action >>= next) m) := by
  constructor
  · rintro ⟨hfits, hfits'⟩
    rw [Action.bind_of_ok (h.done hfits)]
    exact (h' hfits).done hfits'
  · intro hnot
    by_cases hfits : fits
    · rw [Action.bind_of_ok (h.done hfits)]
      exact (h' hfits).failed fun hfits' => hnot ⟨hfits, hfits'⟩
    · obtain ⟨message, hrun⟩ := h.failed hfits
      exact ⟨message, Action.bind_of_error hrun next⟩

end Concludes

theorem intercalate_cons (first : String) (rest : List String) :
    ",".intercalate (first :: rest) = rest.foldl (fun text shown => text ++ "," ++ shown) first := by
  induction rest generalizing first with
  | nil => exact String.intercalate_singleton
  | cons second rest ih =>
    rw [List.foldl_cons, ← ih, String.intercalate_cons_cons, String.intercalate_cons_append]

section Items

variable {E : Evaluator} {m : Machine} {fits : Value → Prop} {text : Value → String}

/-- The text of an element, as `joinItems` asks for it. -/
def shownElement (E : Evaluator) (value : Value) : Run String :=
  if value.isNullish then pure "" else E.display value

theorem joinRest_cons (before : String) (value : Value) (rest : List Value) :
    E.joinRest before (value :: rest) =
      shownElement E value >>= fun shown => E.joinRest (before ++ "," ++ shown) rest := by
  simp only [Evaluator.joinRest, shownElement]
  split <;> rfl

theorem joinItems_cons (value : Value) (rest : List Value) :
    E.joinItems (value :: rest) = shownElement E value >>= fun shown => E.joinRest shown rest := by
  simp only [Evaluator.joinItems, shownElement]
  split <;> rfl

theorem joinRest_concludes {values : List Value}
    (h : ∀ value ∈ values, Concludes (fits value) (text value) m (shownElement E value m))
    (before : String) :
    Concludes (∀ value ∈ values, fits value)
      ((values.map text).foldl (fun text shown => text ++ "," ++ shown) before) m
      (E.joinRest before values m) := by
  induction values generalizing before with
  | nil => exact (Concludes.pure before m).congr (by simp) fun _ => rfl
  | cons value rest ih =>
    have hrest : ∀ later ∈ rest, Concludes (fits later) (text later) m (shownElement E later m) :=
      fun later hmem => h later (List.mem_cons_of_mem value hmem)
    rw [joinRest_cons]
    have hboth := (h value List.mem_cons_self).bind (fun shown => E.joinRest (before ++ "," ++ shown) rest)
      fun _ => ih hrest (before ++ "," ++ text value)
    exact hboth.congr List.forall_mem_cons fun _ => rfl

theorem joinItems_concludes {values : List Value}
    (h : ∀ value ∈ values, Concludes (fits value) (text value) m (shownElement E value m)) :
    Concludes (∀ value ∈ values, fits value) (",".intercalate (values.map text)) m
      (E.joinItems values m) := by
  cases values with
  | nil => exact (Concludes.pure "" m).congr (by simp) fun _ => rfl
  | cons value rest =>
    have hrest : ∀ later ∈ rest, Concludes (fits later) (text later) m (shownElement E later m) :=
      fun later hmem => h later (List.mem_cons_of_mem value hmem)
    rw [joinItems_cons]
    have hboth := (h value List.mem_cons_self).bind (fun shown => E.joinRest shown rest) fun _ =>
      joinRest_concludes hrest (text value)
    refine hboth.congr List.forall_mem_cons fun _ => ?_
    rw [List.map_cons, intercalate_cons]

end Items

/-- The machine while the elements of an array are shown. -/
def Machine.insideArray (ref : Ref) (m : Machine) : Machine :=
  { m with nesting := m.nesting + 1, joining := ref :: m.joining }

theorem Concludes.whileJoining {fits : Prop} {text : String} {m : Machine} (ref : Ref)
    {action : Run String}
    (h : Concludes fits text { m with joining := ref :: m.joining }
      (action { m with joining := ref :: m.joining })) :
    Concludes fits text m (Run.whileJoining ref action m) := by
  constructor
  · intro hfits
    rw [Run.whileJoining, Run.between, h.done hfits]
    rfl
  · intro hnot
    obtain ⟨message, hrun⟩ := h.failed hnot
    refine ⟨message, ?_⟩
    rw [Run.whileJoining, Run.between, hrun]
    rfl

theorem get_apply (m : Machine) : (get : Run Machine) m = (.ok m, m) := rfl

theorem nested_apply {α : Type} (action : Run α) (m : Machine) :
    Run.nested action m =
      if maxNesting ≤ m.nesting then
        Run.raiseError "RangeError" "Maximum nesting depth exceeded" m
      else Run.between (fun m => { m with nesting := m.nesting + 1 })
        (fun m => { m with nesting := m.nesting - 1 }) action m := by
  simp only [Run.nested, Action.bind_of_ok (get_apply m)]
  split <;> rfl

theorem nested_of_ok {α : Type} {a : Run α} {m m' : Machine} {x : α} (hroom : m.nesting < maxNesting)
    (ha : a { m with nesting := m.nesting + 1 } = (.ok x, m')) :
    Run.nested a m = (.ok x, { m' with nesting := m'.nesting - 1 }) := by
  rw [nested_apply, if_neg (Nat.not_le_of_lt hroom), Run.between, ha]

theorem inCall_of_ok {α : Type} {a : Run α} {m m' : Machine} {x : α} (hroom : m.depth < maxCallDepth)
    (ha : a { m with depth := m.depth + 1 } = (.ok x, m')) :
    Run.inCall a m = (.ok x, { m' with depth := m'.depth - 1 }) := by
  rw [Run.inCall, Action.bind_of_ok (get_apply _), if_neg (Nat.not_le_of_lt hroom), Run.between, ha]

theorem Concludes.nested {fits : Prop} {text : String} {m : Machine} {action : Run String}
    (h : m.nesting < maxNesting → Concludes fits text { m with nesting := m.nesting + 1 }
      (action { m with nesting := m.nesting + 1 })) :
    Concludes (m.nesting < maxNesting ∧ fits) text m (Run.nested action m) := by
  rw [nested_apply]
  by_cases hfull : maxNesting ≤ m.nesting
  · rw [if_pos hfull]
    refine (Concludes.raised text m _).congr ⟨fun hboth => ?_, False.elim⟩ fun _ => rfl
    exact Nat.not_lt_of_le hfull hboth.1
  · rw [if_neg hfull]
    have hroom : m.nesting < maxNesting := Nat.lt_of_not_le hfull
    constructor
    · rintro ⟨-, hfits⟩
      rw [Run.between, (h hroom).done hfits]
      rfl
    · intro hnot
      obtain ⟨message, hrun⟩ := (h hroom).failed fun hfits => hnot ⟨hroom, hfits⟩
      refine ⟨message, ?_⟩
      rw [Run.between, hrun]
      rfl

theorem displayArray_apply (E : Evaluator) (ref : Ref) (m : Machine) :
    E.displayArray ref m =
      if ref ∈ m.joining then (.ok "", m)
      else if maxJoinLength < (m.heap.array ref).length then
        Run.raiseError "RangeError" "Invalid string length" m
      else
        Run.nested (Run.whileJoining ref (E.joinItems (m.heap.array ref).values.toList)) m := by
  simp only [Evaluator.displayArray, Action.bind_of_ok (get_apply m),
    List.contains_iff_mem]
  split
  · rfl
  · split <;> rfl

namespace Heap

/-- Whether a join may show a value inside the arrays on a path. -/
def ElementJoins (h : Heap) (path : List Ref) (room : Nat) (value : Value) : Prop :=
  ∀ inside, value = .array inside → h.Joins path room inside

theorem elementJoins_of_plain {h : Heap} {path : List Ref} {room : Nat} {value : Value}
    (hv : ∀ inside, value ≠ .array inside) : h.ElementJoins path room value :=
  fun inside heq => absurd heq (hv inside)

theorem forall_elementJoins_iff {h : Heap} {path : List Ref} {room : Nat} {values : List Value} :
    (∀ value ∈ values, h.ElementJoins path room value) ↔
      ∀ inside, .array inside ∈ values → h.Joins path room inside :=
  ⟨fun hall inside hmem => hall _ hmem inside rfl, fun hall _ hmem inside heq => hall inside (heq ▸ hmem)⟩

end Heap

theorem shownElement_concludes {E F : Evaluator} {m : Machine} {path : List Ref} {room : Nat}
    {value : Value} (hrule : ∀ value, E.display value = F.displayRule value)
    (harray : ∀ inside, Concludes (m.heap.Joins path room inside) (m.heap.joined path inside) m
      (E.display (.array inside) m))
    (hv : ∀ inside, value ≠ .object inside) :
    Concludes (m.heap.ElementJoins path room value)
      (Heap.elementText value fun inside _ => m.heap.joined path inside) m (shownElement E value m) := by
  have hplain (text : String) (hshown : shownElement E value m = (.ok text, m))
      (hne : ∀ inside, value ≠ .array inside) :
      Concludes (m.heap.ElementJoins path room value) text m (shownElement E value m) := by
    rw [hshown]
    exact (Concludes.pure text m).congr (iff_true_intro (Heap.elementJoins_of_plain hne)) fun _ => rfl
  cases value with
  | array inside =>
    refine (harray inside).congr ⟨fun hjoins => hjoins inside rfl, fun hjoins other heq => ?_⟩ fun _ => rfl
    cases heq
    exact hjoins
  | object inside => exact absurd rfl (hv inside)
  | undefined => exact hplain _ rfl nofun
  | null => exact hplain _ rfl nofun
  | _ => exact hplain _ (congrFun (hrule _) m) nofun

theorem Heap.OfArrays.toList_values {h : Heap} (ha : h.OfArrays) {ref : Ref}
    (hlength : (h.array ref).length ≤ maxJoinLength) :
    (h.array ref).values.toList = h.elements ref := by
  obtain ⟨elements, writes, hwritten⟩ := ha.written ref
  have hsound : (h.array ref).Sound := by
    rw [hwritten]
    exact (ArrayObject.Sound.ofElements elements).setAll writes
  exact hsound.toList_values (Nat.lt_of_le_of_lt hlength (by decide))

theorem display_concludes (laps : Nat) {depth : Nat} {m : Machine} (ha : m.heap.OfArrays)
    (hk : m.nesting ≤ maxNesting) (hd : maxNesting < m.nesting + depth) (ref : Ref) :
    Concludes (m.heap.Joins m.joining (maxNesting - m.nesting) ref)
      (m.heap.joined m.joining ref) m ((Evaluator.withDepth laps depth).display (.array ref) m) := by
  -- a step deeper there is room for one array less, and one step less is left
  induction depth generalizing m ref with
  | zero => omega
  | succ depth ih =>
    have hrule : (Evaluator.withDepth laps (depth + 1)).display (.array ref) m =
      (Evaluator.withDepth laps depth).displayArray ref m := rfl
    rw [hrule, displayArray_apply]
    by_cases hr : ref ∈ m.joining
    · rw [if_pos hr, Heap.joined_of_mem hr]
      exact (Concludes.pure "" m).congr (iff_true_intro (Heap.joins_of_mem hr)) fun _ => rfl
    rw [if_neg hr, Heap.joined_of_not_mem hr]
    by_cases hlong : maxJoinLength < (m.heap.array ref).length
    · rw [if_pos hlong]
      refine (Concludes.raised "" m _).congr ⟨fun hjoins => ?_, False.elim⟩ False.elim
      exact Nat.not_lt_of_le ((Heap.joins_iff hr).mp hjoins).1 hlong
    have hlength : (m.heap.array ref).length ≤ maxJoinLength := Nat.le_of_not_lt hlong
    rw [if_neg hlong, ha.toList_values hlength]
    have hinside : m.nesting < maxNesting → ∀ value ∈ m.heap.elements ref,
        Concludes (m.heap.ElementJoins (ref :: m.joining) (maxNesting - m.nesting - 1) value)
          (Heap.elementText value fun inside _ => m.heap.joined (ref :: m.joining) inside) (m.insideArray ref)
          (shownElement (Evaluator.withDepth laps depth) value (m.insideArray ref)) := by
      intro hroom value hmem
      obtain ⟨below, rfl⟩ : ∃ below, depth = below + 1 := ⟨depth - 1, by omega⟩
      have hdisplay : ∀ value, (Evaluator.withDepth laps (below + 1)).display value =
        (Evaluator.withDepth laps below).displayRule value := fun _ => rfl
      have hd' : maxNesting < m.nesting + 1 + (below + 1) := by omega
      have harray (inside : Ref) := ih (m := m.insideArray ref) ha hroom hd' inside
      have hobject : ∀ inside, value ≠ .object inside := fun inside heq =>
        ha.objectFree ref inside (heq ▸ hmem)
      exact shownElement_concludes hdisplay harray hobject
    have hjoin := Concludes.nested fun hroom =>
      Concludes.whileJoining ref (joinItems_concludes (hinside hroom))
    refine hjoin.congr ?_ fun _ => rfl
    rw [Heap.joins_iff hr, Heap.forall_elementJoins_iff]
    exact ⟨fun ⟨_, hroom, hinside⟩ => ⟨by omega, hinside⟩,
      fun ⟨hroom, hinside⟩ => ⟨hlength, by omega, hinside⟩⟩

/-- An array is shown as its reference text if no array that the join enters is too long and it
enters no more of them, one inside the other, than there is room for; else a RangeError is
thrown. Either way the arrays in conversion and the nesting are as before. -/
theorem display_array_eq_joined (fuel : Fuel) (m : Machine) (ref : Ref) (ha : m.heap.OfArrays)
    (hk : m.nesting ≤ maxNesting) (hf : maxNesting < m.nesting + fuel.depth) :
    (m.heap.Joins m.joining (maxNesting - m.nesting) ref →
      (Evaluator.ofFuel fuel).display (.array ref) m = (.ok (m.heap.joined m.joining ref), m)) ∧
    (¬m.heap.Joins m.joining (maxNesting - m.nesting) ref →
      ∃ message, (Evaluator.ofFuel fuel).display (.array ref) m =
        (.error (.thrown (.object m.heap.next)),
          { m with heap := m.heap.add (.object (.error "RangeError" message)) })) := by
  have hconcludes := display_concludes fuel.laps ha hk hf ref
  exact ⟨hconcludes.done, hconcludes.failed⟩

/-- Two arrays: one that holds itself, and the other twice. -/
def tangled : Heap :=
  ⟨#[.array (.ofElements #[.null, .array 1, .array 0, .array 1, .bool true]),
    .array ((ArrayObject.ofElements #[]).setAll [("2", .string "b")])]⟩

theorem elements_tangled :
    tangled.elements 0 = [.null, .array 1, .array 0, .array 1, .bool true] ∧
      tangled.elements 1 = [.undefined, .undefined, .string "b"] := by
  constructor <;> rfl

theorem ofArrays_tangled : tangled.OfArrays := by
  refine ⟨fun ref => ?_, fun ref inside => ?_⟩
  · match ref with
    | 0 => exact ⟨_, [], rfl⟩
    | 1 => exact ⟨_, _, rfl⟩
    | _ + 2 => exact ⟨#[], [], rfl⟩
  · match ref with
    | 0 => simp [elements_tangled.1]
    | 1 => simp [elements_tangled.2]
    | _ + 2 => exact List.not_mem_nil

theorem joins_tangled : tangled.Joins [] 2 0 ∧ ¬tangled.Joins [] 1 0 := by
  have hinner : tangled.Joins [0] 1 1 := by
    rw [Heap.joins_iff (by decide), elements_tangled.2]
    exact ⟨by decide, by decide, by simp⟩
  refine ⟨?_, fun hjoins => ?_⟩
  · rw [Heap.joins_iff (by decide), elements_tangled.1]
    refine ⟨by decide, by decide, fun inside hmem => ?_⟩
    obtain rfl | rfl | rfl : inside = 1 ∨ inside = 0 ∨ inside = 1 := by simpa using hmem
    · exact hinner
    · exact Heap.joins_of_mem (by decide)
    · exact hinner
  · rw [Heap.joins_iff (by decide), elements_tangled.1] at hjoins
    have hdeep := (Heap.joins_iff (by decide)).mp (hjoins.2.2 1 (by simp))
    exact absurd hdeep.2.1 (by decide)

theorem joined_tangled : tangled.joined [] 0 = ",,,b,,,,b,true" := by
  have hinner : tangled.joined [0] 1 = ",,b" := by
    rw [Heap.joined_of_not_mem (by decide), elements_tangled.2]
    rfl
  rw [Heap.joined_of_not_mem (by decide), elements_tangled.1]
  simp only [List.map_cons, List.map_nil, Heap.elementText, hinner, Heap.joined_of_mem List.mem_cons_self]
  rfl

/-- With room for two arrays the tangled ones are shown, with room for one they are not. -/
theorem display_tangled :
    ∃ m m' : Machine, m.heap = tangled ∧ m'.heap = tangled ∧ tangled.OfArrays ∧
      m.nesting = 998 ∧ m'.nesting = 999 ∧ 999 ≤ maxNesting ∧
      maxNesting < 998 + (Fuel.mk 3 0).depth ∧ maxNesting < 999 + (Fuel.mk 3 0).depth ∧
      (Evaluator.ofFuel ⟨3, 0⟩).display (.array 0) m = (.ok ",,,b,,,,b,true", m) ∧
      ∃ message, (Evaluator.ofFuel ⟨3, 0⟩).display (.array 0) m' =
        (.error (.thrown (.object 2)),
          { m' with heap := tangled.add (.object (.error "RangeError" message)) }) := by
  have hdone := (display_array_eq_joined ⟨3, 0⟩ { heap := tangled, nesting := 998 } 0 ofArrays_tangled
    (by decide) (by decide)).1 joins_tangled.1
  have hfailed := (display_array_eq_joined ⟨3, 0⟩ { heap := tangled, nesting := 999 } 0 ofArrays_tangled
    (by decide) (by decide)).2 joins_tangled.2
  rw [joined_tangled] at hdone
  exact ⟨_, _, rfl, rfl, ofArrays_tangled, rfl, rfl, by decide, by decide, by decide, hdone, hfailed⟩

end Reprl
