import Reprl.Source.Parser

/-! What parsers give: a property of all trees that a parser may give, wherever it begins, with one
rule for each way in which parsers are put together. -/

namespace Reprl.Source

namespace Parser

variable {α β : Type} {post : α → Prop} {next : β → Prop}

def Gives (p : Parser α) (post : α → Prop) : Prop := ∀ c a after, p c = some (a, after) → post a

/-- What a step gives, if it gives something. -/
abbrev Offers (step : Parser (Option α)) (post : α → Prop) : Prop :=
  step.Gives fun o => ∀ a, o = some a → post a

namespace Gives

theorem any (p : Parser α) : p.Gives fun _ => True := fun _ _ _ _ => trivial

theorem mono {p : Parser α} {post' : α → Prop} (h : p.Gives post) (himp : ∀ a, post a → post' a) :
    p.Gives post' := fun c a after hrun => himp a (h c a after hrun)

theorem imp {p : Parser α} {b : Prop} (h : b → p.Gives post) : p.Gives fun a => b → post a :=
  fun c a after hrun hb => h hb c a after hrun

theorem pure {a : α} (h : post a) : Gives (Pure.pure a) post := by
  intro c b after hrun
  cases hrun
  exact h

theorem stop : Offers (Pure.pure none) post := .pure fun _ h => nomatch h

theorem offer {a : α} (h : post a) : Offers (Pure.pure (some a)) post := by
  refine .pure fun b hb => ?_
  cases hb
  exact h

theorem failure : Gives (Alternative.failure : Parser α) post := fun _ _ _ hrun => nomatch hrun

/-- What is found without reading anything. -/
theorem lift {found : Option α} : Gives (liftM found : Parser α) fun a => found = some a := by
  intro c a after hrun
  cases found with
  | none => cases hrun
  | some b =>
    cases hrun
    rfl

theorem bind {p : Parser α} {f : α → Parser β} (h : p.Gives post) (hf : ∀ a, post a → (f a).Gives next) :
    Gives (p >>= f) next := by
  intro c b after hrun
  obtain ⟨⟨a, between⟩, hp, hrest⟩ := Option.bind_eq_some_iff.mp hrun
  exact hf a (h c a between hp) between b after hrest

/-- Whatever is read first. -/
theorem after {p : Parser α} {f : α → Parser β} (hf : ∀ a, (f a).Gives next) : Gives (p >>= f) next :=
  (any p).bind fun a _ => hf a

theorem ite {b : Prop} [Decidable b] {p q : Parser α} (hp : b → p.Gives post) (hq : ¬b → q.Gives post) :
    Gives (if b then p else q) post := by
  split
  · exact hp ‹_›
  · exact hq ‹_›

/-- Two ways that meet again. -/
theorem join {b : Prop} [Decidable b] {p q : Parser α} {f : α → Parser β} (hp : p.Gives post)
    (hq : q.Gives post) (hf : ∀ a, post a → (f a).Gives next) :
    Gives (if b then p >>= f else q >>= f) next :=
  .ite (fun _ => hp.bind hf) fun _ => hq.bind hf

theorem require (b : Bool) : Gives (require b) fun _ => b = true := by
  cases b with
  | true => exact .pure rfl
  | false => exact .failure

theorem collectFrom {step : Parser (Option α)} (h : step.Offers post)
    (fuel : Nat) {found : List α} (hfound : ∀ a ∈ found, post a) :
    Gives (collectFrom step fuel found) fun all => ∀ a ∈ all, post a := by
  induction fuel generalizing found with
  | zero => exact .failure
  | succ fuel ih =>
    refine h.bind fun o ho => ?_
    cases o with
    | none => exact .pure fun a hmem => hfound a (List.mem_reverse.mp hmem)
    | some item => exact ih (List.forall_mem_cons.mpr ⟨ho item rfl, hfound⟩)

theorem collect {step : Parser (Option α)} (h : step.Offers post) :
    Gives (collect step) fun all => ∀ a ∈ all, post a :=
  .after fun _ => h.collectFrom _ fun _ hmem => absurd hmem List.not_mem_nil

theorem iterateFrom {step : α → Parser (Option α)}
    (h : ∀ a, post a → (step a).Offers post) (fuel : Nat) {a : α}
    (ha : post a) : Gives (iterateFrom step fuel a) post := by
  induction fuel generalizing a with
  | zero => exact .failure
  | succ fuel ih =>
    refine (h a ha).bind fun o ho => ?_
    cases o with
    | none => exact .pure ha
    | some b => exact ih (ho b rfl)

theorem iterate {step : α → Parser (Option α)}
    (h : ∀ a, post a → (step a).Offers post) {a : α} (ha : post a) :
    Gives (iterate step a) post := .after fun _ => .iterateFrom h _ ha

theorem commaList {closing : String} {item : Parser α} (h : item.Gives post) :
    Gives (commaList closing item) fun all => ∀ a ∈ all.1, post a := by
  refine bind (.collect ?_) fun items (hall : ∀ i ∈ items, post i.1) => .after fun _ => .pure ?_
  · refine .after fun closed => .ite (fun _ => .stop) fun _ => h.bind fun value hvalue => ?_
    refine .after fun comma => ?_
    exact .ite (fun _ => .after fun _ => .after fun _ => .offer hvalue) fun _ => .offer hvalue
  · intro a hmem
    obtain ⟨item, hitem, rfl⟩ := List.mem_map.mp hmem
    exact hall item hitem

end Gives

end Parser

end Reprl.Source
