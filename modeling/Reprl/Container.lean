/-! Tables and queues. A table goes from names to values and is kept in the order of first
insertion: a name that is set again keeps its place, and the last entry takes the place of
a removed one. What is pushed to a queue comes out in the order in which it went in. -/

namespace Reprl

structure Table (α : Type) where
  entries : List (String × α) := []
  unique : (entries.map (·.1)).Nodup := by exact List.nodup_nil

namespace Table

variable {α : Type} {name other : String} {value : α} {es : List (String × α)} {e : String × α}

def lookup (name : String) : List (String × α) → Option α
  | [] => none
  | (k, v) :: rest => if k = name then some v else lookup name rest

def insert (name : String) (value : α) : List (String × α) → List (String × α)
  | [] => [(name, value)]
  | (k, v) :: rest =>
    if k = name then (k, value) :: rest else (k, v) :: insert name value rest

def remove (name : String) : List (String × α) → List (String × α)
  | [] => []
  | (k, v) :: rest =>
    if k = name then rest.getLast?.toList ++ rest.dropLast else (k, v) :: remove name rest

theorem lookup_insert_self (name : String) (value : α) (es : List (String × α)) :
    lookup name (insert name value es) = some value := by
  induction es with
  | nil => simp [insert, lookup]
  | cons e rest ih =>
    by_cases h : e.1 = name <;> simp [insert, lookup, h, ih]

theorem lookup_insert_of_ne (h : other ≠ name) (value : α) (es : List (String × α)) :
    lookup other (insert name value es) = lookup other es := by
  induction es with
  | nil => simp [insert, lookup, Ne.symm h]
  | cons e rest ih => grind [insert, lookup]

theorem mem_insert (h : e ∈ insert name value es) : e = (name, value) ∨ e ∈ es := by
  induction es with
  | nil => exact .inl (List.mem_singleton.mp h)
  | cons first rest ih => grind [insert]

theorem keys_insert (name : String) (value : α) (es : List (String × α)) :
    (insert name value es).map (·.1) =
      if name ∈ es.map (·.1) then es.map (·.1) else es.map (·.1) ++ [name] := by
  induction es with
  | nil => simp [insert]
  | cons e rest ih =>
    by_cases h : e.1 = name
    · simp [insert, h]
    · have h' : name ≠ e.1 := fun heq => h heq.symm
      simp only [insert, if_neg h, List.map_cons, ih, List.mem_cons, h', false_or]
      split <;> simp

theorem nodup_insert (h : (es.map (·.1)).Nodup) (name : String) (value : α) :
    ((insert name value es).map (·.1)).Nodup := by
  rw [keys_insert]
  split
  · exact h
  · rename_i hnew
    rw [List.nodup_append]
    refine ⟨h, List.pairwise_singleton _ name, fun a ha b hb heq => hnew ?_⟩
    rwa [← List.mem_singleton.mp hb, ← heq]

/-- But for the order, the first entry of the name is left out. -/
theorem remove_perm (name : String) (es : List (String × α)) :
    (remove name es).Perm (es.eraseP (·.1 = name)) := by
  induction es with
  | nil => exact .refl _
  | cons e rest ih =>
    by_cases h : e.1 = name
    · simp only [remove, List.eraseP_cons, h, decide_true, cond_true]
      cases hlast : rest.getLast? with
      | none =>
        rw [List.getLast?_eq_none_iff.mp hlast]
        exact .refl _
      | some last =>
        obtain ⟨front, rfl⟩ := List.getLast?_eq_some_iff.mp hlast
        rw [List.dropLast_concat]
        exact List.perm_append_comm
    · simp only [remove, List.eraseP_cons, h, decide_false, cond_false]
      exact ih.cons e

theorem mem_remove (h : e ∈ remove name es) : e ∈ es :=
  List.mem_of_mem_eraseP ((remove_perm name es).mem_iff.mp h)

theorem nodup_remove (h : (es.map (·.1)).Nodup) (name : String) :
    ((remove name es).map (·.1)).Nodup :=
  ((remove_perm name es).map _).nodup_iff.mpr (h.sublist (List.eraseP_sublist.map _))

theorem ne_of_mem_remove (h : (es.map (·.1)).Nodup) (hmem : e ∈ remove name es) : e.1 ≠ name := by
  replace hmem := (remove_perm name es).mem_iff.mp hmem
  induction es with
  | nil => cases hmem
  | cons first rest ih =>
    obtain ⟨hfresh, hrest⟩ := List.nodup_cons.mp h
    by_cases hname : first.1 = name
    · simp only [List.eraseP_cons, hname, decide_true, cond_true] at hmem
      intro heq
      exact hfresh (List.mem_map.mpr ⟨e, hmem, heq.trans hname.symm⟩)
    · simp only [List.eraseP_cons, hname, decide_false, cond_false] at hmem
      rcases List.mem_cons.mp hmem with rfl | hlater
      · exact hname
      · exact ih hrest hlater

theorem mem_remove_of_ne (hmem : e ∈ es) (h : e.1 ≠ name) : e ∈ remove name es :=
  (remove_perm name es).mem_iff.mpr ((List.mem_eraseP_of_neg (by simpa using h)).mpr hmem)

theorem mem_of_lookup (h : lookup name es = some value) : (name, value) ∈ es := by
  induction es with
  | nil => cases h
  | cons first rest ih => grind [lookup]

theorem lookup_of_mem (h : (es.map (·.1)).Nodup) (hmem : (name, value) ∈ es) :
    lookup name es = some value := by
  induction es with
  | nil => cases hmem
  | cons first rest ih =>
    obtain ⟨hfresh, hrest⟩ := List.nodup_cons.mp h
    rw [lookup]
    rcases List.mem_cons.mp hmem with heq | hlater
    · rw [← heq, if_pos rfl]
    · have hne : first.1 ≠ name := by
        rintro rfl
        exact hfresh (List.mem_map.mpr ⟨_, hlater, rfl⟩)
      rw [if_neg hne]
      exact ih hrest hlater

def get? (t : Table α) (name : String) : Option α := lookup name t.entries

def set (t : Table α) (name : String) (value : α) : Table α :=
  ⟨insert name value t.entries, nodup_insert t.unique name value⟩

def erase (t : Table α) (name : String) : Table α :=
  ⟨remove name t.entries, nodup_remove t.unique name⟩

def contains (t : Table α) (name : String) : Bool := (t.get? name).isSome

def keys (t : Table α) : List String := t.entries.map (·.1)

theorem mem_entries_iff {t : Table α} : (name, value) ∈ t.entries ↔ t.get? name = some value :=
  ⟨lookup_of_mem t.unique, mem_of_lookup⟩

@[simp] theorem get?_set_self (t : Table α) (name : String) (value : α) :
    (t.set name value).get? name = some value :=
  lookup_insert_self name value t.entries

theorem get?_set_of_ne (t : Table α) (h : other ≠ name) (value : α) :
    (t.set name value).get? other = t.get? other :=
  lookup_insert_of_ne h value t.entries

theorem get?_erase_of_ne (t : Table α) (h : other ≠ name) :
    (t.erase name).get? other = t.get? other := by
  refine Option.ext fun value => ?_
  rw [← mem_entries_iff, ← mem_entries_iff]
  exact ⟨mem_remove, fun hmem => mem_remove_of_ne hmem h⟩

theorem get?_erase_self (t : Table α) (name : String) : (t.erase name).get? name = none := by
  rw [Option.eq_none_iff_forall_ne_some]
  exact fun value hvalue => ne_of_mem_remove t.unique (mem_of_lookup hvalue) rfl

end Table

/-- The front in order and the back in reverse order. -/
structure Queue (α : Type) where
  front : List α := []
  back : List α := []

namespace Queue

variable {α : Type}

def toList (q : Queue α) : List α := q.front ++ q.back.reverse

def push (q : Queue α) (a : α) : Queue α := { q with back := a :: q.back }

def pop? (q : Queue α) : Option (α × Queue α) :=
  match q.front with
  | a :: front => some (a, { q with front })
  | [] =>
    match q.back.reverse with
    | a :: front => some (a, { front })
    | [] => none

@[simp] theorem toList_push (q : Queue α) (a : α) : (q.push a).toList = q.toList ++ [a] := by
  simp [toList, push]

theorem toList_of_pop? {q rest : Queue α} {a : α} (h : q.pop? = some (a, rest)) :
    q.toList = a :: rest.toList := by
  grind [toList, pop?]

theorem pop?_eq_none_iff {q : Queue α} : q.pop? = none ↔ q.toList = [] := by
  grind [toList, pop?]

end Queue

end Reprl
