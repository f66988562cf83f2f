import Mathlib.Data.List.Nodup

/-!
# Lists whose entries have distinct keys
-/

namespace Keyed

universe u v

variable {α : Type u} {κ : Type v} [DecidableEq κ] {key : α → κ} {l : List α}

/-- An entry is the one that is found by its key. -/
theorem find?_key (distinct : (l.map key).Nodup) {a : α} (member : a ∈ l) :
    l.find? (fun b => key b = key a) = some a := by
  cases found : l.find? (fun b => key b = key a) with
  | none => simpa using List.find?_eq_none.mp found a member
  | some b =>
    have same : key b = key a := by simpa using List.find?_some found
    rw [List.inj_on_of_nodup_map distinct (List.mem_of_find?_eq_some found) member same]

omit [DecidableEq κ] in
/-- Entries of one list are told apart by their keys. -/
theorem eq_of_map_key (distinct : (l.map key).Nodup) {m : List α} (part : m ⊆ l)
    (same : m.map key = l.map key) : m = l := by
  have length : m.length = l.length := by
    have := congrArg List.length same
    rwa [List.length_map, List.length_map] at this
  refine List.ext_getElem length fun i inside inside' => ?_
  have keys : (m.map key)[i]? = (l.map key)[i]? := by rw [same]
  rw [List.getElem?_map, List.getElem?_map, List.getElem?_eq_getElem inside,
    List.getElem?_eq_getElem inside'] at keys
  exact List.inj_on_of_nodup_map distinct (part (List.getElem_mem inside)) (List.getElem_mem inside')
    (Option.some.inj keys)

/-! ## Dictionaries -/

section Dictionary

variable {β : Type u}

/-- Change the entry for a key, or add one. -/
def put (change : β → β) (first : β) (k : κ) (l : List (κ × β)) : List (κ × β) :=
  if k ∈ l.map Prod.fst then l.map fun entry => if entry.1 = k then (k, change entry.2) else entry
  else l ++ [(k, first)]

variable [BEq κ] [LawfulBEq κ]

omit [DecidableEq κ] in
theorem lookup_cons_of_ne {k k' : κ} (other : k' ≠ k) (v : β) (l : List (κ × β)) :
    ((k, v) :: l).lookup k' = l.lookup k' := by
  rw [List.lookup_cons, beq_false_of_ne other]

theorem lookup_map_change (change : β → β) (k k' : κ) (l : List (κ × β)) :
    (l.map fun entry => if entry.1 = k then (k, change entry.2) else entry).lookup k' =
      if k = k' then (l.lookup k).map change else l.lookup k' := by
  induction l with
  | nil => simp
  | cons entry l ih =>
    obtain ⟨key, v⟩ := entry
    rw [List.map_cons]
    by_cases here : key = k
    · subst here
      rw [if_pos rfl, List.lookup_cons_self]
      by_cases same : key = k'
      · rw [if_pos same, same, List.lookup_cons_self, Option.map_some]
      · rw [if_neg same, lookup_cons_of_ne (Ne.symm same), lookup_cons_of_ne (Ne.symm same), ih,
          if_neg same]
    · rw [if_neg here, lookup_cons_of_ne (Ne.symm here)]
      by_cases same : key = k'
      · have other : k ≠ k' := fun h => here (same.trans h.symm)
        rw [same, List.lookup_cons_self, List.lookup_cons_self, if_neg other]
      · rw [lookup_cons_of_ne (Ne.symm same), lookup_cons_of_ne (Ne.symm same), ih]

/-- Only what is kept for the key is another. -/
theorem lookup_put (change : β → β) (first : β) (k k' : κ) (l : List (κ × β)) :
    (put change first k l).lookup k' =
      if k = k' then some ((l.lookup k).elim first change) else l.lookup k' := by
  rw [put]
  by_cases present : k ∈ l.map Prod.fst
  · rw [if_pos present, lookup_map_change]
    cases found : l.lookup k with
    | none =>
      obtain ⟨entry, member, rfl⟩ := List.mem_map.mp present
      have := List.lookup_eq_none_iff.mp found entry member
      simp at this
    | some v => rfl
  · have none : l.lookup k = none := List.lookup_eq_none_iff.mpr fun entry member => by
      simpa using fun same => present (List.mem_map.mpr ⟨entry, member, same.symm⟩)
    rw [if_neg present, List.lookup_append]
    by_cases same : k = k'
    · rw [if_pos same, ← same, none, List.lookup_cons_self]
      rfl
    · rw [if_neg same, lookup_cons_of_ne (Ne.symm same), List.lookup_nil, Option.or_none]

end Dictionary

end Keyed
