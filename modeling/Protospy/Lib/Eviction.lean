import Mathlib.Data.List.Nodup
import Mathlib.Data.List.Infix
import Mathlib.Tactic.Common

/-!
# Dropping the oldest entries

A list of distinct entries, oldest first, is cut down until it fits. Some of the
entries are protected, and the oldest of the others goes first. What is left is
the protected entries and a suffix of the others.
-/

namespace Eviction

universe u

variable {α : Type u}

/-- The entries that may be dropped. -/
def others (keep : α → Bool) (entries : List α) : List α := entries.filter fun x => !keep x

/-- The protected entries and those of `suffix`, in the order of the list. -/
def keeping [DecidableEq α] (keep : α → Bool) (suffix entries : List α) : List α :=
  entries.filter fun x => keep x || decide (x ∈ suffix)

theorem length_eraseP_lt {keep : α → Bool} {entries : List α} {x : α}
    (found : entries.find? (fun x => !keep x) = some x) :
    (entries.eraseP fun x => !keep x).length < entries.length := by
  have member := List.mem_of_find?_eq_some found
  have unprotected := List.find?_some found
  rw [List.length_eraseP_of_mem member unprotected]
  exact Nat.sub_lt (List.length_pos_of_mem member) Nat.one_pos

/-- Drop the oldest unprotected entry until the list fits or none is left. -/
def dropOldest (keep : α → Bool) (fits : List α → Bool) (entries : List α) : List α :=
  if fits entries then entries
  else match found : entries.find? fun x => !keep x with
    | none => entries
    | some _ =>
      have := length_eraseP_lt found
      dropOldest keep fits (entries.eraseP fun x => !keep x)
termination_by entries.length

section Steps

variable {keep : α → Bool} {fits : List α → Bool} {entries : List α}

theorem dropOldest_of_fits (h : fits entries = true) : dropOldest keep fits entries = entries := by
  rw [dropOldest, if_pos h]

theorem dropOldest_of_none (h : entries.find? (fun x => !keep x) = none) :
    dropOldest keep fits entries = entries := by
  rw [dropOldest]
  split_ifs
  · rfl
  · split
    · rfl
    · next found => rw [h] at found; cases found

theorem dropOldest_of_some {x : α} (full : fits entries = false)
    (h : entries.find? (fun x => !keep x) = some x) :
    dropOldest keep fits entries =
      dropOldest keep fits (entries.eraseP fun x => !keep x) := by
  rw [dropOldest, if_neg (by simp [full])]
  split
  · next found => rw [h] at found; cases found
  · rfl

/-- The three ends of a round, as an induction on the list of entries. -/
theorem dropOldest_induction (keep : α → Bool) (fits : List α → Bool) {motive : List α → Prop}
    (fit : ∀ l, fits l = true → motive l)
    (rest : ∀ l, fits l = false → l.find? (fun x => !keep x) = none → motive l)
    (drop : ∀ l x, fits l = false → l.find? (fun x => !keep x) = some x →
      motive (l.eraseP fun x => !keep x) → motive l) :
    ∀ l, motive l := by
  intro l
  induction h : l.length using Nat.strongRecOn generalizing l with
  | ind n ih =>
    subst h
    cases full : fits l with
    | true => exact fit l full
    | false =>
      cases found : l.find? fun x => !keep x with
      | none => exact rest l full found
      | some x => exact drop l x full found (ih _ (length_eraseP_lt found) _ rfl)

theorem dropOldest_sublist (keep : α → Bool) (fits : List α → Bool) (entries : List α) :
    (dropOldest keep fits entries).Sublist entries := by
  induction entries using dropOldest_induction keep fits with
  | fit l h => rw [dropOldest_of_fits h]
  | rest l full h => rw [dropOldest_of_none h]
  | drop l x full h ih =>
    rw [dropOldest_of_some full h]
    exact ih.trans List.eraseP_sublist

/-- Something is left if single entries fit. -/
theorem dropOldest_ne_nil (keep : α → Bool) (one : ∀ l : List α, l.length ≤ 1 → fits l = true)
    (some_entry : entries ≠ []) : dropOldest keep fits entries ≠ [] := by
  induction entries using dropOldest_induction keep fits with
  | fit l h => rwa [dropOldest_of_fits h]
  | rest l full h => rwa [dropOldest_of_none h]
  | drop l x full h ih =>
    rw [dropOldest_of_some full h]
    refine ih fun empty => ?_
    have long : 1 < l.length := by
      by_contra short
      rw [one l (by omega)] at full
      cases full
    have shorter := List.length_eraseP_of_mem (List.mem_of_find?_eq_some h) (List.find?_some h)
    rw [empty, List.length_nil] at shorter
    omega

theorem dropOldest_congr {fits' : List α → Bool}
    (same : ∀ l, l.Sublist entries → fits l = fits' l) :
    dropOldest keep fits entries = dropOldest keep fits' entries := by
  induction entries using dropOldest_induction keep fits with
  | fit l h => rw [dropOldest_of_fits h, dropOldest_of_fits ((same l (.refl l)).symm.trans h)]
  | rest l full h => rw [dropOldest_of_none h, dropOldest_of_none h]
  | drop l x full h ih =>
    have full' : fits' l = false := (same l (.refl l)).symm.trans full
    rw [dropOldest_of_some full h, dropOldest_of_some full' h]
    exact ih fun l' sub => same l' (sub.trans List.eraseP_sublist)

/-- Two bounds in turn are both bounds at once, if dropping keeps the first. -/
theorem dropOldest_dropOldest {also : List α → Bool}
    (stays : ∀ l l' : List α, l'.Sublist l → fits l = true → fits l' = true) :
    dropOldest keep also (dropOldest keep fits entries) =
      dropOldest keep (fun l => fits l && also l) entries := by
  induction entries using dropOldest_induction keep fits with
  | fit l h =>
    rw [dropOldest_of_fits h]
    exact dropOldest_congr fun l' sub => by rw [stays l l' sub h, Bool.true_and]
  | rest l full h => rw [dropOldest_of_none h, dropOldest_of_none h, dropOldest_of_none h]
  | drop l x full h ih =>
    rw [dropOldest_of_some full h, ih,
      dropOldest_of_some (by simp [full]) h]

end Steps

section First

variable {keep : α → Bool} {entries : List α} {x : α}

/-- The first entry that may be dropped, and the list without it. -/
theorem split_at_first (found : entries.find? (fun x => !keep x) = some x) :
    ∃ before after, entries = before ++ x :: after ∧
      (entries.eraseP fun x => !keep x) = before ++ after ∧
      keep x = false ∧ ∀ b ∈ before, keep b = true := by
  obtain ⟨unprotected, before, after, rfl, kept⟩ := List.find?_eq_some_iff_append.mp found
  have kept_before : ∀ b ∈ before, keep b = true := fun b hb => by simpa using kept b hb
  refine ⟨before, after, rfl, ?_, by simpa using unprotected, kept_before⟩
  rw [List.eraseP_append_right _ fun b hb => by simp [kept_before b hb],
    List.eraseP_cons_of_pos (p := fun x => !keep x) unprotected]

theorem others_of_find? (found : entries.find? (fun x => !keep x) = some x) :
    others keep entries = x :: others keep (entries.eraseP fun x => !keep x) := by
  obtain ⟨before, after, rfl, erased, dropped, kept⟩ := split_at_first found
  have none_before : before.filter (fun x => !keep x) = [] :=
    List.filter_eq_nil_iff.mpr fun b hb => by simp [kept b hb]
  rw [erased, others, others, List.filter_append, List.filter_append, none_before,
    List.filter_cons_of_pos (by simp [dropped]), List.nil_append, List.nil_append]

end First

section Suffix

variable [DecidableEq α] {keep : α → Bool}

theorem mem_keeping {keep : α → Bool} {suffix entries : List α} {x : α} :
    x ∈ keeping keep suffix entries ↔ x ∈ entries ∧ (keep x = true ∨ x ∈ suffix) := by
  simp [keeping]

theorem keeping_others (keep : α → Bool) (entries : List α) :
    keeping keep (others keep entries) entries = entries := by
  refine List.filter_eq_self.mpr fun x member => ?_
  cases h : keep x <;> simp [others, member, h]

theorem keeping_sublist (keep : α → Bool) {suffix longer : List α} (entries : List α)
    (sub : ∀ x ∈ suffix, x ∈ longer) :
    (keeping keep suffix entries).Sublist (keeping keep longer entries) := by
  refine List.monotone_filter_right _ fun x h => ?_
  rcases Bool.or_eq_true _ _ ▸ h with h | h
  · simp [h]
  · simp [sub x (by simpa using h)]

theorem keeping_eraseP {entries suffix : List α} {x : α}
    (found : entries.find? (fun x => !keep x) = some x) (gone : x ∉ suffix) :
    keeping keep suffix (entries.eraseP fun x => !keep x) = keeping keep suffix entries := by
  obtain ⟨before, after, rfl, erased, dropped, -⟩ := split_at_first found
  rw [erased, keeping, keeping, List.filter_append, List.filter_append,
    List.filter_cons_of_neg (by simp [dropped, gone])]

/-- What is left is the protected entries and a suffix of the others. It fits
unless the suffix is empty, and no longer suffix does. -/
theorem dropOldest_spec (keep : α → Bool) (fits : List α → Bool) {entries : List α}
    (nodup : entries.Nodup) :
    ∃ suffix, suffix <:+ others keep entries ∧
      dropOldest keep fits entries = keeping keep suffix entries ∧
      (fits (keeping keep suffix entries) = true ∨ suffix = []) ∧
      ∀ longer, suffix <:+ longer → longer <:+ others keep entries → longer ≠ suffix →
        fits (keeping keep longer entries) = false := by
  induction entries using dropOldest_induction keep fits with
  | fit l h =>
    refine ⟨others keep l, List.suffix_rfl, ?_, ?_, ?_⟩
    · rw [dropOldest_of_fits h, keeping_others]
    · exact .inl (by rwa [keeping_others])
    · intro longer above below differ
      exact absurd (below.eq_of_length_le above.length_le) differ
  | rest l full h =>
    have empty : others keep l = [] :=
      List.filter_eq_nil_iff.mpr fun x hx => List.find?_eq_none.mp h x hx
    refine ⟨[], List.nil_suffix, ?_, .inr rfl, ?_⟩
    · have all := keeping_others keep l
      rw [empty] at all
      rw [dropOldest_of_none h, all]
    · intro longer above below differ
      rw [empty] at below
      exact absurd (List.suffix_nil.mp below) differ
  | drop l x full h ih =>
    obtain ⟨suffix, below, left, fit, maximal⟩ := ih (nodup.sublist List.eraseP_sublist)
    have first := others_of_find? h
    -- the dropped entry is not among the later ones
    have fresh : x ∉ others keep (l.eraseP fun x => !keep x) := by
      have distinct : (others keep l).Nodup := nodup.filter _
      rw [first] at distinct
      exact (List.nodup_cons.mp distinct).1
    have later : ∀ s, s <:+ others keep (l.eraseP fun x => !keep x) →
        keeping keep s (l.eraseP fun x => !keep x) = keeping keep s l :=
      fun s hs => keeping_eraseP h fun hx => fresh (hs.subset hx)
    refine ⟨suffix, ?_, ?_, ?_, ?_⟩
    · rw [first]
      exact below.trans (List.suffix_cons _ _)
    · rw [dropOldest_of_some full h, left, later suffix below]
    · rwa [later suffix below] at fit
    · intro longer above within differ
      rw [first, List.suffix_cons_iff] at within
      rcases within with all | within
      · rw [all, ← first, keeping_others]
        exact full
      · rw [← later longer within]
        exact maximal longer above within differ

end Suffix

end Eviction
