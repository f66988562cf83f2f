import Mathlib.Data.List.Infix
import Mathlib.Data.List.Perm.Basic
import Mathlib.Data.List.Nodup

/-!
# Arrangements of a list

The members of each group are gathered where the first of them stands, and two
arrangements of the same elements are compared by the neighbours they give to each.
-/

namespace Arrangement

universe u v

variable {α : Type u} {κ : Type v} [DecidableEq κ]

/-! ## Gathering groups -/

def isMember (key : α → Option κ) (k : κ) (a : α) : Bool := key a = some k

def members (key : α → Option κ) (k : κ) (l : List α) : List α := l.filter (isMember key k)

def others (key : α → Option κ) (k : κ) (l : List α) : List α := l.filter fun a => !isMember key k a

/-- The members of a group follow the first of them; elements without a key stay alone. -/
def gather (key : α → Option κ) : List α → List α
  | [] => []
  | a :: l =>
    match key a with
    | none => a :: gather key l
    | some k => a :: (members key k l ++ gather key (others key k l))
termination_by l => l.length
decreasing_by
  · exact Nat.lt_succ_self _
  · exact Nat.lt_succ_of_le (List.length_filter_le _ _)

variable {key : α → Option κ}

theorem gather_nil : gather key [] = [] := by
  rw [gather]

theorem gather_cons_none {a : α} (alone : key a = none) (l : List α) :
    gather key (a :: l) = a :: gather key l := by
  rw [gather, alone]

theorem gather_cons_some {a : α} {k : κ} (keyed : key a = some k) (l : List α) :
    gather key (a :: l) = a :: (members key k l ++ gather key (others key k l)) := by
  rw [gather, keyed]

theorem members_cons_self {a : α} {k : κ} (keyed : key a = some k) (l : List α) :
    members key k (a :: l) = a :: members key k l :=
  List.filter_cons_of_pos (decide_eq_true keyed)

theorem members_cons_of_ne {a : α} {k : κ} (other : key a ≠ some k) (l : List α) :
    members key k (a :: l) = members key k l :=
  List.filter_cons_of_neg (mt of_decide_eq_true other)

theorem members_append (k : κ) (l m : List α) :
    members key k (l ++ m) = members key k l ++ members key k m :=
  List.filter_append ..

theorem members_eq_nil {k : κ} {l : List α} (none : ∀ a ∈ l, key a ≠ some k) :
    members key k l = [] :=
  List.filter_eq_nil_iff.mpr fun a member => mt of_decide_eq_true (none a member)

theorem key_of_mem_members {k : κ} {l : List α} {a : α} (member : a ∈ members key k l) :
    key a = some k :=
  of_decide_eq_true (List.mem_filter.mp member).2

theorem key_of_mem_others {k : κ} {l : List α} {a : α} (member : a ∈ others key k l) :
    key a ≠ some k := by
  have other := (List.mem_filter.mp member).2
  intro keyed
  rw [isMember, decide_eq_true keyed] at other
  exact absurd other (by decide)

theorem members_members (k : κ) (l : List α) : members key k (members key k l) = members key k l :=
  List.filter_filter.trans (congrArg (List.filter · l) (funext fun _ => Bool.and_self _))

/-- The other groups lose nothing when the members of one are taken out. -/
theorem members_others {k k' : κ} (distinct : k' ≠ k) (l : List α) :
    members key k' (others key k l) = members key k' l := by
  rw [members, others, List.filter_filter]
  refine List.filter_congr fun a _ => ?_
  by_cases keyed : key a = some k'
  · have other : key a ≠ some k := fun same => distinct (Option.some.inj (keyed.symm.trans same))
    simp only [isMember, keyed, decide_true, Bool.true_and, Bool.not_eq_true', decide_eq_false_iff_not]
    exact fun same => distinct (Option.some.inj same)
  · simp only [isMember, keyed, decide_false, Bool.false_and]

theorem gather_perm (key : α → Option κ) (l : List α) : (gather key l).Perm l := by
  induction l using gather.induct key with
  | case1 => rw [gather_nil]
  | case2 a l alone ih => exact gather_cons_none alone l ▸ ih.cons a
  | case3 a l k keyed ih =>
    rw [gather_cons_some keyed]
    have parts : (members key k l ++ others key k l).Perm l := List.filter_append_perm _ _
    exact ((ih.append_left _).trans parts).cons a

/-- Within a group the order stays. -/
theorem members_gather (k : κ) (l : List α) : members key k (gather key l) = members key k l := by
  induction l using gather.induct key with
  | case1 => rw [gather_nil]
  | case2 a l alone ih =>
    have other : key a ≠ some k := fun keyed => absurd (alone.symm.trans keyed) (by simp)
    rw [gather_cons_none alone, members_cons_of_ne other, members_cons_of_ne other, ih]
  | case3 a l k' keyed ih =>
    rw [gather_cons_some keyed]
    by_cases same : k = k'
    · subst same
      have none : members key k (others key k l) = [] :=
        members_eq_nil fun _ member => key_of_mem_others member
      rw [members_cons_self keyed, members_cons_self keyed, members_append, ih, none,
        List.append_nil, members_members]
    · have other : key a ≠ some k := fun here => same (Option.some.inj (here.symm.trans keyed))
      have none : members key k (members key k' l) = [] := members_eq_nil fun b member here =>
        same (Option.some.inj (here.symm.trans (key_of_mem_members member)))
      rw [members_cons_of_ne other, members_cons_of_ne other, members_append, none, List.nil_append,
        ih, members_others same]

/-- The members of each group stand together. -/
def Contiguous (key : α → Option κ) (l : List α) : Prop := ∀ k, members key k l <:+: l

theorem contiguous_gather (key : α → Option κ) (l : List α) : Contiguous key (gather key l) := by
  intro k
  rw [members_gather]
  induction l using gather.induct key with
  | case1 => exact List.nil_infix
  | case2 a l alone ih =>
    have other : key a ≠ some k := fun keyed => absurd (alone.symm.trans keyed) (by simp)
    rw [gather_cons_none alone, members_cons_of_ne other]
    exact List.infix_cons ih
  | case3 a l k' keyed ih =>
    rw [gather_cons_some keyed]
    by_cases same : k = k'
    · subst same
      rw [members_cons_self keyed]
      exact (List.prefix_append (a :: members key k l) _).isInfix
    · have other : key a ≠ some k := fun here => same (Option.some.inj (here.symm.trans keyed))
      rw [members_cons_of_ne other, ← members_others same]
      exact List.infix_cons (ih.trans (List.suffix_append _ _).isInfix)

theorem others_append (k : κ) (l m : List α) :
    others key k (l ++ m) = others key k l ++ others key k m :=
  List.filter_append ..

theorem others_members (k : κ) (l : List α) : others key k (members key k l) = [] := by
  refine List.filter_eq_nil_iff.mpr fun a member => ?_
  rw [isMember, decide_eq_true (key_of_mem_members member)]
  decide

theorem others_eq_self {k : κ} {l : List α} (none : ∀ a ∈ l, key a ≠ some k) :
    others key k l = l := by
  refine List.filter_eq_self.mpr fun a member => ?_
  rw [isMember, decide_eq_false (none a member)]
  rfl

/-- Members that stand together do so without what stands before the first of them. -/
theorem infix_of_append {a l : List α} {k : κ} (none : ∀ b ∈ a, key b ≠ some k)
    (together : members key k l <:+: a ++ l) : members key k l <:+: l := by
  induction a with
  | nil => exact together
  | cons b a ih =>
    obtain ⟨first, rest⟩ := List.forall_mem_cons.mp none
    apply ih rest
    rcases List.infix_cons_iff.mp together with start | later
    · cases found : members key k l with
      | nil => exact List.nil_infix
      | cons c cs =>
        -- The first member would be the element that is none.
        rw [found] at start
        have keyed : key c = some k := key_of_mem_members (found ▸ List.mem_cons_self)
        exact absurd ((List.cons_prefix_cons.mp start).1 ▸ keyed) first
    · exact later

/-- Where the first element is a member and all members stand together, the rest of the list
begins with the other members. -/
theorem Contiguous.split {a : α} {l : List α} {k : κ} (together : Contiguous key (a :: l))
    (keyed : key a = some k) :
    ∃ rest, l = members key k l ++ rest ∧ ∀ b ∈ rest, key b ≠ some k := by
  have start : members key k l <+: l := by
    have inside := together k
    rw [members_cons_self keyed] at inside
    rcases List.infix_cons_iff.mp inside with start | later
    · exact (List.cons_prefix_cons.mp start).2
    · -- Too few members are left for that.
      have fewer := (later.sublist.filter (isMember key k)).length_le
      have all : (a :: members key k l).filter (isMember key k) = a :: members key k l :=
        (members_cons_self keyed _).trans (congrArg _ (members_members k l))
      rw [all, List.length_cons] at fewer
      exact absurd fewer (Nat.not_succ_le_self _)
  obtain ⟨rest, split⟩ := start
  refine ⟨rest, split.symm, fun b member here => ?_⟩
  have count := congrArg (members key k) split
  rw [members_append, members_members] at count
  have none := List.append_right_eq_self.mp count
  exact List.ne_nil_of_mem (List.mem_filter.mpr ⟨member, decide_eq_true here⟩) none

theorem Contiguous.tail {a : α} {l : List α} (together : Contiguous key (a :: l))
    (alone : key a = none) : Contiguous key l := by
  intro k
  have other : key a ≠ some k := fun keyed => absurd (alone.symm.trans keyed) (by simp)
  have inside := together k
  rw [members_cons_of_ne other] at inside
  exact infix_of_append (a := [a]) (List.forall_mem_singleton.mpr other) inside

/-- The other groups stand together as before. -/
theorem Contiguous.rest {a : α} {l rest : List α} {k : κ} (together : Contiguous key (a :: l))
    (keyed : key a = some k) (split : l = members key k l ++ rest)
    (free : ∀ b ∈ rest, key b ≠ some k) : Contiguous key rest := by
  intro k'
  by_cases same : k' = k
  · subst same
    exact members_eq_nil free ▸ List.nil_infix
  · have outside : ∀ b ∈ a :: members key k l, key b ≠ some k' := by
      intro b member here
      have own : key b = some k := by
        rcases List.mem_cons.mp member with rfl | inside
        · exact keyed
        · exact key_of_mem_members inside
      exact same (Option.some.inj (here.symm.trans own))
    have whole : a :: l = (a :: members key k l) ++ rest := by
      rw [List.cons_append, ← split]
    have inside := together k'
    rw [whole, members_append, members_eq_nil outside, List.nil_append] at inside
    exact infix_of_append outside inside

/-- Where the members of each group stand together already, nothing moves. -/
theorem gather_eq_self_of_contiguous {l : List α} (together : Contiguous key l) :
    gather key l = l := by
  induction l using gather.induct key with
  | case1 => exact gather_nil
  | case2 a l alone ih => rw [gather_cons_none alone, ih (together.tail alone)]
  | case3 a l k keyed ih =>
    obtain ⟨rest, split, free⟩ := together.split keyed
    have left : others key k l = rest := by
      calc others key k l
        _ = others key k (members key k l ++ rest) := congrArg _ split
        _ = rest := by rw [others_append, others_members, others_eq_self free, List.nil_append]
    rw [left] at ih
    rw [gather_cons_some keyed, left, ih (together.rest keyed split free), ← split]

theorem gather_eq_self_iff {l : List α} : gather key l = l ↔ Contiguous key l :=
  ⟨fun same => same ▸ contiguous_gather key l, gather_eq_self_of_contiguous⟩

/-! ## Neighbours -/

/-- Each element has the same neighbours in both lists. At an end an element is its own. -/
def SameNeighbours (l m : List α) : Prop :=
  ∀ before a after before' after', l = before ++ a :: after → m = before' ++ a :: after' →
    after.headD a = after'.headD a ∧ before.getLastD a = before'.getLastD a

/-- What the first list begins with, the second begins with. -/
theorem SameNeighbours.starts {l m p : List α} (same : SameNeighbours l m) (perm : l.Perm m)
    (distinct : l.Nodup) (start : p <+: l) : p <+: m := by
  have distinct' : m.Nodup := perm.nodup_iff.mp distinct
  induction p using List.reverseRecOn with
  | nil => exact List.nil_prefix
  | append_singleton p x ih =>
    have shorter := ih ((List.prefix_append p [x]).trans start)
    obtain ⟨w, split⟩ := start
    rcases List.eq_nil_or_concat p with rfl | ⟨q, y, rfl⟩
    · have inside : x ∈ m := perm.subset (split ▸ List.mem_cons_self)
      obtain ⟨b, c, split'⟩ := List.append_of_mem inside
      have last := (same [] x w b c split.symm split').2
      rcases List.eq_nil_or_concat b with rfl | ⟨b, z, rfl⟩
      · exact ⟨c, split'.symm⟩
      · rw [List.concat_eq_append, List.getLastD_concat, List.getLastD_nil] at last
        subst last
        rw [split', List.concat_eq_append] at distinct'
        exact absurd rfl ((List.nodup_append.mp distinct').2.2 x (by simp) x List.mem_cons_self)
    · obtain ⟨v, split'⟩ := shorter
      rw [List.concat_eq_append, List.append_assoc, List.append_assoc] at split
      rw [List.concat_eq_append, List.append_assoc] at split'
      have first := (same q y (x :: w) q v split.symm split'.symm).1
      cases v with
      | nil =>
        rw [List.headD_cons, List.headD_nil] at first
        subst first
        rw [← split] at distinct
        have tail := (List.nodup_append.mp distinct).2.1
        exact absurd List.mem_cons_self (List.nodup_cons.mp tail).1
      | cons z v =>
        rw [List.headD_cons, List.headD_cons] at first
        subst first
        refine ⟨v, ?_⟩
        rw [← split', List.concat_eq_append, List.append_assoc, List.append_assoc]
        rfl

theorem eq_of_sameNeighbours {l m : List α} (same : SameNeighbours l m) (perm : l.Perm m)
    (distinct : l.Nodup) : l = m :=
  (same.starts perm distinct List.prefix_rfl).eq_of_length perm.length_eq

end Arrangement
