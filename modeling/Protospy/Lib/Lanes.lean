import Mathlib.Data.Finset.Card
import Mathlib.Data.List.Nodup
import Mathlib.Order.Defs.LinearOrder

/-!
# Packing closed intervals into lanes

Intervals come in the order of their starts, and each goes to the first lane whose last
interval has ended. No packing has fewer lanes: some point is covered once for each lane.
-/

namespace Lanes

universe u v

variable {ι : Type u} {τ : Type v} [LinearOrder τ]

/-- The last end of each lane, and the intervals with their lanes. -/
structure Packing (ι : Type u) (τ : Type v) where
  ends : List τ
  placed : List (ι × Nat)

variable (start stop : ι → τ)

namespace Packing

def empty : Packing ι τ := ⟨[], []⟩

def place (p : Packing ι τ) (x : ι) : Packing ι τ :=
  match p.ends.findIdx? fun e => e < start x with
  | some lane => ⟨p.ends.set lane (stop x), p.placed ++ [(x, lane)]⟩
  | none => ⟨p.ends ++ [stop x], p.placed ++ [(x, p.ends.length)]⟩

def placeAll (p : Packing ι τ) (xs : List ι) : Packing ι τ := xs.foldl (place start stop) p

end Packing

def Covers (t : τ) (x : ι) : Prop := start x ≤ t ∧ t ≤ stop x

instance (t : τ) (x : ι) : Decidable (Covers start stop t x) :=
  inferInstanceAs (Decidable (_ ∧ _))

/-- How many of the intervals cover a point. -/
def depth (xs : List ι) (t : τ) : Nat := (xs.filter fun x => Covers start stop t x).length

/-- What packing keeps: a lane's intervals end before the next of them starts, the
recorded end is the last, and some point is covered once for each lane. -/
structure Packed (p : Packing ι τ) : Prop where
  lane_lt : ∀ a ∈ p.placed, a.2 < p.ends.length
  le_end : ∀ a ∈ p.placed, ∀ e, p.ends[a.2]? = some e → stop a.1 ≤ e
  end_of : ∀ lane e, p.ends[lane]? = some e → ∃ x, (x, lane) ∈ p.placed ∧ stop x = e
  apart : p.placed.Pairwise fun a b => a.2 = b.2 → stop a.1 < start b.1
  deep : p.ends ≠ [] → ∃ a ∈ p.placed,
    p.ends.length ≤ depth start stop (p.placed.map Prod.fst) (start a.1)

variable {start stop}

theorem packed_empty : Packed start stop (Packing.empty : Packing ι τ) where
  lane_lt := by simp [Packing.empty]
  le_end := by simp [Packing.empty]
  end_of := by simp [Packing.empty]
  apart := List.Pairwise.nil
  deep := by simp [Packing.empty]

theorem depth_append_le (xs ys : List ι) (t : τ) :
    depth start stop xs t ≤ depth start stop (xs ++ ys) t := by
  rw [depth, depth, List.filter_append, List.length_append]
  omega

/-- Intervals in as many lanes cover a point at least as often. -/
theorem le_depth {placed : List (ι × Nat)} {n : Nat} {t : τ}
    (each : ∀ lane < n, ∃ x, (x, lane) ∈ placed ∧ Covers start stop t x) :
    n ≤ depth start stop (placed.map Prod.fst) t := by
  have inside : Finset.range n ⊆
      ((placed.filter fun a => Covers start stop t a.1).map Prod.snd).toFinset := by
    intro lane member
    obtain ⟨x, present, covers⟩ := each lane (Finset.mem_range.mp member)
    rw [List.mem_toFinset, List.mem_map]
    exact ⟨(x, lane), List.mem_filter.mpr ⟨present, decide_eq_true covers⟩, rfl⟩
  have small := Finset.card_le_card inside
  rw [Finset.card_range] at small
  calc n ≤ ((placed.filter fun a => Covers start stop t a.1).map Prod.snd).toFinset.card := small
    _ ≤ (placed.filter fun a => Covers start stop t a.1).length := by
      simpa only [List.length_map] using List.toFinset_card_le
        ((placed.filter fun a => Covers start stop t a.1).map Prod.snd)
    _ = depth start stop (placed.map Prod.fst) t := by
      rw [depth, List.filter_map, List.length_map]
      rfl

/-- The intervals that cover a point are in different lanes. -/
theorem Packed.depth_le {p : Packing ι τ} (packed : Packed start stop p) (t : τ) :
    depth start stop (p.placed.map Prod.fst) t ≤ p.ends.length := by
  have distinct : ((p.placed.filter fun a => Covers start stop t a.1).map Prod.snd).Nodup := by
    rw [List.Nodup, List.pairwise_map]
    refine List.Pairwise.imp_of_mem ?_ (packed.apart.filter _)
    intro a b ha hb apart same
    have covers : Covers start stop t a.1 := of_decide_eq_true (List.mem_filter.mp ha).2
    have covers' : Covers start stop t b.1 := of_decide_eq_true (List.mem_filter.mp hb).2
    exact absurd (apart same) (not_lt_of_ge (le_trans covers'.1 covers.2))
  have below : ((p.placed.filter fun a => Covers start stop t a.1).map Prod.snd).toFinset ⊆
      Finset.range p.ends.length := by
    intro lane member
    obtain ⟨a, inside, rfl⟩ := List.mem_map.mp (List.mem_toFinset.mp member)
    exact Finset.mem_range.mpr (packed.lane_lt a (List.mem_of_mem_filter inside))
  have small := Finset.card_le_card below
  rw [List.toFinset_card_of_nodup distinct, List.length_map, Finset.card_range] at small
  rw [depth, List.filter_map, List.length_map]
  exact small

theorem pairwise_concat {α : Type u} {r : α → α → Prop} {xs : List α} {x : α}
    (before : xs.Pairwise r) (last : ∀ a ∈ xs, r a x) : (xs ++ [x]).Pairwise r := by
  refine List.pairwise_append.mpr ⟨before, List.pairwise_singleton _ _, fun a member b hb => ?_⟩
  rw [List.mem_singleton.mp hb]
  exact last a member

/-- An interval goes to a lane that is free. -/
theorem Packed.reuse {p : Packing ι τ} (packed : Packed start stop p) {x : ι}
    (proper : start x ≤ stop x) {lane : Nat} (bound : lane < p.ends.length)
    (free : p.ends[lane] < start x) :
    Packed start stop ⟨p.ends.set lane (stop x), p.placed ++ [(x, lane)]⟩ := by
  have before : ∀ a ∈ p.placed, a.2 = lane → stop a.1 < start x := by
    rintro ⟨y, other⟩ member rfl
    exact lt_of_le_of_lt (packed.le_end _ member _ (List.getElem?_eq_getElem bound)) free
  constructor
  case lane_lt =>
    intro a member
    rw [List.length_set]
    rcases List.mem_append.mp member with old | new
    · exact packed.lane_lt a old
    · rw [List.mem_singleton.mp new]
      exact bound
  case le_end =>
    intro a member e last
    rw [List.getElem?_set] at last
    split at last
    · rename_i same
      obtain rfl := Option.some.inj last
      rcases List.mem_append.mp member with old | new
      · exact le_trans (before a old same.symm).le proper
      · rw [List.mem_singleton.mp new]
    · rename_i other
      rcases List.mem_append.mp member with old | new
      · exact packed.le_end a old e last
      · rw [List.mem_singleton.mp new] at other
        exact absurd rfl other
  case end_of =>
    intro lane' e last
    rw [List.getElem?_set] at last
    split at last
    · rename_i same
      exact ⟨x, by simp [same], Option.some.inj last⟩
    · obtain ⟨y, present, ends⟩ := packed.end_of lane' e last
      exact ⟨y, List.mem_append_left _ present, ends⟩
  case apart => exact pairwise_concat packed.apart before
  case deep =>
    intro _
    have nonempty : p.ends ≠ [] := List.ne_nil_of_length_pos (Nat.zero_lt_of_lt bound)
    obtain ⟨a, member, deep⟩ := packed.deep nonempty
    refine ⟨a, List.mem_append_left _ member, ?_⟩
    rw [List.length_set, List.map_append]
    exact le_trans deep (depth_append_le _ _ _)

/-- A new lane is opened where every lane is taken. -/
theorem Packed.extend {p : Packing ι τ} (packed : Packed start stop p) {x : ι}
    (proper : start x ≤ stop x) (sorted : ∀ a ∈ p.placed, start a.1 ≤ start x)
    (busy : ∀ e ∈ p.ends, start x ≤ e) :
    Packed start stop ⟨p.ends ++ [stop x], p.placed ++ [(x, p.ends.length)]⟩ := by
  constructor
  case lane_lt =>
    intro a member
    rw [List.length_append, List.length_singleton]
    rcases List.mem_append.mp member with old | new
    · have := packed.lane_lt a old
      omega
    · rw [List.mem_singleton.mp new]
      omega
  case le_end =>
    intro a member e last
    rcases List.mem_append.mp member with old | new
    · rw [List.getElem?_append_left (packed.lane_lt a old)] at last
      exact packed.le_end a old e last
    · rw [List.mem_singleton.mp new] at last ⊢
      rw [List.getElem?_concat_length] at last
      exact (Option.some.inj last).le
  case end_of =>
    intro lane e last
    by_cases old : lane < p.ends.length
    · rw [List.getElem?_append_left old] at last
      obtain ⟨y, present, ends⟩ := packed.end_of lane e last
      exact ⟨y, List.mem_append_left _ present, ends⟩
    · have inside := (List.getElem?_eq_some_iff.mp last).1
      rw [List.length_append, List.length_singleton] at inside
      obtain rfl : lane = p.ends.length := by omega
      rw [List.getElem?_concat_length] at last
      exact ⟨x, by simp, Option.some.inj last⟩
  case apart =>
    refine pairwise_concat packed.apart fun a member same => ?_
    have := packed.lane_lt a member
    exact absurd same (by omega)
  case deep =>
    intro _
    refine ⟨(x, p.ends.length), by simp, ?_⟩
    rw [List.length_append, List.length_singleton]
    apply le_depth
    intro lane below
    by_cases old : lane < p.ends.length
    · obtain ⟨y, present, ends⟩ := packed.end_of lane _ (List.getElem?_eq_getElem old)
      have covers : Covers start stop (start x) y :=
        ⟨sorted _ present, ends ▸ busy _ (List.getElem_mem old)⟩
      exact ⟨y, List.mem_append_left _ present, covers⟩
    · obtain rfl : lane = p.ends.length := by omega
      exact ⟨x, by simp, le_refl _, proper⟩

theorem Packed.place {p : Packing ι τ} (packed : Packed start stop p) {x : ι}
    (proper : start x ≤ stop x) (sorted : ∀ a ∈ p.placed, start a.1 ≤ start x) :
    Packed start stop (p.place start stop x) := by
  rw [Packing.place]
  cases free : p.ends.findIdx? (fun e => e < start x) with
  | some lane =>
    obtain ⟨bound, ended, -⟩ := List.findIdx?_eq_some_iff_getElem.mp free
    exact packed.reuse proper bound (of_decide_eq_true ended)
  | none =>
    refine packed.extend proper sorted fun e member => ?_
    exact not_lt.mp (of_decide_eq_false (List.findIdx?_eq_none_iff.mp free e member))

theorem placed_place (p : Packing ι τ) (x : ι) :
    (p.place start stop x).placed.map Prod.fst = p.placed.map Prod.fst ++ [x] := by
  rw [Packing.place]
  split <;> rw [List.map_append] <;> rfl

theorem Packed.placeAll {p : Packing ι τ} (packed : Packed start stop p) {xs : List ι}
    (proper : ∀ x ∈ xs, start x ≤ stop x)
    (sorted : (p.placed.map Prod.fst ++ xs).Pairwise fun a b => start a ≤ start b) :
    Packed start stop (p.placeAll start stop xs) ∧
      (p.placeAll start stop xs).placed.map Prod.fst = p.placed.map Prod.fst ++ xs := by
  induction xs generalizing p with
  | nil => exact ⟨packed, (List.append_nil _).symm⟩
  | cons x xs ih =>
    obtain ⟨first, rest⟩ := List.forall_mem_cons.mp proper
    have earlier : ∀ a ∈ p.placed, start a.1 ≤ start x := fun a member =>
      (List.pairwise_append.mp sorted).2.2 a.1 (List.mem_map_of_mem member) x List.mem_cons_self
    have sorted' : ((p.place start stop x).placed.map Prod.fst ++ xs).Pairwise
        fun a b => start a ≤ start b := by
      rw [placed_place, List.append_assoc]
      exact sorted
    have step := ih (packed.place first earlier) rest sorted'
    rw [placed_place, List.append_assoc] at step
    exact step

/-- First fit uses as many lanes as there are intervals over some one point. -/
theorem placeAll_optimal (start stop : ι → τ) {xs : List ι} (proper : ∀ x ∈ xs, start x ≤ stop x)
    (sorted : xs.Pairwise fun a b => start a ≤ start b) :
    (∀ t, depth start stop xs t ≤ (Packing.empty.placeAll start stop xs).ends.length) ∧
    (xs ≠ [] → ∃ x ∈ xs,
      depth start stop xs (start x) = (Packing.empty.placeAll start stop xs).ends.length) := by
  obtain ⟨packed, all⟩ := packed_empty.placeAll proper sorted
  have all' : (Packing.empty.placeAll start stop xs).placed.map Prod.fst = xs := all
  have most := packed.depth_le
  rw [all'] at most
  refine ⟨most, fun some => ?_⟩
  have opened : (Packing.empty.placeAll start stop xs).ends ≠ [] := by
    intro none
    obtain ⟨x, member⟩ := List.exists_mem_of_ne_nil xs some
    rw [← all'] at member
    obtain ⟨a, placed, -⟩ := List.mem_map.mp member
    have := packed.lane_lt a placed
    rw [none] at this
    cases this
  obtain ⟨a, member, deep⟩ := packed.deep opened
  rw [all'] at deep
  refine ⟨a.1, ?_, le_antisymm (most _) deep⟩
  rw [← all']
  exact List.mem_map_of_mem member

end Lanes
