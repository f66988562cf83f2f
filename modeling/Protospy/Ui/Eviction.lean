import Mathlib.Data.List.Perm.Subperm
import Protospy.Lib.Eviction
import Protospy.Ui.Reducer

/-!
# Eviction (`state/reducer.ts`)

Two caps bound the store: the number of exchanges and the octets of their bodies.
-/

namespace Protospy.Ui

open Eviction (dropOldest keeping others)

def maxExchanges : Nat := 1024

def maxPayloadBytes : Nat := 512 * 1024 * 1024

def exchangeBytes (ex : Exchange) : Nat :=
  (ex.requestBody.elim 0 fun body => body.wireBytes) +
    (ex.responseBody.elim 0 fun body => body.wireBytes)

def isProtected (protectedId : Option Nat) (id : Nat) : Bool := protectedId = some id

def oldestEvictable (protectedId : Option Nat) (ids : List Nat) : Option Nat :=
  ids.find? fun id => !isProtected protectedId id

namespace Store

/-- The store without `id`, the oldest evictable one. -/
def dropFirst (store : Store) (protectedId : Option Nat) (id : Nat) : Store :=
  ⟨Function.update store.exchanges id none,
    store.ids.eraseP fun other => !isProtected protectedId other⟩

def bytesOf (store : Store) (id : Nat) : Nat := (store.exchanges id).elim 0 exchangeBytes

def payload (store : Store) (ids : List Nat) : Nat :=
  ids.foldl (fun total id => total + store.bytesOf id) 0

end Store

/-- The first loop: down to `max` exchanges. -/
def evictCount (protectedId : Option Nat) (max : Nat) (store : Store) : Store :=
  if max < store.ids.length then
    match found : oldestEvictable protectedId store.ids with
    | none => store
    | some id =>
      have : (store.dropFirst protectedId id).ids.length < store.ids.length :=
        Eviction.length_eraseP_lt found
      evictCount protectedId max (store.dropFirst protectedId id)
  else store
termination_by store.ids.length

/-- The second loop: down to `max` octets in `total`, keeping one exchange. -/
def evictPayload (protectedId : Option Nat) (max : Nat) (total : Nat) (store : Store) : Store :=
  if max < total ∧ 1 < store.ids.length then
    match found : oldestEvictable protectedId store.ids with
    | none => store
    | some id =>
      have : (store.dropFirst protectedId id).ids.length < store.ids.length :=
        Eviction.length_eraseP_lt found
      evictPayload protectedId max (total - store.bytesOf id) (store.dropFirst protectedId id)
  else store
termination_by store.ids.length

def evict (protectedId : Option Nat) (store : Store) : Store :=
  let store := evictCount protectedId maxExchanges store
  evictPayload protectedId maxPayloadBytes (store.payload store.ids) store

/-! ## Well-formed stores -/

/-- `ids` lists the keys of `exchanges`, each once, and every exchange has its key as id. -/
structure Store.WellFormed (store : Store) : Prop where
  nodup : store.ids.Nodup
  mem_ids : ∀ id, id ∈ store.ids ↔ (store.exchanges id).isSome = true
  keyed : ∀ id ex, store.exchanges id = some ex → ex.id = id

/-- The store with the exchanges of `kept` only. -/
def Store.restrict (store : Store) (kept : List Nat) : Store :=
  ⟨fun id => if id ∈ kept then store.exchanges id else none, kept⟩

theorem Store.ids_restrict (store : Store) (kept : List Nat) :
    (store.restrict kept).ids = kept := rfl

namespace Store.WellFormed

variable {store : Store}

theorem empty : Store.empty.WellFormed :=
  ⟨List.nodup_nil, fun id => by simp [Store.empty], fun id ex h => by simp [Store.empty] at h⟩

theorem restrict (wf : store.WellFormed) {kept : List Nat} (sub : kept.Sublist store.ids) :
    (store.restrict kept).WellFormed := by
  refine ⟨wf.nodup.sublist sub, fun id => ?_, fun id ex h => ?_⟩
  · by_cases member : id ∈ kept
    · simp [Store.restrict, member, (wf.mem_ids id).mp (sub.subset member)]
    · simp [Store.restrict, member]
  · by_cases member : id ∈ kept
    · exact wf.keyed id ex (by simpa [Store.restrict, member] using h)
    · simp [Store.restrict, member] at h

theorem exchanges_eq_none (wf : store.WellFormed) {id : Nat} (gone : id ∉ store.ids) :
    store.exchanges id = none := by
  rwa [wf.mem_ids, Bool.not_eq_true, Option.isSome_eq_false_iff, Option.isNone_iff_eq_none]
    at gone

theorem restrict_ids (wf : store.WellFormed) : store.restrict store.ids = store := by
  have same : (fun id => if id ∈ store.ids then store.exchanges id else none) =
      store.exchanges := by
    funext id
    by_cases member : id ∈ store.ids
    · rw [if_pos member]
    · rw [if_neg member, wf.exchanges_eq_none member]
  rw [Store.restrict, same]

/-- Dropping the oldest evictable exchange restricts the store to the others. -/
theorem dropFirst_eq (wf : store.WellFormed) {protectedId : Option Nat} {id : Nat}
    (found : oldestEvictable protectedId store.ids = some id) :
    store.dropFirst protectedId id =
      store.restrict (store.ids.eraseP fun other => !isProtected protectedId other) := by
  obtain ⟨before, after, split, erased, -, -⟩ := Eviction.split_at_first found
  have nodup := wf.nodup
  rw [split] at nodup
  have gone : id ∉ before ++ after := (List.nodup_middle.mp nodup).notMem
  rw [Store.dropFirst, Store.restrict, erased]
  congr 1
  funext other
  by_cases same : other = id
  · subst same
    rw [Function.update_self, if_neg gone]
  · rw [Function.update_of_ne same]
    by_cases member : other ∈ before ++ after
    · rw [if_pos member]
    · have absent : other ∉ store.ids := by
        rw [split]
        simp only [List.mem_append, List.mem_cons, not_or] at member ⊢
        exact ⟨member.1, same, member.2⟩
      rw [if_neg member, wf.exchanges_eq_none absent]

end Store.WellFormed

namespace Store

theorem restrict_restrict (store : Store) {kept few : List Nat} (sub : few.Sublist kept) :
    (store.restrict kept).restrict few = store.restrict few := by
  have same : (fun id => if id ∈ few then (store.restrict kept).exchanges id else none) =
      fun id => if id ∈ few then store.exchanges id else none := by
    funext id
    by_cases member : id ∈ few
    · rw [if_pos member, if_pos member, restrict]
      exact if_pos (sub.subset member)
    · rw [if_neg member, if_neg member]
  rw [restrict, same]
  rfl

@[simp] theorem payload_nil (store : Store) : store.payload [] = 0 := rfl

theorem payload_append (store : Store) (ids more : List Nat) :
    store.payload (ids ++ more) = store.payload ids + store.payload more := by
  have fold : ∀ (total : Nat) (ids : List Nat),
      ids.foldl (fun total id => total + store.bytesOf id) total = total + store.payload ids := by
    intro total ids
    induction ids generalizing total with
    | nil => rfl
    | cons id ids ih => rw [payload, List.foldl_cons, List.foldl_cons, ih, ih (0 + _)]; omega
  rw [payload, List.foldl_append, fold]
  rfl

theorem payload_cons (store : Store) (id : Nat) (ids : List Nat) :
    store.payload (id :: ids) = store.bytesOf id + store.payload ids := by
  have one : store.payload [id] = store.bytesOf id := Nat.zero_add _
  rw [← one, ← payload_append]
  rfl

theorem payload_restrict (store : Store) (kept : List Nat) {ids : List Nat}
    (sub : ∀ id ∈ ids, id ∈ kept) : (store.restrict kept).payload ids = store.payload ids := by
  induction ids with
  | nil => rfl
  | cons id ids ih =>
    have member : id ∈ kept := sub id List.mem_cons_self
    rw [payload_cons, payload_cons, ih fun other h => sub other (List.mem_cons_of_mem _ h)]
    simp [bytesOf, restrict, member]

theorem payload_eraseP (store : Store) {protectedId : Option Nat} {id : Nat} {ids : List Nat}
    (found : oldestEvictable protectedId ids = some id) :
    store.payload (ids.eraseP fun other => !isProtected protectedId other) =
      store.payload ids - store.bytesOf id := by
  obtain ⟨before, after, rfl, erased, -, -⟩ := Eviction.split_at_first found
  rw [erased, payload_append, payload_append, payload_cons]
  omega

end Store

/-! ## What eviction leaves -/

theorem evictCount_eq (protectedId : Option Nat) (max : Nat) {store : Store}
    (wf : store.WellFormed) :
    evictCount protectedId max store = store.restrict
      (dropOldest (isProtected protectedId) (fun ids => decide (ids.length ≤ max)) store.ids) := by
  fun_induction evictCount protectedId max store with
  | case1 store full none_left =>
    rw [Eviction.dropOldest_of_none none_left, wf.restrict_ids]
  | case2 store full id found smaller ih =>
    have first := wf.dropFirst_eq found
    rw [ih (first ▸ wf.restrict List.eraseP_sublist), first,
      Eviction.dropOldest_of_some (by simpa using full) found]
    exact store.restrict_restrict (Eviction.dropOldest_sublist _ _ _)
  | case3 store fits =>
    rw [Eviction.dropOldest_of_fits (by simpa using fits), wf.restrict_ids]

theorem evictPayload_eq (protectedId : Option Nat) (max : Nat) {total : Nat} {store : Store}
    (wf : store.WellFormed) (sum : total = store.payload store.ids) :
    evictPayload protectedId max total store = store.restrict
      (dropOldest (isProtected protectedId)
        (fun ids => decide (store.payload ids ≤ max ∨ ids.length ≤ 1)) store.ids) := by
  fun_induction evictPayload protectedId max total store with
  | case1 total store full none_left =>
    rw [Eviction.dropOldest_of_none none_left, wf.restrict_ids]
  | case2 total store full id found smaller ih =>
    have first := wf.dropFirst_eq found
    rw [first] at ih ⊢
    rw [ih (wf.restrict List.eraseP_sublist) ?_, Eviction.dropOldest_of_some (by grind) found,
      Store.ids_restrict, store.restrict_restrict (Eviction.dropOldest_sublist _ _ _)]
    · congr 1
      refine Eviction.dropOldest_congr fun ids within => ?_
      rw [store.payload_restrict _ fun id member => within.subset member]
    · rw [sum, ← store.payload_eraseP found]
      exact (store.payload_restrict _ fun id member => member).symm
  | case3 total store fits =>
    rw [Eviction.dropOldest_of_fits (by grind), wf.restrict_ids]

/-- The exchanges with which eviction stops. -/
def Store.stops (store : Store) (ids : List Nat) : Bool :=
  decide (ids.length ≤ maxExchanges) &&
    decide (store.payload ids ≤ maxPayloadBytes ∨ ids.length ≤ 1)

/-- Both loops as one. -/
theorem evict_eq (protectedId : Option Nat) {store : Store} (wf : store.WellFormed) :
    evict protectedId store =
      store.restrict (dropOldest (isProtected protectedId) store.stops store.ids) := by
  have sub := Eviction.dropOldest_sublist (isProtected protectedId)
    (fun ids => decide (ids.length ≤ maxExchanges)) store.ids
  rw [evict, evictCount_eq protectedId maxExchanges wf,
    evictPayload_eq protectedId maxPayloadBytes (wf.restrict sub) rfl,
    Store.ids_restrict, store.restrict_restrict (Eviction.dropOldest_sublist _ _ _)]
  have stops : store.stops = fun ids => decide (ids.length ≤ maxExchanges) &&
      decide (store.payload ids ≤ maxPayloadBytes ∨ ids.length ≤ 1) := rfl
  congr 1
  rw [stops, ← Eviction.dropOldest_dropOldest]
  · refine Eviction.dropOldest_congr fun ids within => ?_
    rw [store.payload_restrict _ fun id member => within.subset member]
  · intro ids fewer below fits
    have shorter := below.length_le
    simp only [decide_eq_true_eq] at fits ⊢
    omega

theorem Store.WellFormed.evict {store : Store} (wf : store.WellFormed)
    (protectedId : Option Nat) : (evict protectedId store).WellFormed := by
  rw [evict_eq protectedId wf]
  exact wf.restrict (Eviction.dropOldest_sublist _ _ _)

/-- Both caps hold with these exchanges. -/
def Store.Fits (store : Store) (ids : List Nat) : Prop :=
  ids.length ≤ maxExchanges ∧ store.payload ids ≤ maxPayloadBytes

/-- The exchanges kept beside the protected one are the longest suffix of the
others with which both caps hold. Where no exchanges satisfy the caps, one is
kept: the protected one or else the newest. -/
def Evicts (protectedId : Option Nat) (store after : Store) : Prop :=
  after = store.restrict after.ids ∧
  ((∃ suffix, suffix <:+ others (isProtected protectedId) store.ids ∧
      after.ids = keeping (isProtected protectedId) suffix store.ids ∧
      after.ids ≠ [] ∧ store.Fits after.ids ∧
      ∀ longer, longer <:+ others (isProtected protectedId) store.ids →
        store.Fits (keeping (isProtected protectedId) longer store.ids) → longer <:+ suffix) ∨
    ((∀ suffix, suffix <:+ others (isProtected protectedId) store.ids →
        keeping (isProtected protectedId) suffix store.ids ≠ [] →
        ¬ store.Fits (keeping (isProtected protectedId) suffix store.ids)) ∧
      ((∃ id ∈ store.ids, protectedId = some id ∧ after.ids = [id]) ∨
        (∀ id ∈ store.ids, protectedId ≠ some id) ∧ after.ids = store.ids.getLast?.toList)))

theorem length_le_one {ids : List Nat} (nodup : ids.Nodup) {id : Nat}
    (only : ∀ other ∈ ids, other = id) : ids.length ≤ 1 :=
  (List.Nodup.subperm nodup fun other member =>
    List.mem_singleton.mpr (only other member)).length_le

theorem isProtected_iff {protectedId : Option Nat} {id : Nat} :
    isProtected protectedId id = true ↔ protectedId = some id := decide_eq_true_iff

theorem protected_only (protectedId : Option Nat) (ids : List Nat) :
    ∃ id, ∀ other ∈ keeping (isProtected protectedId) [] ids, other = id := by
  cases protectedId with
  | none => exact ⟨0, fun other member => by simp [Eviction.mem_keeping, isProtected] at member⟩
  | some id =>
    refine ⟨id, fun other member => ?_⟩
    have kept := (Eviction.mem_keeping.mp member).2
    simpa [isProtected, eq_comm] using kept

theorem Store.stops_iff {store : Store} {ids : List Nat} :
    store.stops ids = true ↔ store.Fits ids ∨ ids.length ≤ 1 := by
  have cap : 1 ≤ maxExchanges := by decide
  rw [stops, Bool.and_eq_true, decide_eq_true_iff, decide_eq_true_iff, Fits]
  omega

/-- Where the caps do not hold, the single exchange left is the protected one or
else the newest. -/
theorem keeping_single {protectedId : Option Nat} {ids suffix : List Nat} {id : Nat}
    (below : suffix <:+ others (isProtected protectedId) ids)
    (single : keeping (isProtected protectedId) suffix ids = [id]) :
    (∃ id' ∈ ids, protectedId = some id' ∧ [id] = [id']) ∨
      (∀ id' ∈ ids, protectedId ≠ some id') ∧ [id] = ids.getLast?.toList := by
  by_cases held : ∃ id' ∈ ids, protectedId = some id'
  · obtain ⟨id', member, chosen⟩ := held
    have kept := Eviction.mem_keeping.mpr
      (⟨member, .inl (isProtected_iff.mpr chosen)⟩ : id' ∈ ids ∧ (_ ∨ id' ∈ suffix))
    rw [single] at kept
    exact .inl ⟨id', member, chosen, by rw [List.mem_singleton.mp kept]⟩
  · push Not at held
    have all : others (isProtected protectedId) ids = ids :=
      List.filter_eq_self.mpr fun id' member => by
        simpa [isProtected] using held id' member
    have kept := Eviction.mem_keeping.mp (single ▸ List.mem_singleton_self id)
    have chosen : id ∈ suffix := kept.2.resolve_left fun h =>
      held id kept.1 (isProtected_iff.mp h)
    rw [all] at below
    obtain ⟨older, rfl⟩ := below
    obtain ⟨init, newest, rfl⟩ := (List.eq_nil_or_concat' suffix).resolve_left
      (List.ne_nil_of_mem chosen)
    have last := Eviction.mem_keeping.mpr
      (⟨by simp, .inr (by simp)⟩ : newest ∈ older ++ (init ++ [newest]) ∧
        (isProtected protectedId newest = true ∨ newest ∈ init ++ [newest]))
    rw [single] at last
    exact .inr ⟨held, by simp [List.mem_singleton.mp last]⟩

theorem evicts_evict (protectedId : Option Nat) {store : Store} (wf : store.WellFormed)
    (some_id : store.ids ≠ []) : Evicts protectedId store (evict protectedId store) := by
  rw [evict_eq protectedId wf]
  have one : ∀ few : List Nat, few.length ≤ 1 → store.stops few = true :=
    fun few short => Store.stops_iff.mpr (.inr short)
  have kept := Eviction.dropOldest_ne_nil (isProtected protectedId) one some_id
  obtain ⟨suffix, below, left, fit, maximal⟩ :=
    Eviction.dropOldest_spec (isProtected protectedId) store.stops wf.nodup
  rw [left] at kept ⊢
  have stopped : store.stops (keeping (isProtected protectedId) suffix store.ids) = true := by
    rcases fit with fit | rfl
    · exact fit
    · obtain ⟨id, only⟩ := protected_only protectedId store.ids
      exact one _ (length_le_one (wf.nodup.filter _) only)
  -- a suffix with which the caps hold is not longer
  have longest : ∀ longer, longer <:+ others (isProtected protectedId) store.ids →
      store.Fits (keeping (isProtected protectedId) longer store.ids) → longer <:+ suffix := by
    intro longer within fits
    rcases List.suffix_or_suffix_of_suffix within below with shorter | longer'
    · exact shorter
    · by_contra differ
      have full := maximal longer longer' within fun same => differ (same ▸ List.suffix_rfl)
      rw [Store.stops_iff.mpr (.inl fits)] at full
      cases full
  refine ⟨rfl, ?_⟩
  by_cases fits : store.Fits (keeping (isProtected protectedId) suffix store.ids)
  · exact .inl ⟨suffix, below, rfl, kept, fits, longest⟩
  · have short := (Store.stops_iff.mp stopped).resolve_left fits
    obtain ⟨id, single⟩ := List.length_eq_one_iff.mp
      (le_antisymm short (List.length_pos_of_ne_nil kept))
    refine .inr ⟨fun other within nonempty fits' => fits ?_, ?_⟩
    · have sub := Eviction.keeping_sublist (isProtected protectedId) store.ids
        (longest other within fits').subset
      rw [single, List.sublist_singleton] at sub
      rwa [single, ← sub.resolve_left nonempty]
    · rw [Store.ids_restrict, single]
      exact keeping_single below single

end Protospy.Ui
