import Protospy.Ui.Eviction

/-!
# The store under its actions (`state/store.ts`)

An event is applied and then the store is cut down to its caps, with the selected
exchange protected.
-/

namespace Protospy.Ui

structure StoreState where
  store : Store
  selectedId : Option Nat

def StoreState.initial : StoreState := ⟨.empty, none⟩

inductive StoreAction where
  | applyEvent (msg : Wire.EventMessage)
  | setSelectedId (id : Option Nat)
  | setBodyDecodedBytes (exchangeId : Nat) (direction : Direction) (decodedBytes : Nat)

def Exchange.setBody (ex : Exchange) (direction : Direction) (body : BodyState) : Exchange :=
  match direction with
  | .request => { ex with requestBody := some body }
  | .response => { ex with responseBody := some body }

/-- Nothing changes where there is no such body or it has the count already. -/
def Store.setBodyDecodedBytes (store : Store) (exchangeId : Nat) (direction : Direction)
    (decodedBytes : Nat) : Store :=
  match store.exchanges exchangeId with
  | none => store
  | some ex => match ex.body direction with
    | none => store
    | some body =>
      if body.decodedBytes = some decodedBytes then store
      else
        let updatedBody := { body with decodedBytes := some decodedBytes }
        ⟨Function.update store.exchanges exchangeId (some (ex.setBody direction updatedBody)),
          store.ids⟩

def StoreState.step (s : StoreState) : StoreAction → StoreState
  | .applyEvent msg => { s with store := evict s.selectedId (apply s.store msg) }
  | .setSelectedId id => { s with selectedId := id }
  | .setBodyDecodedBytes exchangeId direction decodedBytes =>
    { s with store := s.store.setBodyDecodedBytes exchangeId direction decodedBytes }

def StoreState.run (actions : List StoreAction) : StoreState :=
  actions.foldl StoreState.step .initial

theorem Exchange.update_id (ex : Exchange) (direction : Direction) (event : Wire.Event) :
    (ex.update direction event).id = ex.id := by
  cases event with
  | bodyData body => cases direction <;> rfl
  | _ => rfl

theorem Exchange.setBody_id (ex : Exchange) (direction : Direction) (body : BodyState) :
    (ex.setBody direction body).id = ex.id := by
  cases direction <;> rfl

/-! ## Well-formed stores -/

/-- The store with an exchange under an id that may be new. -/
def Store.put (store : Store) (id : Nat) (ex : Exchange) : Store :=
  ⟨Function.update store.exchanges id (some ex),
    if (store.exchanges id).isNone then store.ids ++ [id] else store.ids⟩

theorem Store.ids_put_of_seen {store : Store} {id : Nat} {ex : Exchange}
    (seen : store.exchanges id = some ex) (ex' : Exchange) :
    (store.put id ex').ids = store.ids := by simp [Store.put, seen]

theorem Store.WellFormed.put {store : Store} (wf : store.WellFormed) {id : Nat} {ex : Exchange}
    (key : ex.id = id) : (store.put id ex).WellFormed := by
  refine ⟨?_, fun other => ?_, fun other ex' h => ?_⟩
  · cases seen : store.exchanges id with
    | none =>
      have unlisted : id ∉ store.ids := by simp [wf.mem_ids, seen]
      simpa [Store.put, seen] using wf.nodup.concat unlisted
    | some prev => simpa [Store.put, seen] using wf.nodup
  · by_cases same : other = id
    · subst same
      cases seen : store.exchanges other with
      | none => simp [Store.put, seen]
      | some prev => simp [Store.put, seen, wf.mem_ids]
    · cases seen : store.exchanges id <;>
        simp [Store.put, seen, same, wf.mem_ids]
  · by_cases same : other = id
    · subst same
      obtain rfl : ex = ex' := by simpa [Store.put] using h
      exact key
    · exact wf.keyed other ex' (by simpa [Store.put, same] using h)

theorem apply_self (store : Store) (msg : Wire.EventMessage) :
    (apply store msg).exchanges msg.exchange.exchangeId =
      some (((store.exchanges msg.exchange.exchangeId).getD
        (.fresh msg.exchange.exchangeId msg.exchange.timestamp)).update msg.direction msg.event) :=
  Function.update_self ..

theorem apply_of_ne (store : Store) {msg : Wire.EventMessage} {id : Nat}
    (other : id ≠ msg.exchange.exchangeId) :
    (apply store msg).exchanges id = store.exchanges id :=
  Function.update_of_ne other ..

theorem apply_eq_put (store : Store) (msg : Wire.EventMessage) :
    apply store msg = store.put msg.exchange.exchangeId
      (((store.exchanges msg.exchange.exchangeId).getD
        (.fresh msg.exchange.exchangeId msg.exchange.timestamp)).update msg.direction msg.event) :=
  rfl

theorem Store.WellFormed.apply {store : Store} (wf : store.WellFormed)
    (msg : Wire.EventMessage) : (apply store msg).WellFormed := by
  rw [apply_eq_put]
  refine wf.put ((Exchange.update_id _ _ _).trans ?_)
  cases seen : store.exchanges msg.exchange.exchangeId with
  | none => rfl
  | some ex => exact wf.keyed _ _ seen

theorem Store.WellFormed.foldl_apply {store : Store} (wf : store.WellFormed)
    (msgs : List Wire.EventMessage) : (msgs.foldl Ui.apply store).WellFormed := by
  induction msgs generalizing store with
  | nil => exact wf
  | cons msg msgs ih => exact ih (wf.apply msg)

theorem apply_ids_ne_nil {store : Store} (wf : store.WellFormed) (msg : Wire.EventMessage) :
    (apply store msg).ids ≠ [] := by
  refine List.ne_nil_of_mem (a := msg.exchange.exchangeId) (((wf.apply msg).mem_ids _).mpr ?_)
  simp [Ui.apply]

theorem exchangeBytes_setBody (ex : Exchange) (direction : Direction) {body : BodyState}
    (found : ex.body direction = some body) (decodedBytes : Option Nat) :
    exchangeBytes (ex.setBody direction { body with decodedBytes := decodedBytes }) =
      exchangeBytes ex := by
  cases direction <;> simp only [Exchange.body] at found <;>
    simp [exchangeBytes, Exchange.setBody, found]

/-- Recording a decoded size changes nothing or one body that is in the store. -/
theorem setBodyDecodedBytes_cases (store : Store) (id : Nat) (direction : Direction)
    (decodedBytes : Nat) :
    store.setBodyDecodedBytes id direction decodedBytes = store ∨
      ∃ ex body, store.exchanges id = some ex ∧ ex.body direction = some body ∧
        store.setBodyDecodedBytes id direction decodedBytes = store.put id
          (ex.setBody direction { body with decodedBytes := some decodedBytes }) := by
  cases seen : store.exchanges id with
  | none => exact .inl (by simp only [Store.setBodyDecodedBytes, seen])
  | some ex =>
    cases found : ex.body direction with
    | none => exact .inl (by simp only [Store.setBodyDecodedBytes, seen, found])
    | some body =>
      by_cases known : body.decodedBytes = some decodedBytes
      · exact .inl (by simp only [Store.setBodyDecodedBytes, seen, found, known, if_true])
      · refine .inr ⟨ex, body, rfl, found, ?_⟩
        simp [Store.setBodyDecodedBytes, Store.put, seen, found, known]

theorem Store.payload_put (store : Store) {id : Nat} {ex ex' : Exchange}
    (seen : store.exchanges id = some ex) (octets : exchangeBytes ex' = exchangeBytes ex)
    (ids : List Nat) : (store.put id ex').payload ids = store.payload ids := by
  have each : (store.put id ex').bytesOf = store.bytesOf := by
    funext other
    by_cases same : other = id
    · subst same
      simp [Store.bytesOf, Store.put, seen, octets]
    · simp [Store.bytesOf, Store.put, same]
  rw [Store.payload, Store.payload, each]

/-! ## What the caps give -/

/-- Both caps hold, or a single exchange is left. -/
def Store.Bounded (store : Store) : Prop :=
  store.ids.length ≤ maxExchanges ∧
    (store.payload store.ids ≤ maxPayloadBytes ∨ store.ids.length = 1)

/-- What follows a member of the second part is in the second part. -/
theorem mem_of_sublist_pair {before after : List Nat} {older newer : Nat}
    (distinct : (before ++ after).Nodup) (order : [older, newer].Sublist (before ++ after))
    (late : older ∈ after) : newer ∈ after := by
  obtain ⟨first, second, parts, early, later⟩ := List.sublist_append_iff.mp order
  cases first with
  | nil => exact later.subset (by rw [← List.nil_append second, ← parts]; simp)
  | cons id first =>
    obtain rfl : older = id := (List.cons.inj parts).1
    exact absurd late (List.disjoint_of_nodup_append distinct (early.subset List.mem_cons_self))

namespace Evicts

variable {protectedId : Option Nat} {store after : Store}

theorem bounded (h : Evicts protectedId store after) (some_id : store.ids ≠ []) :
    after.Bounded := by
  obtain ⟨restricted, ⟨suffix, -, -, -, fits, -⟩ | ⟨-, single⟩⟩ := h
  · have payload := store.payload_restrict after.ids fun id member => member
    rw [← restricted] at payload
    exact ⟨fits.1, .inl (payload ▸ fits.2)⟩
  · have one : after.ids.length = 1 := by
      rcases single with ⟨id, -, -, only⟩ | ⟨-, newest⟩
      · rw [only]
        rfl
      · rw [newest, List.getLast?_eq_some_getLast some_id]
        rfl
    exact ⟨one.trans_le (by decide), .inr one⟩

theorem selected_kept (h : Evicts protectedId store after) {id : Nat}
    (selected : protectedId = some id) (member : id ∈ store.ids) : id ∈ after.ids := by
  obtain ⟨-, ⟨suffix, -, kept, -, -, -⟩ | ⟨-, ⟨id', -, chosen, only⟩ | ⟨other, -⟩⟩⟩ := h
  · rw [kept, Eviction.mem_keeping]
    exact ⟨member, .inl (isProtected_iff.mpr selected)⟩
  · obtain rfl : id' = id := by simpa [selected] using chosen.symm
    simp [only]
  · exact absurd selected (other id member)

/-- No newer exchange goes before an older one that is not protected. -/
theorem newer_kept (h : Evicts protectedId store after) (wf : store.WellFormed) {older newer : Nat}
    (order : [older, newer].Sublist store.ids) (evictable : protectedId ≠ some older)
    (kept : older ∈ after.ids) : newer ∈ after.ids := by
  have free : isProtected protectedId older = false := by simpa [isProtected] using evictable
  obtain ⟨-, ⟨suffix, below, left, -, -, -⟩ | ⟨-, ⟨id, -, chosen, only⟩ | ⟨-, newest⟩⟩⟩ := h
  · rw [left, Eviction.mem_keeping] at kept ⊢
    refine ⟨order.subset (by simp), ?_⟩
    by_cases held : isProtected protectedId newer = true
    · exact .inl held
    · have among : [older, newer].Sublist (Eviction.others (isProtected protectedId) store.ids) := by
        have both := order.filter fun id => !isProtected protectedId id
        simpa [Eviction.others, free, held] using both
      obtain ⟨before, split⟩ := below
      have distinct : (before ++ suffix).Nodup := split ▸ wf.nodup.filter _
      rw [← split] at among
      exact .inr (mem_of_sublist_pair distinct among (by simpa [free] using kept.2))
  · obtain rfl : older = id := by simpa [only] using kept
    exact absurd chosen evictable
  · obtain ⟨init, last, split⟩ := (List.eq_nil_or_concat' store.ids).resolve_left
      (List.ne_nil_of_mem (order.subset List.mem_cons_self))
    have distinct := wf.nodup
    rw [split] at newest order distinct
    have single : after.ids = [last] := by simpa using newest
    rw [single] at kept ⊢
    exact mem_of_sublist_pair distinct order kept

end Evicts

/-- The selected exchange is never evicted. -/
theorem evicts_selected {selected : Option Nat} {store after : Store}
    (evicts : Evicts selected store after) (wf : store.WellFormed) {id : Nat}
    (held : selected = some id) : after.exchanges id = store.exchanges id := by
  rw [evicts.1]
  by_cases member : id ∈ store.ids
  · exact if_pos (evicts.selected_kept held member)
  · rw [Store.restrict]
    dsimp only
    rw [wf.exchanges_eq_none member, ite_self]

/-! ## Runs -/

namespace StoreState

/-- What every action preserves. -/
structure Invariant (s : StoreState) : Prop where
  wellFormed : s.store.WellFormed
  bounded : s.store.Bounded

theorem Invariant.initial : Invariant .initial :=
  ⟨Store.WellFormed.empty, by simp [Store.Bounded, StoreState.initial, Store.empty]⟩

theorem evicts_apply (s : StoreState) (wf : s.store.WellFormed) (msg : Wire.EventMessage) :
    Evicts s.selectedId (apply s.store msg) (s.step (.applyEvent msg)).store :=
  evicts_evict s.selectedId (wf.apply msg) (apply_ids_ne_nil wf msg)

theorem Invariant.step {s : StoreState} (inv : s.Invariant) (action : StoreAction) :
    (s.step action).Invariant := by
  cases action with
  | applyEvent msg =>
    have evicts := s.evicts_apply inv.wellFormed msg
    exact ⟨(inv.wellFormed.apply msg).evict _,
      evicts.bounded (apply_ids_ne_nil inv.wellFormed msg)⟩
  | setSelectedId id => exact ⟨inv.wellFormed, inv.bounded⟩
  | setBodyDecodedBytes id direction decodedBytes =>
    rcases setBodyDecodedBytes_cases s.store id direction decodedBytes with
      same | ⟨ex, body, seen, found, changed⟩
    · refine ⟨?_, ?_⟩ <;> rw [StoreState.step, same]
      · exact inv.wellFormed
      · exact inv.bounded
    · refine ⟨?_, ?_⟩ <;> rw [StoreState.step, changed]
      · exact inv.wellFormed.put ((ex.setBody_id _ _).trans (inv.wellFormed.keyed id ex seen))
      · have octets := exchangeBytes_setBody ex direction found (some decodedBytes)
        rw [Store.Bounded, Store.ids_put_of_seen seen, Store.payload_put s.store seen octets]
        exact inv.bounded

theorem invariant_run (actions : List StoreAction) : (run actions).Invariant := by
  induction actions using List.reverseRecOn with
  | nil => exact .initial
  | append_singleton actions action ih =>
    rw [run, List.foldl_append]
    exact ih.step action

end StoreState

/-- After every sequence of actions the store is well formed and within its caps;
an event then never evicts the selected exchange, and evicts no more than it must. -/
theorem store_run_evicts (actions : List StoreAction) :
    (StoreState.run actions).store.WellFormed ∧
    (StoreState.run actions).store.Bounded ∧
    ∀ msg, ((StoreState.run actions).step (.applyEvent msg)).store = evict
          (StoreState.run actions).selectedId (apply (StoreState.run actions).store msg) ∧
      Evicts (StoreState.run actions).selectedId (apply (StoreState.run actions).store msg)
        ((StoreState.run actions).step (.applyEvent msg)).store ∧
      (∀ id ∈ (apply (StoreState.run actions).store msg).ids,
        (StoreState.run actions).selectedId = some id →
        id ∈ ((StoreState.run actions).step (.applyEvent msg)).store.ids) ∧
      ∀ older newer, [older, newer].Sublist (apply (StoreState.run actions).store msg).ids →
        (StoreState.run actions).selectedId ≠ some older →
        older ∈ ((StoreState.run actions).step (.applyEvent msg)).store.ids →
        newer ∈ ((StoreState.run actions).step (.applyEvent msg)).store.ids := by
  obtain ⟨wf, bounded⟩ := StoreState.invariant_run actions
  refine ⟨wf, bounded, fun msg => ?_⟩
  have evicts := StoreState.evicts_apply _ wf msg
  exact ⟨rfl, evicts, fun id member selected => evicts.selected_kept selected member,
    fun older newer order evictable kept =>
      evicts.newer_kept (wf.apply msg) order evictable kept⟩

end Protospy.Ui
