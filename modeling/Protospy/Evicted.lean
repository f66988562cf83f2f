import Protospy.Proxy.Outcomes
import Protospy.Ui.Interleaving

/-!
# Exchanges that were evicted

The reducer keeps no record of what was evicted: an evicted exchange is to it
like one that it has not seen.
-/

namespace Protospy.Ui

theorem evict_ids_sublist (protectedId : Option Nat) {store : Store} (wf : store.WellFormed) :
    (evict protectedId store).ids.Sublist store.ids := by
  rw [evict_eq protectedId wf]
  exact Eviction.dropOldest_sublist _ _ _

theorem ids_sublist_apply (store : Store) (msg : Wire.EventMessage) :
    store.ids.Sublist (apply store msg).ids := by
  rw [apply]
  dsimp only
  split
  · exact List.sublist_append_left _ _
  · exact .refl _

/-- To a message of an unseen exchange the store gives a new one. -/
theorem apply_unseen {store : Store} {msg : Wire.EventMessage} {id : Nat}
    (about : msg.exchange.exchangeId = id) (unseen : store.exchanges id = none) :
    (apply store msg).ids = store.ids ++ [id] ∧
      (apply store msg).exchanges id =
        some ((Exchange.fresh id msg.exchange.timestamp).update msg.direction msg.event) := by
  subst about
  constructor <;> simp [apply, unseen]

namespace StoreState

theorem run_concat (before : List StoreAction) (action : StoreAction) :
    run (before ++ [action]) = (run before).step action := List.foldl_append

theorem run_append (before after : List StoreAction) :
    run (before ++ after) = after.foldl step (run before) := List.foldl_append

theorem step_absent {s : StoreState} (wf : s.store.WellFormed) {id : Nat}
    (gone : id ∉ s.store.ids) {action : StoreAction}
    (quiet : ∀ msg, action = .applyEvent msg → msg.exchange.exchangeId ≠ id) :
    id ∉ (s.step action).store.ids := by
  cases action with
  | applyEvent msg =>
    intro member
    have other := quiet msg rfl
    have kept := (evict_ids_sublist s.selectedId (wf.apply msg)).subset member
    rw [apply_eq_put, Store.put] at kept
    split at kept
    · exact (List.mem_append.mp kept).elim gone fun new =>
        other (List.mem_singleton.mp new).symm
    · exact gone kept
  | setSelectedId selected => exact gone
  | setBodyDecodedBytes other direction decodedBytes =>
    rcases setBodyDecodedBytes_cases s.store other direction decodedBytes with
      same | ⟨ex, body, seen, -, changed⟩
    · rwa [step, same]
    · rw [step, changed]
      exact (Store.ids_put_of_seen seen _).symm ▸ gone

theorem run_absent {before : List StoreAction} {id : Nat} (gone : id ∉ (run before).store.ids)
    {after : List StoreAction}
    (quiet : ∀ msg, StoreAction.applyEvent msg ∈ after → msg.exchange.exchangeId ≠ id) :
    id ∉ (run (before ++ after)).store.ids := by
  induction after using List.reverseRecOn with
  | nil => rwa [List.append_nil]
  | append_singleton after action ih =>
    have earlier := ih fun msg member => quiet msg (List.mem_append_left _ member)
    rw [← List.append_assoc, run_append]
    refine step_absent (invariant_run _).wellFormed earlier fun msg same => quiet msg ?_
    simp [same]

end StoreState

/-- The event evicts the exchange. -/
def EvictedBy (before : List StoreAction) (msg : Wire.EventMessage) (id : Nat) : Prop :=
  id ∈ (apply (StoreState.run before).store msg).ids ∧
    id ∉ (StoreState.run (before ++ [.applyEvent msg])).store.ids

/-- An evicted exchange stays out of the store until a message of it is applied.
That message makes a new exchange of itself alone, as the newest one. -/
theorem evicted_until_message (before : List StoreAction) (msg : Wire.EventMessage) (id : Nat)
    (evicted : EvictedBy before msg id) (after : List StoreAction)
    (quiet : ∀ later, StoreAction.applyEvent later ∈ after → later.exchange.exchangeId ≠ id) :
    let s := StoreState.run (before ++ [.applyEvent msg] ++ after)
    id ∉ s.store.ids ∧ s.store.exchanges id = none ∧
    ∀ late : Wire.EventMessage, late.exchange.exchangeId = id →
      (apply s.store late).ids = s.store.ids ++ [id] ∧
      (apply s.store late).exchanges id =
        some ((Exchange.fresh id late.exchange.timestamp).update late.direction late.event) := by
  intro s
  have gone : id ∉ s.store.ids := StoreState.run_absent evicted.2 quiet
  have absent := (StoreState.invariant_run _).wellFormed.exchanges_eq_none gone
  exact ⟨gone, absent, fun late about => apply_unseen about absent⟩

/-! ## A response that comes late -/

section Late

open PollStream

/-- The upstream answers without a body. -/
def emptyAnswerEnv : ExchangeEnv (Script BodyStreamItem) where
  client _ _ := .ok ⟨⟨.ok, .http11, HeaderMap.new⟩, ⟨[]⟩⟩
  elapsedMs := 5
  request := .quick true
  response := .quick true

/-- An exchange that publishes these two messages. -/
theorem process_emptyAnswer (id : Nat) :
    ((Protospy.Exchange.process ⟨localService, true, localConn⟩ emptyAnswerEnv
        emptyGet).published.map fun event => event.serialize.toOption) =
      [some (requestOf id).event, some (responseOf id).event] := by
  have events : ((Protospy.Exchange.process ⟨localService, true, localConn⟩ emptyAnswerEnv
      emptyGet).published.map fun event => event.serialize.toOption) =
        [some (requestOf 0).event, some (responseOf 0).event] := by decide +kernel
  exact events

/-- No body in the store has octets. -/
def Store.Light (store : Store) : Prop := ∀ id, store.bytesOf id = 0

theorem Store.Light.payload {store : Store} (light : store.Light) (ids : List Nat) :
    store.payload ids = 0 := by
  induction ids with
  | nil => rfl
  | cons id ids ih => rw [Store.payload_cons, light id, ih]

theorem Store.Light.put {store : Store} (light : store.Light) {id : Nat} {ex : Exchange}
    (octets : exchangeBytes ex = 0) : (store.put id ex).Light := by
  intro other
  by_cases same : other = id
  · subst same
    simpa [Store.bytesOf, Store.put] using octets
  · simpa [Store.bytesOf, Store.put, same] using light other

/-- A message without a body keeps the store light. -/
theorem Store.Light.apply {store : Store} (light : store.Light) {msg : Wire.EventMessage}
    (empty : ∀ ex : Exchange,
      exchangeBytes (ex.update msg.direction msg.event) ≤ exchangeBytes ex) :
    (Ui.apply store msg).Light := by
  refine Store.Light.put light (Nat.eq_zero_of_le_zero ((empty _).trans ?_))
  have before := light msg.exchange.exchangeId
  rw [Store.bytesOf] at before
  cases seen : store.exchanges msg.exchange.exchangeId with
  | none => exact le_rfl
  | some ex =>
    rw [seen] at before
    exact before.le

theorem requestOf_light (id : Nat) (ex : Exchange) :
    exchangeBytes (ex.update (requestOf id).direction (requestOf id).event) ≤ exchangeBytes ex :=
  Nat.add_le_add_right (Nat.zero_le _) _

theorem responseOf_light (id : Nat) (ex : Exchange) :
    exchangeBytes (ex.update (responseOf id).direction (responseOf id).event) ≤ exchangeBytes ex :=
  Nat.add_le_add_left (Nat.zero_le _) _

theorem evict_light {store : Store} (wf : store.WellFormed) (light : store.Light)
    (few : store.ids.length ≤ maxExchanges) : evict none store = store := by
  have stops : store.stops store.ids = true :=
    Store.stops_iff.mpr (.inl ⟨few, by simp [light.payload]⟩)
  rw [evict_eq none wf]
  exact (congrArg store.restrict (Eviction.dropOldest_of_fits stops)).trans wf.restrict_ids

/-- One exchange too many evicts the oldest one. -/
theorem evict_light_oldest {store : Store} (wf : store.WellFormed) (light : store.Light)
    {id : Nat} {rest : List Nat} (ids : store.ids = id :: rest)
    (full : rest.length = maxExchanges) : evict none store = store.restrict rest := by
  have too_many : store.stops (id :: rest) = false := by
    rw [Bool.eq_false_iff, ne_eq, Store.stops_iff, Store.Fits, List.length_cons, full]
    simp [maxExchanges]
  have stops : store.stops rest = true :=
    Store.stops_iff.mpr (.inl ⟨full.le, by simp [light.payload]⟩)
  have oldest : (id :: rest).find? (fun other => !isProtected none other) = some id :=
    List.find?_cons_of_pos rfl
  rw [evict_eq none wf, ids]
  refine congrArg store.restrict ((Eviction.dropOldest_of_some too_many oldest).trans ?_)
  rw [List.eraseP_cons_of_pos rfl]
  exact Eviction.dropOldest_of_fits stops

/-- Nothing is selected and no body has octets. -/
structure StoreState.Idle (s : StoreState) (ids : List Nat) : Prop where
  wellFormed : s.store.WellFormed
  light : s.store.Light
  unselected : s.selectedId = none
  ids_eq : s.store.ids = ids

namespace StoreState.Idle

variable {s : StoreState} {ids : List Nat}

/-- A new exchange is added as long as there is room. -/
theorem add (idle : s.Idle ids) {msg : Wire.EventMessage} (unseen : msg.exchange.exchangeId ∉ ids)
    (empty : ∀ ex : Exchange, exchangeBytes (ex.update msg.direction msg.event) ≤ exchangeBytes ex)
    (room : ids.length < maxExchanges) :
    (s.step (.applyEvent msg)).Idle (ids ++ [msg.exchange.exchangeId]) ∧
      (s.step (.applyEvent msg)).store = apply s.store msg := by
  obtain ⟨wf, light, unselected, rfl⟩ := idle
  have added : (apply s.store msg).ids = s.store.ids ++ [msg.exchange.exchangeId] := by
    simp [apply, wf.exchanges_eq_none unseen]
  have same : (s.step (.applyEvent msg)).store = apply s.store msg := by
    rw [step, unselected]
    refine evict_light (wf.apply msg) (light.apply empty) ?_
    rw [added, List.length_append]
    exact room
  exact ⟨⟨same ▸ wf.apply msg, same ▸ light.apply empty, unselected, same ▸ added⟩, same⟩

/-- Where there is none, the oldest exchange makes room. -/
theorem replace {oldest : Nat} (idle : s.Idle (oldest :: ids)) {msg : Wire.EventMessage}
    (unseen : msg.exchange.exchangeId ∉ oldest :: ids)
    (empty : ∀ ex : Exchange, exchangeBytes (ex.update msg.direction msg.event) ≤ exchangeBytes ex)
    (full : (oldest :: ids).length = maxExchanges) :
    (s.step (.applyEvent msg)).Idle (ids ++ [msg.exchange.exchangeId]) ∧
      (s.step (.applyEvent msg)).store =
        (apply s.store msg).restrict (ids ++ [msg.exchange.exchangeId]) := by
  obtain ⟨wf, light, unselected, listed⟩ := idle
  have added : (apply s.store msg).ids = oldest :: (ids ++ [msg.exchange.exchangeId]) := by
    simp [apply, wf.exchanges_eq_none (listed ▸ unseen), listed]
  have next := light.apply empty
  have same : (s.step (.applyEvent msg)).store =
      (apply s.store msg).restrict (ids ++ [msg.exchange.exchangeId]) := by
    rw [step, unselected]
    exact evict_light_oldest (wf.apply msg) next added (by simpa using full)
  have below : (ids ++ [msg.exchange.exchangeId]).Sublist (apply s.store msg).ids := by
    rw [added]
    exact List.sublist_cons_self _ _
  refine ⟨⟨same ▸ (wf.apply msg).restrict below, fun id => ?_, unselected, same ▸ rfl⟩, same⟩
  rw [same, Store.bytesOf, Store.restrict]
  by_cases kept : id ∈ ids ++ [msg.exchange.exchangeId]
  · simpa [Store.bytesOf, kept] using next id
  · simp [kept]

end StoreState.Idle

/-- The requests of the first exchanges of a process. -/
def crowd (n : Nat) : List StoreAction :=
  (List.range' 1 n).map fun id => .applyEvent (requestOf id)

theorem crowd_succ (n : Nat) : crowd (n + 1) = crowd n ++ [.applyEvent (requestOf (1 + n))] := by
  rw [crowd, List.range'_1_concat, List.map_append]
  rfl

theorem run_crowd {n : Nat} (room : n ≤ maxExchanges) :
    (StoreState.run (crowd n)).Idle (List.range' 1 n) := by
  induction n with
  | zero => exact ⟨.empty, fun id => rfl, rfl, rfl⟩
  | succ n ih =>
    have before := ih (Nat.le_of_succ_le room)
    have unseen : (requestOf (1 + n)).exchange.exchangeId ∉ List.range' 1 n := by
      simp [requestOf]
    have next := (before.add unseen (requestOf_light (1 + n))
      (by rw [List.length_range']; exact room)).1
    rw [crowd_succ, StoreState.run_append, List.range'_1_concat]
    exact next

theorem run_crowd_room : (StoreState.run (crowd 1024)).Idle (List.range' 1 1024) :=
  run_crowd (Nat.le_refl maxExchanges)

/-- One request more evicts the first exchange. -/
theorem run_crowd_full : (StoreState.run (crowd 1025)).Idle (List.range' 2 1024) := by
  have before := run_crowd_room
  have first : List.range' 1 1024 = 1 :: List.range' 2 1023 := List.range'_succ
  have last : List.range' 2 1024 = List.range' 2 1023 ++ [1025] := List.range'_1_concat
  rw [first] at before
  have unseen : (requestOf 1025).exchange.exchangeId ∉ 1 :: List.range' 2 1023 := by
    simp [requestOf]
  have next := (before.replace unseen (requestOf_light 1025)
    (by rw [List.length_cons, List.length_range']; rfl)).1
  rw [crowd_succ, StoreState.run_append, last]
  exact next

theorem evictedBy_crowd : EvictedBy (crowd 1024) (requestOf 1025) 1 := by
  constructor
  · have listed : 1 ∈ (StoreState.run (crowd 1024)).store.ids := by
      rw [run_crowd_room.ids_eq]
      exact List.mem_range'_1.mpr (by decide)
    exact (ids_sublist_apply _ _).subset listed
  · have more : crowd 1024 ++ [.applyEvent (requestOf 1025)] = crowd 1025 := (crowd_succ 1024).symm
    rw [more, run_crowd_full.ids_eq]
    exact fun member => absurd (List.mem_range'_1.mp member).1 (by decide)

/-- The requests of 1025 exchanges and then the response to the first. -/
def lateMessages : List Wire.EventMessage := (List.range' 1 1025).map requestOf ++ [responseOf 1]

theorem lateMessages_run : lateMessages.map StoreAction.applyEvent =
    crowd 1025 ++ [.applyEvent (responseOf 1)] := by
  rw [lateMessages, List.map_append, List.map_map]
  rfl

/-- The messages of each exchange come in the order in which it publishes them. -/
theorem lateMessages_inOrder (id : Nat) :
    lateMessages.filter (fun msg => msg.exchange.exchangeId = id) <+:
      [requestOf id, responseOf id] := by
  have requests : ((List.range' 1 1025).map requestOf).filter
      (fun msg => msg.exchange.exchangeId = id) =
        if id ∈ List.range' 1 1025 then [requestOf id] else [] := by
    rw [List.filter_map]
    change ((List.range' 1 1025).filter fun other => other = id).map requestOf = _
    rw [List.filter_eq]
    split_ifs with known
    · rw [List.count_eq_one_of_mem List.nodup_range' known]
      rfl
    · rw [List.count_eq_zero_of_not_mem known]
      rfl
  rw [lateMessages, List.filter_append, requests]
  by_cases first : id = 1
  · subst first
    rw [if_pos (List.mem_range'_1.mpr (by decide))]
    exact List.prefix_refl _
  · have other : ([responseOf 1].filter fun msg => msg.exchange.exchangeId = id) = [] := by
      simp [responseOf, Ne.symm first]
    rw [other, List.append_nil]
    split_ifs
    · exact ⟨[responseOf id], rfl⟩
    · exact List.nil_prefix

theorem evicted_until_message_crowd :
    let s := StoreState.run (crowd 1024 ++ [.applyEvent (requestOf 1025)] ++
      [.setSelectedId (some 7)])
    1 ∉ s.store.ids ∧ s.store.exchanges 1 = none ∧
    ∀ late : Wire.EventMessage, late.exchange.exchangeId = 1 →
      (apply s.store late).ids = s.store.ids ++ [1] ∧
      (apply s.store late).exchanges 1 =
        some ((Exchange.fresh 1 late.exchange.timestamp).update late.direction late.event) :=
  evicted_until_message (crowd 1024) (requestOf 1025) 1 evictedBy_crowd [.setSelectedId (some 7)]
    (by simp)

/-- The response to an evicted exchange makes an exchange without a request, for
which another one is evicted. -/
theorem late_response_returns :
    (∀ id, ((Protospy.Exchange.process ⟨localService, true, localConn⟩ emptyAnswerEnv
        emptyGet).published.map fun event => event.serialize.toOption) =
      [some (requestOf id).event, some (responseOf id).event]) ∧
    (∀ id, lateMessages.filter (fun msg => msg.exchange.exchangeId = id) <+:
      [requestOf id, responseOf id]) ∧
    EvictedBy (crowd 1024) (requestOf 1025) 1 ∧
    lateMessages.map StoreAction.applyEvent =
      crowd 1024 ++ [.applyEvent (requestOf 1025)] ++ [.applyEvent (responseOf 1)] ∧
    1 ∈ (StoreState.run (lateMessages.map .applyEvent)).store.ids ∧
    ((StoreState.run (lateMessages.map .applyEvent)).store.exchanges 1).map
      (fun ex => (ex.method, ex.status)) = some (none, some "200") ∧
    2 ∈ (StoreState.run (crowd 1025)).store.ids ∧
    2 ∉ (StoreState.run (lateMessages.map .applyEvent)).store.ids := by
  have before := run_crowd_full
  have second : List.range' 2 1024 = 2 :: List.range' 3 1023 := List.range'_succ
  rw [second] at before
  have unseen : (responseOf 1).exchange.exchangeId ∉ 2 :: List.range' 3 1023 := by
    simp [responseOf]
  obtain ⟨last, same⟩ := before.replace unseen (responseOf_light 1)
    (by rw [List.length_cons, List.length_range']; rfl)
  have more : crowd 1024 ++ [.applyEvent (requestOf 1025)] = crowd 1025 := (crowd_succ 1024).symm
  have order : lateMessages.map StoreAction.applyEvent =
      crowd 1024 ++ [.applyEvent (requestOf 1025)] ++ [.applyEvent (responseOf 1)] := by
    rw [lateMessages_run, more]
  refine ⟨process_emptyAnswer, lateMessages_inOrder, evictedBy_crowd, order, ?_, ?_, ?_, ?_⟩
  · rw [lateMessages_run, StoreState.run_concat, last.ids_eq]
    exact List.mem_append_right _ List.mem_cons_self
  · have absent : (StoreState.run (crowd 1025)).store.exchanges 1 = none :=
      before.wellFormed.exchanges_eq_none (before.ids_eq ▸ unseen)
    have about : (responseOf 1).exchange.exchangeId = 1 := rfl
    have fresh := (apply_unseen about absent).2
    have kept : 1 ∈ List.range' 3 1023 ++ [(responseOf 1).exchange.exchangeId] :=
      List.mem_append_right _ List.mem_cons_self
    rw [lateMessages_run, StoreState.run_concat, same, Store.restrict]
    dsimp only
    rw [if_pos kept, fresh]
    rfl
  · rw [before.ids_eq]
    exact List.mem_cons_self
  · rw [lateMessages_run, StoreState.run_concat, last.ids_eq]
    simp [responseOf]

end Late

end Protospy.Ui
