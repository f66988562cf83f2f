import Protospy.Evicted

/-!
# A proxy that is restarted under an open UI

The event source reconnects to the new process and the store is kept. Exchange
ids are counted by each process for itself.
-/

namespace Protospy.Ui

def bareBody (body : BodyState) : BodyState := { body with decodedBytes := none }

/-- The exchange without the decoded sizes, which come from the UI itself. -/
def Exchange.bare (ex : Exchange) : Exchange := { ex with
  requestBody := ex.requestBody.map bareBody
  responseBody := ex.responseBody.map bareBody }

/-- `applied` holds for every stored exchange the messages applied to it since it
was created, with the process that each came from. -/
structure Session where
  state : StoreState
  process : Nat
  applied : Nat → List (Nat × Wire.EventMessage)

inductive SessionAction where
  | restart
  | act (action : StoreAction)

namespace Session

def initial : Session := ⟨.initial, 0, fun _ => []⟩

/-- The messages applied to the exchange of `msg`, with `msg`. -/
def record (s : Session) (msg : Wire.EventMessage) : List (Nat × Wire.EventMessage) :=
  (if (s.state.store.exchanges msg.exchange.exchangeId).isSome then
    s.applied msg.exchange.exchangeId else []) ++ [(s.process, msg)]

def step (s : Session) : SessionAction → Session
  | .restart => { s with process := s.process + 1 }
  | .act (.applyEvent msg) =>
    ⟨s.state.step (.applyEvent msg), s.process,
      Function.update s.applied msg.exchange.exchangeId (s.record msg)⟩
  | .act action => { s with state := s.state.step action }

def run (actions : List SessionAction) : Session := actions.foldl step initial

theorem run_concat (before : List SessionAction) (action : SessionAction) :
    run (before ++ [action]) = (run before).step action := List.foldl_append

/-- Every stored exchange is what the messages of one exchange of one process make. -/
def Unmixed (s : Session) : Prop :=
  ∀ id ex, s.state.store.exchanges id = some ex →
    ∃ process msgs, s.applied id = List.map (Prod.mk process) msgs ∧
      (∀ msg ∈ msgs, msg.exchange.exchangeId = id) ∧
      ((msgs.foldl apply .empty).exchanges id).map Exchange.bare = some ex.bare

/-- A message reaches a stored exchange with a message of another process, and the
exchange stays in the store. -/
def Collides (s : Session) : SessionAction → Prop
  | .act (.applyEvent msg) =>
    (s.state.store.exchanges msg.exchange.exchangeId).isSome = true ∧
      (∃ e ∈ s.applied msg.exchange.exchangeId, e.1 ≠ s.process) ∧
      msg.exchange.exchangeId ∈ (s.state.step (.applyEvent msg)).store.ids
  | _ => False

end Session

/-! ## The stored exchanges and their messages -/

theorem bareBody_appendBodyData (prev : Option BodyState)
    (event : Event.BodyData Wire.ProxyHeaders) :
    bareBody (appendBodyData prev event) = appendBodyData (prev.map bareBody) event := by
  cases prev with
  | none => rfl
  | some base =>
    obtain ⟨chunks, atEnd, wireBytes, decodedBytes, contentType, contentEncoding, sse⟩ := base
    cases sse <;> rfl

theorem bareBody_initialBodyToState (body : Event.InitialBody Wire.ProxyHeaders)
    (headers : Wire.ProxyHeaders) :
    (initialBodyToState body headers).map bareBody = initialBodyToState body headers := by
  cases body with
  | noBody => rfl
  | notRead => rfl
  | data body =>
    rw [initialBodyToState]
    split <;> rfl

/-- No message looks at the decoded sizes. -/
theorem bare_update (ex : Exchange) (direction : Direction) (event : Wire.Event) :
    (ex.update direction event).bare = ex.bare.update direction event := by
  cases event with
  | request method uri version headers body =>
    simp [Exchange.update, Exchange.bare, bareBody_initialBodyToState]
  | response status version headers elapsedMs body =>
    simp [Exchange.update, Exchange.bare, bareBody_initialBodyToState]
  | bodyData body =>
    cases direction <;> simp [Exchange.update, Exchange.bare, bareBody_appendBodyData]
  | error side message => rfl

theorem bare_setBody (ex : Exchange) (direction : Direction) {body : BodyState}
    (found : ex.body direction = some body) (decodedBytes : Option Nat) :
    (ex.setBody direction { body with decodedBytes := decodedBytes }).bare = ex.bare := by
  cases direction <;> simp only [Exchange.body] at found <;>
    simp [Exchange.setBody, Exchange.bare, found, bareBody]

/-- The exchange that some messages alone make. -/
def made (id : Nat) (msgs : List Wire.EventMessage) : Option Exchange :=
  (msgs.foldl apply .empty).exchanges id

theorem made_concat (msgs : List Wire.EventMessage) {msg : Wire.EventMessage} {id : Nat}
    (about : msg.exchange.exchangeId = id) :
    made id (msgs ++ [msg]) = some (((made id msgs).getD (.fresh id msg.exchange.timestamp)).update
      msg.direction msg.event) := by
  subst about
  simp [made, List.foldl_append, apply]

theorem exchanges_of_evict {protectedId : Option Nat} {store : Store} (wf : store.WellFormed)
    {id : Nat} {ex : Exchange} (stored : (evict protectedId store).exchanges id = some ex) :
    store.exchanges id = some ex := by
  rw [evict_eq protectedId wf, Store.restrict] at stored
  dsimp only at stored
  split at stored
  · exact stored
  · cases stored

namespace Session

/-- Every stored exchange is made by the messages recorded for it. -/
structure Faithful (s : Session) : Prop where
  wellFormed : s.state.store.WellFormed
  about : ∀ id, (s.state.store.exchanges id).isSome = true →
    ∀ e ∈ s.applied id, e.2.exchange.exchangeId = id
  made : ∀ id ex, s.state.store.exchanges id = some ex →
    (made id ((s.applied id).map Prod.snd)).map Exchange.bare = some ex.bare

theorem Faithful.initial : initial.Faithful where
  wellFormed := .empty
  about := fun id stored => by simp [Session.initial, StoreState.initial, Store.empty] at stored
  made := fun id ex stored => by simp [Session.initial, StoreState.initial, Store.empty] at stored

/-- The message extends what its exchange is made by. -/
theorem Faithful.made_record {s : Session} (faithful : s.Faithful) (msg : Wire.EventMessage) :
    (Ui.made msg.exchange.exchangeId ((s.record msg).map Prod.snd)).map Exchange.bare =
      ((apply s.state.store msg).exchanges msg.exchange.exchangeId).map Exchange.bare := by
  rw [record, List.map_append, List.map_singleton, made_concat _ rfl, apply_self]
  cases stored : s.state.store.exchanges msg.exchange.exchangeId with
  | none => rfl
  | some prev =>
    have before := faithful.made _ prev stored
    obtain ⟨ex, folded, same⟩ := Option.map_eq_some_iff.mp before
    simp only [Option.isSome_some, if_true, folded, Option.getD_some, Option.map_some, bare_update,
      same]

theorem applied_self (s : Session) (msg : Wire.EventMessage) :
    (s.step (.act (.applyEvent msg))).applied msg.exchange.exchangeId = s.record msg :=
  Function.update_self ..

theorem applied_of_ne (s : Session) {msg : Wire.EventMessage} {id : Nat}
    (other : id ≠ msg.exchange.exchangeId) :
    (s.step (.act (.applyEvent msg))).applied id = s.applied id :=
  Function.update_of_ne other ..

theorem Faithful.applyEvent {s : Session} (faithful : s.Faithful) (msg : Wire.EventMessage) :
    (s.step (.act (.applyEvent msg))).Faithful := by
  have wf := faithful.wellFormed.apply msg
  have earlier : ∀ id ex, (s.step (.act (.applyEvent msg))).state.store.exchanges id = some ex →
      (apply s.state.store msg).exchanges id = some ex := fun id ex => exchanges_of_evict wf
  refine ⟨wf.evict _, fun id stored e member => ?_, fun id ex stored => ?_⟩
  · obtain ⟨ex, stored⟩ := Option.isSome_iff_exists.mp stored
    have before := earlier id ex stored
    by_cases same : id = msg.exchange.exchangeId
    · subst same
      rw [applied_self, record] at member
      rcases List.mem_append.mp member with old | new
      · split at old
        · next seen => exact faithful.about _ seen e old
        · cases old
      · rw [List.mem_singleton.mp new]
    · rw [applied_of_ne s same] at member
      rw [apply_of_ne _ same] at before
      exact faithful.about id (by rw [before]; rfl) e member
  · have before := earlier id ex stored
    by_cases same : id = msg.exchange.exchangeId
    · subst same
      rw [applied_self, faithful.made_record, before]
      rfl
    · rw [applied_of_ne s same]
      rw [apply_of_ne _ same] at before
      exact faithful.made id ex before

theorem Faithful.step {s : Session} (faithful : s.Faithful) (action : SessionAction) :
    (s.step action).Faithful := by
  cases action with
  | restart => exact ⟨faithful.wellFormed, faithful.about, faithful.made⟩
  | act action =>
    cases action with
    | applyEvent msg => exact faithful.applyEvent msg
    | setSelectedId selected => exact ⟨faithful.wellFormed, faithful.about, faithful.made⟩
    | setBodyDecodedBytes id direction decodedBytes =>
      rcases setBodyDecodedBytes_cases s.state.store id direction decodedBytes with
        same | ⟨ex, body, seen, found, changed⟩
      · refine ⟨?_, ?_, ?_⟩ <;>
          simp only [Session.step, StoreState.step, same]
        · exact faithful.wellFormed
        · exact faithful.about
        · exact faithful.made
      · refine ⟨?_, fun other => ?_, fun other ex' => ?_⟩ <;>
          simp only [Session.step, StoreState.step, changed]
        · exact faithful.wellFormed.put
            ((ex.setBody_id _ _).trans (faithful.wellFormed.keyed id ex seen))
        · by_cases same : other = id
          · subst same
            exact fun _ => faithful.about other (by rw [seen]; rfl)
          · simpa [Store.put, same] using faithful.about other
        · by_cases same : other = id
          · subst same
            simp only [Store.put, Function.update_self, Option.some.injEq]
            rintro rfl
            rw [bare_setBody ex direction found]
            exact faithful.made other ex seen
          · simpa [Store.put, same] using faithful.made other ex'

theorem faithful_run (actions : List SessionAction) : (run actions).Faithful := by
  induction actions using List.reverseRecOn with
  | nil => exact .initial
  | append_singleton actions action ih => rw [run_concat]; exact ih.step action

/-- Each stored exchange has messages of one process only. -/
def OneProcess (s : Session) : Prop :=
  ∀ id, (s.state.store.exchanges id).isSome = true → ∃ process, ∀ e ∈ s.applied id, e.1 = process

theorem Faithful.unmixed_iff {s : Session} (faithful : s.Faithful) :
    s.Unmixed ↔ s.OneProcess := by
  constructor
  · intro unmixed id stored
    obtain ⟨ex, stored⟩ := Option.isSome_iff_exists.mp stored
    obtain ⟨process, msgs, applied, -, -⟩ := unmixed id ex stored
    refine ⟨process, fun e member => ?_⟩
    rw [applied] at member
    obtain ⟨msg, -, rfl⟩ := List.mem_map.mp member
    rfl
  · intro one id ex stored
    have seen : (s.state.store.exchanges id).isSome = true := by rw [stored]; rfl
    obtain ⟨process, same⟩ := one id seen
    refine ⟨process, (s.applied id).map Prod.snd, ?_, ?_, faithful.made id ex stored⟩
    · rw [List.map_map]
      refine (List.map_id _).symm.trans (List.map_congr_left fun e member => ?_)
      exact Prod.ext (same e member) rfl
    · intro msg member
      obtain ⟨e, old, rfl⟩ := List.mem_map.mp member
      exact faithful.about id seen e old

theorem OneProcess.step {s : Session} (wf : s.state.store.WellFormed) (one : s.OneProcess)
    {action : SessionAction} (apart : ¬ s.Collides action) : (s.step action).OneProcess := by
  cases action with
  | restart => exact one
  | act action =>
    cases action with
    | setSelectedId selected => exact one
    | setBodyDecodedBytes id direction decodedBytes =>
      rcases setBodyDecodedBytes_cases s.state.store id direction decodedBytes with
        same | ⟨ex, body, seen, -, changed⟩
      · simpa only [OneProcess, Session.step, StoreState.step, same] using one
      · intro other stored
        refine one other ?_
        simp only [Session.step, StoreState.step, changed] at stored
        by_cases same : other = id
        · rw [same, seen]
          rfl
        · simpa [Store.put, same] using stored
    | applyEvent msg =>
      intro id stored
      by_cases same : id = msg.exchange.exchangeId
      · subst same
        refine ⟨s.process, fun e member => ?_⟩
        rw [applied_self, record] at member
        rcases List.mem_append.mp member with old | new
        · split at old
          · next seen =>
            by_contra other
            exact apart ⟨seen, ⟨e, old, other⟩,
              (((wf.apply msg).evict s.state.selectedId).mem_ids _).mpr stored⟩
          · cases old
        · rw [List.mem_singleton.mp new]
      · rw [applied_of_ne s same]
        obtain ⟨ex, stored⟩ := Option.isSome_iff_exists.mp stored
        have before := exchanges_of_evict (wf.apply msg) stored
        rw [apply_of_ne _ same] at before
        exact one id (by rw [before]; rfl)

theorem not_oneProcess_of_collides {s : Session} (wf : s.state.store.WellFormed)
    {action : SessionAction} (collides : s.Collides action) : ¬ (s.step action).OneProcess := by
  cases action with
  | restart => exact collides.elim
  | act action =>
    cases action with
    | setSelectedId selected => exact collides.elim
    | setBodyDecodedBytes id direction decodedBytes => exact collides.elim
    | applyEvent msg =>
      obtain ⟨seen, ⟨e, old, other⟩, kept⟩ := collides
      intro one
      obtain ⟨process, same⟩ := one msg.exchange.exchangeId
        ((((wf.apply msg).evict s.state.selectedId).mem_ids _).mp kept)
      rw [applied_self, record, if_pos seen] at same
      have earlier := same e (List.mem_append_left _ old)
      have now := same (s.process, msg) (by simp)
      exact other (earlier.trans now.symm)

end Session

/-- In every state of a run each stored exchange comes from one exchange of one
process, exactly if no message reaches an exchange stored for another process
(and leaves it in the store). -/
theorem restart_unmixed_iff (actions : List SessionAction) :
    (∀ before after, actions = before ++ after → (Session.run before).Unmixed) ↔
      ∀ before action after, actions = before ++ action :: after →
        ¬ (Session.run before).Collides action := by
  constructor
  · intro unmixed before action after split collides
    have faithful := Session.faithful_run before
    have next := unmixed (before ++ [action]) after (by simp [split])
    rw [(Session.faithful_run _).unmixed_iff, Session.run_concat] at next
    exact Session.not_oneProcess_of_collides faithful.wellFormed collides next
  · intro apart before after split
    rw [(Session.faithful_run before).unmixed_iff]
    induction before using List.reverseRecOn generalizing after with
    | nil =>
      intro id stored
      simp [Session.run, Session.initial, StoreState.initial, Store.empty] at stored
    | append_singleton before action ih =>
      have split' : actions = before ++ action :: after := by simp [split]
      rw [Session.run_concat]
      exact (ih _ split').step (Session.faithful_run before).wellFormed (apart _ _ _ split')

/-- A request of the next process under the id of an answered exchange. -/
def newRequest : Wire.EventMessage :=
  ⟨⟨1, "later"⟩, .request, .request "POST" "/" "1.1" [] .noBody⟩

def restarted : List SessionAction :=
  [.act (.applyEvent (requestOf 1)), .act (.applyEvent (responseOf 1)), .restart,
    .act (.applyEvent newRequest)]

theorem restarted_mixes :
    ((Session.run restarted).state.store.exchanges 1).map
        (fun ex => (ex.timestamp, ex.method, ex.status)) = some ("", some "POST", some "200") ∧
    (Session.run restarted).applied 1 =
      [(0, requestOf 1), (0, responseOf 1), (1, newRequest)] ∧
    ¬ (Session.run restarted).Unmixed := by
  have stored : ((Session.run restarted).state.store.exchanges 1).map
      (fun ex => (ex.timestamp, ex.method, ex.status)) =
        some ("", some "POST", some "200") := by decide +kernel
  have applied : (Session.run restarted).applied 1 =
      [(0, requestOf 1), (0, responseOf 1), (1, newRequest)] := by decide +kernel
  refine ⟨stored, applied, fun unmixed => ?_⟩
  obtain ⟨ex, here, -⟩ := Option.map_eq_some_iff.mp stored
  obtain ⟨process, same⟩ :=
    (Session.faithful_run restarted).unmixed_iff.mp unmixed 1 (by rw [here]; rfl)
  rw [applied] at same
  have first := same (0, requestOf 1) List.mem_cons_self
  have last := same (1, newRequest) (by simp)
  exact absurd (first.trans last.symm) (by decide)

end Protospy.Ui
