import Protospy.Delivery
import Protospy.Proxy.Forwarding
import Protospy.Proxy.Outcomes
import Protospy.Ui.Interleaving

/-!
# The heads of an exchange as the client shows them

Any of the messages of an exchange may be lost, and those of other exchanges come in
between. What is shown of the heads is what the client of the proxy and the upstream
server sent, before the proxy changed it, or nothing.
-/

namespace Protospy

open Event (BodyData InitialBody)
open PollStream
open Projection (View)

namespace ProxyEvent

def isHeadOf : Direction → ProxyEvent → Bool
  | .request, .request .. => true
  | .response, .response .. => true
  | _, _ => false

def error? : ProxyEvent → Option ExchangeError
  | .error direction message => some ⟨direction, message⟩
  | _ => none

theorem isHead_of_isHeadOf {direction : Direction} {e : ProxyEvent}
    (head : e.isHeadOf direction = true) : e.isHead = true := by
  cases e <;> cases direction <;> first | rfl | cases head

end ProxyEvent

namespace Wire.Event

def isHeadOf : Direction → Wire.Event → Bool
  | .request, .request .. => true
  | .response, .response .. => true
  | _, _ => false

def error? : Wire.Event → Option ExchangeError
  | .error direction message => some ⟨direction, message⟩
  | _ => none

end Wire.Event

theorem isHeadOf_serialize {e : ProxyEvent} {w : Wire.Event} (h : e.serialize = .ok w)
    (direction : Direction) : w.isHeadOf direction = e.isHeadOf direction := by
  cases serializes_of_ok h <;> cases direction <;> rfl

theorem error?_serialize {e : ProxyEvent} {w : Wire.Event} (h : e.serialize = .ok w) :
    w.error? = e.error? := by
  cases serializes_of_ok h <;> rfl

theorem EventMessage.serialize_ok {msg : EventMessage} {w : Wire.EventMessage}
    (h : msg.serialize = .ok w) :
    ∃ event, msg.event.serialize = .ok event ∧ w = ⟨msg.exchange, msg.direction, event⟩ := by
  rw [EventMessage.serialize] at h
  cases serialized : msg.event.serialize with
  | ok event =>
    rw [serialized] at h
    exact ⟨event, rfl, (Except.ok.inj h).symm⟩
  | error err =>
    rw [serialized] at h
    cases h

/-! ## Views of the store -/

namespace Ui

/-- What a head says of an exchange. -/
def Exchange.headOf (ex : Exchange) (direction : Direction) : Exchange :=
  { ex.only (.side direction) with requestBody := none, responseBody := none }

theorem headOf_update_moved (ex : Exchange) {msg : Wire.EventMessage} {direction : Direction}
    (head : msg.event.isHeadOf direction = true) :
    (ex.update msg.direction msg.event).headOf direction =
      ((ex.headOf direction).update msg.direction msg.event).headOf direction := by
  obtain ⟨exchange, side, event⟩ := msg
  cases event <;> cases direction <;> first | rfl | cases head

theorem headOf_update_still (ex : Exchange) {msg : Wire.EventMessage} {direction : Direction}
    (other : msg.event.isHeadOf direction = false) :
    (ex.update msg.direction msg.event).headOf direction = ex.headOf direction := by
  obtain ⟨exchange, side, event⟩ := msg
  cases event <;> cases direction <;> first | rfl | (cases side <;> rfl) | cases other

theorem headOf_getD_fresh (prev : Option Exchange) (id : Nat) (timestamp : String)
    (direction : Direction) :
    (prev.getD (.fresh id timestamp)).headOf direction =
      (prev.getD (.fresh 0 "")).headOf direction := by
  cases prev <;> cases direction <;> rfl

def headView (id : Nat) (direction : Direction) : View apply Exchange where
  view := fun store => ((store.exchanges id).getD (.fresh 0 "")).headOf direction
  moves := fun msg => msg.exchange.exchangeId = id ∧ msg.event.isHeadOf direction = true
  next := fun ex msg => (ex.update msg.direction msg.event).headOf direction
  view_moved := by
    intro store msg moved
    obtain ⟨rfl, head⟩ := of_decide_eq_true moved
    rw [apply_self, Option.getD_some, headOf_update_moved _ head, headOf_getD_fresh]
  view_still := by
    intro store msg still
    have apart := of_decide_eq_false still
    by_cases same : id = msg.exchange.exchangeId
    · subst same
      have other := eq_false_of_ne_true fun head => apart ⟨rfl, head⟩
      rw [apply_self, Option.getD_some, headOf_update_still _ other, headOf_getD_fresh]
    · rw [apply_of_ne store same]

def errorView (id : Nat) : View apply (Option ExchangeError) where
  view := fun store => (store.exchanges id).bind Exchange.error
  moves := fun msg => msg.exchange.exchangeId = id ∧ msg.event.error?.isSome = true
  next := fun _ msg => msg.event.error?
  view_moved := by
    intro store msg moved
    obtain ⟨rfl, fails⟩ := of_decide_eq_true moved
    rw [apply_self, Option.bind_some]
    obtain ⟨exchange, side, event⟩ := msg
    cases event <;> first | rfl | cases fails
  view_still := by
    intro store msg still
    have apart := of_decide_eq_false still
    by_cases same : id = msg.exchange.exchangeId
    · subst same
      rw [apply_self, Option.bind_some]
      obtain ⟨exchange, side, event⟩ := msg
      have kept : ∀ prev : Option Exchange,
          (prev.getD (.fresh exchange.exchangeId exchange.timestamp)).error =
            prev.bind Exchange.error := by
        intro prev
        cases prev <;> rfl
      rw [← kept]
      cases event with
      | error direction message => exact absurd ⟨rfl, rfl⟩ apart
      | bodyData body => cases side <;> rfl
      | _ => rfl
    · rw [apply_of_ne store same]

theorem errorView_foldl (id : Nat) (msgs : List Wire.EventMessage)
    (all : ∀ msg ∈ msgs, msg.event.error?.isSome = true) (prev : Option ExchangeError) :
    msgs.foldl (errorView id).next prev =
      ((msgs.filterMap fun msg => msg.event.error?).getLast?).or prev := by
  induction msgs using List.reverseRecOn with
  | nil => rfl
  | append_singleton msgs msg ih =>
    obtain ⟨error, fails⟩ := Option.isSome_iff_exists.mp (all msg (by simp))
    have last : [msg].filterMap (fun msg => msg.event.error?) = [error] := by
      simp [fails]
    rw [List.foldl_append, List.foldl_cons, List.foldl_nil, List.filterMap_append, last,
      List.getLast?_concat, Option.some_or]
    exact fails

/-! ## What is shown -/

/-- Each name with the first of its values. -/
def ShowsHeaders (headers : Wire.ProxyHeaders) (map : HeaderMap) : Prop :=
  (headers.map fun h => (h.name, some h.value)) =
    map.entries.map fun e => (e.name.text, e.first.toStr)

def Exchange.ShowsHead (ex : Exchange) : Head → Prop
  | .request parts => ex.method = some parts.method ∧ ex.uri = some parts.uri.toText ∧
      ex.version = (httpVersionNum parts.version).toOption ∧
      ∃ headers, ex.requestHeaders = some headers ∧ ShowsHeaders headers parts.headers ∧
        ex.traceId = traceIdOf headers
  | .response parts elapsedMs => ex.status = some parts.status.asStr ∧
      ex.responseVersion = (httpVersionNum parts.version).toOption ∧
      ex.elapsedMs = some elapsedMs ∧
      ∃ headers, ex.responseHeaders = some headers ∧ ShowsHeaders headers parts.headers

def Exchange.ShowsNoHead (ex : Exchange) (direction : Direction) : Prop :=
  ex.headOf direction = Exchange.fresh 0 ""

theorem showsHeaders_of_serialize {headers : Headers} {wire : Wire.ProxyHeaders}
    (h : headers.serialize = .ok wire) :
    (wire.map fun h => (h.name, some h.value)) =
      headers.map fun h => (h.name.text, h.value.toStr) := by
  induction headers generalizing wire with
  | nil =>
    obtain rfl := Except.ok.inj h
    rfl
  | cons header rest ih =>
    rw [Headers.serialize] at h
    cases value : header.value.toStr with
    | none => simp [SerializeError.httpHeaderValue, value, bind, Except.bind] at h
    | some text =>
      cases more : Headers.serialize rest with
      | error err => simp [SerializeError.httpHeaderValue, value, more, bind, Except.bind] at h
      | ok wire' =>
        obtain rfl : ⟨header.name.text, text⟩ :: wire' = wire := by
          simpa [SerializeError.httpHeaderValue, value, more, bind, Except.bind] using h
        rw [List.map_cons, List.map_cons, ih more, value]

theorem showsHeaders_ofMap {map : HeaderMap} {wire : Wire.ProxyHeaders}
    (h : (Headers.ofMap map).serialize = .ok wire) : ShowsHeaders wire map := by
  rw [ShowsHeaders, showsHeaders_of_serialize h, Headers.ofMap_eq, List.map_map]
  rfl

theorem httpVersion_ok {version : Version} {num : String}
    (h : SerializeError.httpVersion version = .ok num) :
    (httpVersionNum version).toOption = some num := by
  rw [SerializeError.httpVersion] at h
  cases number : httpVersionNum version with
  | ok num' =>
    rw [number] at h
    exact congrArg some (Except.ok.inj h)
  | error err =>
    rw [number] at h
    cases h

/-- A head that is applied to an exchange without one is shown. -/
theorem showsHead_of_update {head : Head} {found : FoundBodyData} {event : Wire.Event}
    (serialized : (head.event found).serialize = .ok event) {ex : Exchange} {side : Direction}
    (same : ex.headOf head.direction =
      (((Exchange.fresh 0 "").headOf head.direction).update side event).headOf head.direction) :
    ex.ShowsHead head := by
  cases head with
  | request parts =>
    obtain ⟨version, numbered, rest⟩ := bind_eq_ok.mp serialized
    obtain ⟨headers, listed, rest⟩ := bind_eq_ok.mp rest
    obtain ⟨initial, -, rest⟩ := bind_eq_ok.mp rest
    obtain rfl := Except.ok.inj rest
    refine ⟨congrArg Exchange.method same, congrArg Exchange.uri same, ?_, headers,
      congrArg Exchange.requestHeaders same, showsHeaders_ofMap listed, ?_⟩
    · rw [httpVersion_ok numbered]
      exact congrArg Exchange.version same
    · exact (congrArg Exchange.traceId same).trans (Option.or_none)
  | response parts elapsedMs =>
    obtain ⟨version, numbered, rest⟩ := bind_eq_ok.mp serialized
    obtain ⟨headers, listed, rest⟩ := bind_eq_ok.mp rest
    obtain ⟨initial, -, rest⟩ := bind_eq_ok.mp rest
    obtain rfl := Except.ok.inj rest
    refine ⟨congrArg Exchange.status same, ?_, congrArg Exchange.elapsedMs same, headers,
      congrArg Exchange.responseHeaders same, showsHeaders_ofMap listed⟩
    rw [httpVersion_ok numbered]
    exact congrArg Exchange.responseVersion same

end Ui

/-! ## Deliveries -/

namespace Delivery

theorem received_filter {P : EventMessage → Bool} {Q : Wire.EventMessage → Bool}
    (agree : ∀ msg w, msg.serialize = .ok w → Q w = P msg) (delivery : Delivery) :
    delivery.received.filter Q = (delivery.filter fun p => P p.1).filterMap wire? := by
  induction delivery with
  | nil => rfl
  | cons p delivery ih =>
    rw [received, List.filterMap_cons, List.filter_cons]
    cases got : wire? p with
    | none =>
      dsimp only
      split
      · rw [List.filterMap_cons_none got]
        exact ih
      · exact ih
    | some w =>
      dsimp only
      rw [List.filter_cons, agree p.1 w (serialize_of_wire got)]
      split
      · rw [List.filterMap_cons_some got]
        exact congrArg (w :: ·) ih
      · exact ih

/-- The message with the head of one side of an exchange. -/
def isHeadMessage (id : Nat) (direction : Direction) (msg : EventMessage) : Bool :=
  msg.exchange.exchangeId = id ∧ msg.event.isHeadOf direction = true

def headArrives (id : Nat) (direction : Direction) (delivery : Delivery) : Bool :=
  delivery.any fun p => isHeadMessage id direction p.1 && arrives p

/-- The errors of an exchange that the client is told. -/
def errorsTold (id : Nat) (delivery : Delivery) : List ExchangeError :=
  (delivery.filter fun p => p.1.exchange.exchangeId = id ∧ arrives p = true).filterMap
    fun p => p.1.event.error?

theorem received_heads (id : Nat) (direction : Direction) (delivery : Delivery) :
    delivery.received.filter (Ui.headView id direction).moves =
      (delivery.filter fun p => isHeadMessage id direction p.1).filterMap wire? := by
  refine received_filter (fun msg w h => ?_) delivery
  obtain ⟨event, serialized, rfl⟩ := msg.serialize_ok h
  simp only [Ui.headView, isHeadMessage, isHeadOf_serialize serialized]

theorem received_errors (id : Nat) (delivery : Delivery) :
    (delivery.received.filter (Ui.errorView id).moves).filterMap (fun msg => msg.event.error?) =
      delivery.errorsTold id := by
  have agree : ∀ (msg : EventMessage) (w : Wire.EventMessage), msg.serialize = .ok w →
      (Ui.errorView id).moves w =
        decide (msg.exchange.exchangeId = id ∧ msg.event.error?.isSome = true) := by
    intro msg w h
    obtain ⟨event, serialized, rfl⟩ := msg.serialize_ok h
    simp only [Ui.errorView, error?_serialize serialized]
  rw [received_filter agree, errorsTold, List.filterMap_filter, List.filterMap_filter,
    List.filterMap_filterMap]
  refine List.filterMap_congr fun p _ => ?_
  cases got : wire? p with
  | none => simp [arrives, got]
  | some w =>
    obtain ⟨event, serialized, rfl⟩ := p.1.serialize_ok (serialize_of_wire got)
    have same := error?_serialize serialized
    by_cases here : p.1.exchange.exchangeId = id <;>
      cases fails : p.1.event.error? <;> simp [arrives, got, same, fails, here]

/-- The messages with a head are among those about the body that comes with it. -/
theorem heads_of_events {id : Nat} {direction : Direction} {delivery : Delivery}
    {events : List ProxyEvent} (sent : eventsAbout id direction delivery = events) :
    (delivery.filter fun p => isHeadMessage id direction p.1).map (fun p => p.1.event) =
      events.filter (ProxyEvent.isHeadOf direction) := by
  rw [← sent, eventsAbout, List.filter_map, List.filter_filter]
  congr 1
  refine List.filter_congr fun p _ => ?_
  obtain ⟨⟨exchange, side, event⟩, arrived⟩ := p
  cases event <;> cases direction <;>
    simp [isHeadMessage, EventMessage.isAbout, ProxyEvent.isHeadOf]

end Delivery

/-! ## The messages of an exchange -/

namespace Exchange

variable {β γ : Type} [HttpBody β] [HttpBody γ]

/-- A head of the exchange, as it came to the proxy. -/
def HasHead (x : Exchange) (env : ExchangeEnv γ) (incoming : Request β) : Head → Prop
  | .request parts => parts = incoming.parts
  | .response parts elapsedMs => elapsedMs = env.elapsedMs ∧
      ∃ request response, x.transformRequestParts incoming = .ok request ∧
        env.client request.parts (trace incoming.body) = .ok response ∧ parts = response.parts

/-- The events about one side: those of the exchange itself and those of its reporters. -/
def eventsOf (x : Exchange) (env : ExchangeEnv γ) (incoming : Request β)
    (runs : List ReporterRun) (direction : Direction) : List ProxyEvent :=
  (x.process env incoming).published.filter (ProxyEvent.isHeadOf direction) ++
    (runs.filter fun r => r.start.reporter.direction = direction).flatMap
      fun r => r.state.published

/-- At most one head is published, and it is one that came to the proxy. -/
def PublishesHead (direction : Direction) (P : Head → Prop) (published : List ProxyEvent) : Prop :=
  published = [] ∨ ∃ head found, published = [head.event found] ∧ head.direction = direction ∧ P head

theorem PublishesHead.filter {side : Direction} {P : Head → Prop} {published : List ProxyEvent}
    (h : PublishesHead side P published) (direction : Direction) :
    published.filter (ProxyEvent.isHeadOf direction) = if side = direction then published else [] := by
  rcases h with rfl | ⟨head, found, rfl, rfl, -⟩
  · split <;> rfl
  · cases head <;> cases direction <;> rfl

omit [HttpBody γ] in
theorem track_publishes (env : TrackEnv) (head : Head) (body : β) {P : Head → Prop} (came : P head) :
    PublishesHead head.direction P (track env head.direction head.event body).published := by
  rw [track]
  split
  · exact .inl rfl
  · split
    · exact .inr ⟨head, _, rfl, rfl, came⟩
    · exact .inl rfl

omit [HttpBody γ] in
theorem finishRequest_publishes (x : Exchange) (env : ExchangeEnv γ) (orig transformed : Request β)
    {P : Head → Prop} (came : P (.request orig.parts)) :
    PublishesHead .request P (x.finishRequest env orig transformed).published := by
  rw [finishRequest]
  split
  · exact track_publishes env.request (.request orig.parts) transformed.body came
  · exact .inl rfl

omit [HttpBody β] in
theorem processResponse_publishes (x : Exchange) (env : ExchangeEnv γ) (response : Response γ)
    {P : Head → Prop} (came : P (.response response.parts env.elapsedMs)) :
    PublishesHead .response P (x.processResponse env response).1 := by
  rw [processResponse]
  split
  · exact .inl rfl
  · rename_i transformed _
    dsimp only
    rw [finishResponse]
    split
    · exact track_publishes env.response (.response response.parts env.elapsedMs)
        transformed.body came
    · exact .inl rfl

omit [HttpBody γ] in
theorem finishRequest_trace {x : Exchange} {env : ExchangeEnv γ} {orig transformed : Request β}
    {boxed : Boxed BodyStreamItem}
    (h : (x.finishRequest env orig transformed).body = .ok boxed) :
    trace boxed = trace transformed.body := by
  rw [finishRequest] at h
  split at h
  · exact track_trace h
  · obtain rfl := Except.ok.inj h
    exact trace_boxed transformed.body

theorem process_publishes (x : Exchange) (env : ExchangeEnv γ) (incoming : Request β)
    (direction : Direction) :
    PublishesHead direction (x.HasHead env incoming)
      ((x.process env incoming).published.filter (ProxyEvent.isHeadOf direction)) := by
  rw [process]
  split
  · exact .inl rfl
  · rename_i request transformed
    have first := x.finishRequest_publishes env incoming request
      (P := x.HasHead env incoming) rfl
    have alone : PublishesHead direction (x.HasHead env incoming)
        ((x.finishRequest env incoming request).published.filter
          (ProxyEvent.isHeadOf direction)) := by
      rw [first.filter]
      split
      · rename_i same
        exact same ▸ first
      · exact .inl rfl
    dsimp only
    split
    · exact alone
    · rename_i body tracked
      split
      · exact alone
      · rename_i response answered
        have came : x.HasHead env incoming (.response response.parts env.elapsedMs) := by
          have same : trace body = trace incoming.body :=
            (finishRequest_trace tracked).trans
              (congrArg (fun b => trace b) (transformRequestParts_body transformed))
          exact ⟨rfl, request, response, transformed, same ▸ answered, rfl⟩
        have second := x.processResponse_publishes env response came
        rw [List.filter_append, first.filter, second.filter]
        cases direction with
        | request => simpa using first
        | response => simpa using second

omit [HttpBody γ] in
theorem track_reporters_created {env : TrackEnv} {direction : Direction}
    {event : FoundBodyData → ProxyEvent} {body : β} :
    ∀ start ∈ (track env direction event body).reporters,
      ∃ prev, start = .createBuffered direction prev := by
  intro start member
  unfold track startedReporters at member
  split at member
  · cases member
  · split at member
    · split at member
      · exact ⟨_, List.mem_singleton.mp member⟩
      · cases member
    · cases member

theorem process_reporters_created {x : Exchange} {env : ExchangeEnv γ} {incoming : Request β}
    {start : ReportingSystem} (member : start ∈ (x.process env incoming).reporters) :
    ∃ direction prev, start = .createBuffered direction prev := by
  have request : ∀ orig transformed : Request β,
      start ∈ (x.finishRequest env orig transformed).reporters →
        ∃ direction prev, start = .createBuffered direction prev := by
    intro orig transformed member
    rw [finishRequest] at member
    split at member
    · exact ⟨_, track_reporters_created start member⟩
    · cases member
  have answer : ∀ response : Response γ, start ∈ (x.processResponse env response).2.1 →
      ∃ direction prev, start = .createBuffered direction prev := by
    intro response member
    unfold processResponse finishResponse at member
    split at member
    · cases member
    · split at member
      · exact ⟨_, track_reporters_created start member⟩
      · cases member
  rw [process] at member
  split at member
  · cases member
  · dsimp only at member
    split at member
    · exact request _ _ member
    · split at member
      · exact request _ _ member
      · exact (List.mem_append.mp member).elim (request _ _) (answer _)

theorem eventsOf_heads {x : Exchange} {env : ExchangeEnv γ} {incoming : Request β}
    {runs : List ReporterRun}
    (started : runs.map ReporterRun.start = (x.process env incoming).reporters)
    (direction : Direction) :
    (x.eventsOf env incoming runs direction).filter (ProxyEvent.isHeadOf direction) =
      (x.process env incoming).published.filter (ProxyEvent.isHeadOf direction) := by
  rw [eventsOf, List.filter_append, List.filter_filter]
  simp only [Bool.and_self]
  have none : ((runs.filter fun r => r.start.reporter.direction = direction).flatMap
      fun r => r.state.published).filter (ProxyEvent.isHeadOf direction) = [] := by
    refine List.filter_eq_nil_iff.mpr fun e member head => ?_
    obtain ⟨r, chosen, published⟩ := List.mem_flatMap.mp member
    have created : r.start ∈ (x.process env incoming).reporters :=
      started ▸ List.mem_map_of_mem (List.mem_filter.mp chosen).1
    obtain ⟨side, prev, start⟩ := process_reporters_created created
    have quiet := ReportingSystem.published_noHead (start ▸ r.ran) e published
    rw [ProxyEvent.isHead_of_isHeadOf head] at quiet
    cases quiet
  rw [none, List.append_nil]

end Exchange

section Example

private def notModifiedEnv : ExchangeEnv (Script BodyStreamItem) where
  client _ _ := .ok ⟨⟨⟨304, by omega⟩, .http11, HeaderMap.new⟩, ⟨[]⟩⟩
  elapsedMs := 5
  request := .quick true
  response := .quick true

private def shownExchange : Exchange := ⟨localService, true, localConn⟩

/-- The request gets through, the response does not. -/
private def halfDelivery : Delivery :=
  ((shownExchange.process notModifiedEnv emptyGet).published.map
    fun e => EventMessage.mk ⟨7, ""⟩ .request e).zip [true, false]

end Example

end Protospy
