import Protospy.Proxy.Published
import Protospy.Ui.Bodies

/-!
# From the proxy to the store

The messages of a proxy reach the client in order, but not all of them: one may
be lost on the way, and one that does not serialize is never sent. For a body
that is not an event stream the store tells a complete body from one with a hole
only if nothing with bytes in it was lost.
-/

namespace Protospy

open Event (BodyContent BodyData InitialBody)

/-- The part of body data that survives serialization unchanged. -/
def Event.BodyData.bare {H : Type} (body : BodyData H) : BodyData Unit :=
  ⟨body.content, none, body.atEnd, body.totalBytes⟩

section Bare

variable {H : Type}

theorem payload_bare (body : BodyData H) : body.bare.payload = body.payload := rfl

theorem payloads_bare (bodies : List (BodyData H)) :
    payloads (bodies.map BodyData.bare) = payloads bodies := by
  induction bodies with
  | nil => rfl
  | cons body bodies ih => simp only [List.map_cons, payloads_cons, ih, payload_bare]

theorem lastAtEnd_bare (bodies : List (BodyData H)) :
    lastAtEnd (bodies.map BodyData.bare) = lastAtEnd bodies := by
  simp only [lastAtEnd, List.getLast?_map, Option.map_map]
  rfl

theorem lastTotal_bare (bodies : List (BodyData H)) :
    lastTotal (bodies.map BodyData.bare) = lastTotal bodies := by
  simp only [lastTotal, List.getLast?_map, Option.map_map]
  rfl

/-- The bytes of the chunks are those of the payloads. -/
theorem chunksOf_bytes (bodies : List (BodyData H)) :
    (chunksOf bodies).flatMap BodyChunk.bytes = payloads bodies := by
  induction bodies with
  | nil => rfl
  | cons body bodies ih =>
    have first : body.payload?.toList.flatMap BodyChunk.bytes = body.payload := by
      rw [BodyData.payload?, BodyData.payload]
      cases body.content <;> simp
    rw [payloads_cons, ← ih, ← first, chunksOf, List.flatMap_cons, List.flatMap_append]
    rfl

end Bare

/-! ## Holes -/

section Holes

variable {H : Type}

/-- The ranges of the contents cover the first `total` bytes. -/
def Covers (bodies : List (BodyData H)) (total : Nat) : Prop :=
  ∀ n < total, ∃ body ∈ bodies, ∃ c, body.content = some c ∧ c.offset ≤ n ∧ n < c.offset + c.length

theorem contiguous_total {start : Nat} {bodies : List (BodyData H)} {last : BodyData H}
    (h : Contiguous start (bodies ++ [last])) :
    last.totalBytes = start + (payloads (bodies ++ [last])).length := by
  have starts := contiguous_split h rfl
  rw [starts.2]
  simp [Nat.add_assoc]

/-- Every byte reached lies in the content of a body that has bytes. -/
theorem contiguous_byte {start : Nat} {bodies : List (BodyData H)} (h : Contiguous start bodies)
    {n : Nat} (low : start ≤ n) (high : n < start + (payloads bodies).length) :
    ∃ body ∈ bodies, body.payload ≠ [] ∧
      ∃ c, body.content = some c ∧ c.offset ≤ n ∧ n < c.offset + c.length := by
  induction bodies generalizing start with
  | nil => simp at high; omega
  | cons body bodies ih =>
    obtain ⟨starts, rest⟩ := h
    by_cases here : n < start + body.payload.length
    · have bytes : body.payload ≠ [] := by
        rintro empty
        simp [empty] at here
        omega
      cases hc : body.content with
      | none => exact absurd (by simp [BodyData.payload, hc]) bytes
      | some c =>
        obtain ⟨offset, length⟩ := starts.1 c hc
        have same : body.payload = c.payload.bytes := by simp [BodyData.payload, hc]
        refine ⟨body, List.mem_cons_self, bytes, c, hc, by omega, ?_⟩
        rw [offset, length, ← same]
        exact here
    · rw [payloads_cons, List.length_append, ← Nat.add_assoc] at high
      obtain ⟨b, member, bytes, c, found⟩ := ih rest (by omega) high
      exact ⟨b, List.mem_cons_of_mem _ member, bytes, c, found⟩

/-- The bodies that arrived, of a list in which each is marked. -/
def arrivedOf (marked : List (BodyData H × Bool)) : List (BodyData H) :=
  (marked.filter Prod.snd).map Prod.fst

theorem arrived_length_le (marked : List (BodyData H × Bool)) :
    (payloads (arrivedOf marked)).length ≤ (payloads (marked.map Prod.fst)).length := by
  induction marked with
  | nil => exact le_refl _
  | cons p marked ih =>
    obtain ⟨body, _ | _⟩ := p
    · simp only [arrivedOf, List.filter_cons, List.map_cons, payloads_cons, List.length_append]
      exact ih.trans (Nat.le_add_left _ _)
    · simpa [arrivedOf] using ih

/-- As many bytes arrived as were sent exactly when no body with bytes is missing. -/
theorem arrived_length_iff (marked : List (BodyData H × Bool)) :
    (payloads (arrivedOf marked)).length = (payloads (marked.map Prod.fst)).length ↔
      ∀ p ∈ marked, p.2 = false → p.1.payload = [] := by
  induction marked with
  | nil => simp [arrivedOf]
  | cons p marked ih =>
    obtain ⟨body, _ | _⟩ := p
    · have le := arrived_length_le marked
      have drop : arrivedOf ((body, false) :: marked) = arrivedOf marked := rfl
      rw [drop, List.map_cons, payloads_cons, List.length_append, List.forall_mem_cons, ← ih]
      constructor
      · intro same
        exact ⟨fun _ => List.length_eq_zero_iff.mp (by omega), by omega⟩
      · rintro ⟨empty, same⟩
        rw [empty rfl, same]
        simp
    · have drop : payloads (arrivedOf ((body, true) :: marked)) =
          body.payload ++ payloads (arrivedOf marked) := by simp [arrivedOf]
      rw [drop, List.map_cons, payloads_cons, List.length_append, List.length_append,
        List.forall_mem_cons, ← ih]
      simp

/-- Where the last body that arrived is the end, its total is the length of the
whole body, and what arrived has this length and no gap exactly when no body
with bytes is missing. -/
theorem complete_iff {marked : List (BodyData H × Bool)}
    (contiguous : Contiguous 0 (marked.map Prod.fst)) (ends : OnlyLastEnds (marked.map Prod.fst))
    (atEnd : lastAtEnd (arrivedOf marked) = true) :
    lastTotal (arrivedOf marked) = (payloads (marked.map Prod.fst)).length ∧
      ((payloads (arrivedOf marked)).length = lastTotal (arrivedOf marked) ∧
          Covers (arrivedOf marked) (lastTotal (arrivedOf marked)) ↔
        ∀ p ∈ marked, p.2 = false → p.1.payload = []) := by
  have total : lastTotal (arrivedOf marked) = (payloads (marked.map Prod.fst)).length := by
    rcases List.eq_nil_or_concat (arrivedOf marked) with none | ⟨init, last, split⟩
    · simp [none, lastAtEnd] at atEnd
    · rw [List.concat_eq_append] at split
      rw [split, lastAtEnd_concat] at atEnd
      have member : last ∈ arrivedOf marked := split ▸ List.mem_append_right _ List.mem_cons_self
      obtain ⟨p, hp, rfl⟩ := List.mem_map.mp member
      obtain ⟨before, after, place⟩ :=
        List.append_of_mem (List.mem_map_of_mem (f := Prod.fst) (List.mem_filter.mp hp).1)
      obtain rfl := ends before _ after place atEnd
      rw [split, lastTotal_concat, place]
      rw [place] at contiguous
      rw [contiguous_total contiguous, Nat.zero_add]
  refine ⟨total, ?_⟩
  rw [total, ← arrived_length_iff]
  refine ⟨fun h => h.1, fun h => ⟨h, fun n high => ?_⟩⟩
  obtain ⟨body, member, bytes, c, content, range⟩ :=
    contiguous_byte contiguous (Nat.zero_le n) (by simpa using high)
  obtain ⟨⟨b, arrived⟩, hp, rfl⟩ := List.mem_map.mp member
  have came : arrived = true := by
    by_contra lost
    exact bytes ((arrived_length_iff marked).mp h _ hp (by simpa using lost))
  exact ⟨b, List.mem_map.mpr ⟨_, List.mem_filter.mpr ⟨hp, came⟩, rfl⟩, c, content, range⟩

end Holes

/-! ## Messages -/

/-- Whether a message is about the body of one direction of one exchange. -/
def EventMessage.isAbout (id : Nat) (direction : Direction) (msg : EventMessage) : Bool :=
  msg.exchange.exchangeId = id && match msg.event with
    | .request .. => direction = .request
    | .response .. => direction = .response
    | _ => msg.direction = direction

/-- What serialization does to each kind of event. -/
inductive Serializes : ProxyEvent → Wire.Event → Prop where
  | request {method uri version headers body version' headers' body'}
      (sameHeaders : Headers.serialize headers = .ok headers')
      (sameBody : serializeInitialBody body = .ok body') :
      Serializes (.request method uri version headers body)
        (.request method uri version' headers' body')
  | response {status version headers elapsedMs body status' version' headers' body'}
      (sameHeaders : Headers.serialize headers = .ok headers')
      (sameBody : serializeInitialBody body = .ok body') :
      Serializes (.response status version headers elapsedMs body)
        (.response status' version' headers' elapsedMs body')
  | bodyData {body body'} (sameBody : serializeBodyData body = .ok body') :
      Serializes (.bodyData body) (.bodyData body')
  | error {direction message} : Serializes (.error direction message) (.error direction message)

theorem serializes_of_ok {e : ProxyEvent} {w : Wire.Event} (h : e.serialize = .ok w) :
    Serializes e w := by
  cases e with
  | request method uri version headers body =>
    simp only [ProxyEvent.serialize, bind, Except.bind] at h
    repeat' split at h
    all_goals cases h
    exact .request ‹_› ‹_›
  | response status version headers elapsedMs body =>
    simp only [ProxyEvent.serialize, bind, Except.bind] at h
    repeat' split at h
    all_goals cases h
    exact .response ‹_› ‹_›
  | bodyData body =>
    rcases hb : serializeBodyData body with err | body'
    · simp [ProxyEvent.serialize, hb, Except.map] at h
    · obtain rfl : Wire.Event.bodyData body' = w := by
        simpa [ProxyEvent.serialize, hb, Except.map] using h
      exact .bodyData hb
  | error direction message =>
    obtain rfl := Except.ok.inj h
    exact .error

theorem serializeBodyData_bare {body : BodyData Headers} {body' : BodyData Wire.ProxyHeaders}
    (h : serializeBodyData body = .ok body') : body'.bare = body.bare := by
  rcases ht : serializeTrailers body.trailers with err | trailers
  · simp [serializeBodyData, ht, Except.map] at h
  · simp only [serializeBodyData, ht, Except.map] at h
    rw [← Except.ok.inj h]
    rfl

theorem serializeInitialBody_bare {body : InitialBody Headers}
    {body' : InitialBody Wire.ProxyHeaders} (h : serializeInitialBody body = .ok body') :
    body'.body?.map BodyData.bare = body.body?.map BodyData.bare := by
  cases body with
  | noBody =>
    obtain rfl := Except.ok.inj h
    rfl
  | notRead =>
    obtain rfl := Except.ok.inj h
    rfl
  | data body =>
    rcases hb : serializeBodyData body with err | wire
    · simp [serializeInitialBody, hb, Except.map] at h
    · simp only [serializeInitialBody, hb, Except.map] at h
      rw [← Except.ok.inj h]
      exact congrArg some (serializeBodyData_bare hb)

theorem head_body? (headers : Wire.ProxyHeaders) (initial : InitialBody Wire.ProxyHeaders) :
    (BodyReport.head headers initial).body? = initial.body? := by
  cases initial <;> rfl

/-- A message about a body reports what its event says about it; other messages,
and errors, report nothing. -/
theorem ofMessage_serialize {msg : EventMessage} {w : Wire.EventMessage}
    (h : msg.serialize = .ok w) (id : Nat) (direction : Direction) :
    match BodyReport.ofMessage? id direction w with
    | some report => msg.isAbout id direction = true ∧ report.isHead = msg.event.isHead ∧
        report.body?.map BodyData.bare = msg.event.body?.map BodyData.bare
    | none => msg.isAbout id direction = false ∨
        msg.event.isHead = false ∧ msg.event.body? = none := by
  obtain ⟨exchange, side, event⟩ := msg
  rcases he : event.serialize with err | wire
  · simp [EventMessage.serialize, he, Except.map] at h
  · obtain rfl : Wire.EventMessage.mk exchange side wire = w := by
      simpa [EventMessage.serialize, he, Except.map] using h
    by_cases same : exchange.exchangeId = id
    · cases serializes_of_ok he with
      | request sameHeaders sameBody =>
        cases direction with
        | request =>
          simp only [BodyReport.ofMessage?, same, if_true, head_body?]
          exact ⟨by simp [EventMessage.isAbout, same], rfl, serializeInitialBody_bare sameBody⟩
        | response => simp [BodyReport.ofMessage?, same, EventMessage.isAbout]
      | response sameHeaders sameBody =>
        cases direction with
        | request => simp [BodyReport.ofMessage?, same, EventMessage.isAbout]
        | response =>
          simp only [BodyReport.ofMessage?, same, if_true, head_body?]
          exact ⟨by simp [EventMessage.isAbout, same], rfl, serializeInitialBody_bare sameBody⟩
      | @bodyData body body' sameBody =>
        by_cases here : side = direction
        · have report : BodyReport.ofMessage? id direction ⟨exchange, side, .bodyData body'⟩ =
              some (.data body') := by
            cases direction <;> simp [BodyReport.ofMessage?, same, here]
          rw [report]
          exact ⟨by simp [EventMessage.isAbout, same, here], rfl,
            congrArg some (serializeBodyData_bare sameBody)⟩
        · cases direction <;> simp [BodyReport.ofMessage?, same, here, EventMessage.isAbout]
      | error =>
        cases direction <;>
          simp [BodyReport.ofMessage?, same, ProxyEvent.isHead, ProxyEvent.body?]
    · simp [BodyReport.ofMessage?, same, EventMessage.isAbout]

/-- Published messages, each with whether it got through to the client. -/
abbrev Delivery := List (EventMessage × Bool)

namespace Delivery

/-- What the client gets of one message. -/
def wire? (p : EventMessage × Bool) : Option Wire.EventMessage :=
  if p.2 then p.1.serialize.toOption else none

def received (delivery : Delivery) : List Wire.EventMessage := delivery.filterMap wire?

theorem received_append (before after : Delivery) :
    received (before ++ after) = received before ++ received after := List.filterMap_append

def arrives (p : EventMessage × Bool) : Bool := (wire? p).isSome

/-- The events about the body of one direction of one exchange. -/
def eventsAbout (id : Nat) (direction : Direction) (delivery : Delivery) : List ProxyEvent :=
  (delivery.filter fun p => p.1.isAbout id direction).map fun p => p.1.event

/-- The bodies in these events, with whether they arrived. -/
def marked (id : Nat) (direction : Direction) (delivery : Delivery) :
    List (BodyData Headers × Bool) :=
  (delivery.filter fun p => p.1.isAbout id direction).filterMap fun p =>
    p.1.event.body?.map fun body => (body, arrives p)

/-- The reports that the store reads off the received messages. -/
def reports (id : Nat) (direction : Direction) (delivery : Delivery) : List BodyReport :=
  delivery.received.filterMap (BodyReport.ofMessage? id direction)

theorem marked_fst (id : Nat) (direction : Direction) (delivery : Delivery) :
    (marked id direction delivery).map Prod.fst =
      (eventsAbout id direction delivery).filterMap ProxyEvent.body? := by
  simp only [marked, eventsAbout, List.map_filterMap, List.filterMap_map, Option.map_map]
  refine List.filterMap_congr fun p _ => ?_
  simp only [Function.comp_def, Option.map_id']

theorem serialize_of_wire {p : EventMessage × Bool} {w : Wire.EventMessage}
    (h : wire? p = some w) : p.1.serialize = .ok w := by
  rw [wire?] at h
  split at h
  · cases hs : p.1.serialize with
    | ok v =>
      obtain rfl : v = w := by simpa [hs, Except.toOption] using h
      rfl
    | error err => simp [hs, Except.toOption] at h
  · cases h

theorem reports_cons (id : Nat) (direction : Direction) (p : EventMessage × Bool)
    (delivery : Delivery) : reports id direction (p :: delivery) =
      ((wire? p).bind (BodyReport.ofMessage? id direction)).toList ++
        reports id direction delivery := by
  unfold reports received
  cases h : wire? p with
  | none => simp [h]
  | some w => cases hr : BodyReport.ofMessage? id direction w <;> simp [h, hr]

theorem marked_cons (id : Nat) (direction : Direction) (p : EventMessage × Bool)
    (delivery : Delivery) : marked id direction (p :: delivery) =
      (if p.1.isAbout id direction then
        (p.1.event.body?.map fun body => (body, arrives p)).toList else []) ++
        marked id direction delivery := by
  unfold marked
  by_cases about : p.1.isAbout id direction = true
  · cases h : p.1.event.body? <;> simp [about, h]
  · simp [about]

/-- The store sees the bodies that arrived. -/
theorem reports_bodies (id : Nat) (direction : Direction) (delivery : Delivery) :
    ((reports id direction delivery).filterMap BodyReport.body?).map BodyData.bare =
      (arrivedOf (marked id direction delivery)).map BodyData.bare := by
  induction delivery with
  | nil => rfl
  | cons p delivery ih =>
    rw [reports_cons, marked_cons, List.filterMap_append, List.map_append, ih]
    unfold arrivedOf
    rw [List.filter_append, List.map_append, List.map_append]
    congr 1
    cases hw : wire? p with
    | none =>
      have lost : arrives p = false := by simp [arrives, hw]
      by_cases about : p.1.isAbout id direction = true
      · cases p.1.event.body? <;> simp [about, lost]
      · simp [about]
    | some w =>
      have came : arrives p = true := by simp [arrives, hw]
      have spec := ofMessage_serialize (serialize_of_wire hw) id direction
      cases hr : BodyReport.ofMessage? id direction w with
      | none =>
        rw [hr] at spec
        rcases spec with away | ⟨-, nobody⟩
        · simp [hr, away]
        · simp [hr, nobody]
      | some report =>
        rw [hr] at spec
        obtain ⟨about, -, body⟩ := spec
        cases h : report.body? <;> cases h' : p.1.event.body? <;> simp_all

theorem reports_heads (id : Nat) (direction : Direction) (delivery : Delivery) :
    List.Sublist ((reports id direction delivery).map BodyReport.isHead)
      ((eventsAbout id direction delivery).map ProxyEvent.isHead) := by
  induction delivery with
  | nil => exact List.Sublist.refl _
  | cons p delivery ih =>
    have skip : List.Sublist ((reports id direction delivery).map BodyReport.isHead)
        ((eventsAbout id direction (p :: delivery)).map ProxyEvent.isHead) := by
      refine ih.trans (((List.sublist_cons_self p delivery).filter _ |>.map _).map _)
    rw [reports_cons]
    cases hw : wire? p with
    | none => simpa using skip
    | some w =>
      have spec := ofMessage_serialize (serialize_of_wire hw) id direction
      cases hr : BodyReport.ofMessage? id direction w with
      | none => simpa [hr] using skip
      | some report =>
        rw [hr] at spec
        obtain ⟨about, head, -⟩ := spec
        simpa [hr, eventsAbout, about, head] using ih

/-- Only the first report can be a head. -/
theorem reports_tail {β : Type} [HttpBody β] (env : TrackEnv) (head : Head) (body : β)
    {runs : List ReporterRun}
    (started : runs.map ReporterRun.start = (track env head.direction head.event body).reporters)
    {id : Nat} {delivery : Delivery}
    (published : eventsAbout id head.direction delivery =
      bodyEvents (track env head.direction head.event body) runs) :
    ∀ r ∈ (reports id head.direction delivery).tail, r.isHead = false := by
  intro r hr
  have sub := (reports_heads id head.direction delivery).tail
  rw [published, ← List.map_tail, ← List.map_tail] at sub
  obtain ⟨e, he, same⟩ := List.mem_map.mp (sub.subset (List.mem_map_of_mem hr))
  rw [← same]
  exact bodyEvents_tail env head body started e he

/-- The state of a body in the store comes from the bodies that arrived. -/
theorem stored_accumulates {β : Type} [HttpBody β] (env : TrackEnv) (head : Head) (body : β)
    {runs : List ReporterRun}
    (started : runs.map ReporterRun.start = (track env head.direction head.event body).reporters)
    {id : Nat} {delivery : Delivery}
    (published : eventsAbout id head.direction delivery =
      bodyEvents (track env head.direction head.event body) runs) :
    ∃ bodies : List (BodyData Wire.ProxyHeaders),
      bodies.map BodyData.bare =
        (arrivedOf (marked id head.direction delivery)).map BodyData.bare ∧
      Accumulates bodies ((delivery.received.foldl Ui.apply .empty).body id head.direction) := by
  refine ⟨_, reports_bodies id head.direction delivery, ?_⟩
  rw [Ui.foldl_apply_body]
  exact foldl_accumulates (reports_tail env head body started published)

end Delivery

end Protospy
