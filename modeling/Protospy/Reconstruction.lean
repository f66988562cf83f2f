import Protospy.Delivery
import Protospy.Ui.Decode

/-!
# Bodies as the client reconstructs them
-/

namespace Protospy

open Event (BodyContent BodyData InitialBody)
open PollStream
open Delivery (marked eventsAbout reports arrives)

section Complete

variable {β : Type} [HttpBody β] {env : TrackEnv} {head : Head} {body : β}
  {runs : List ReporterRun} {id : Nat} {delivery : Delivery}

theorem covers_bare {H : Type} (bodies : List (BodyData H)) (total : Nat) :
    Covers (bodies.map BodyData.bare) total ↔ Covers bodies total := by
  simp only [Covers, List.mem_map, exists_exists_and_eq_and]
  rfl

/-- A complete body of the store, in terms of the bodies published for it. -/
theorem stored_complete
    (started : runs.map ReporterRun.start = (track env head.direction head.event body).reporters)
    (published : eventsAbout id head.direction delivery =
      bodyEvents (track env head.direction head.event body) runs) {b : BodyState}
    (held : (delivery.received.foldl Ui.apply .empty).body id head.direction = some b)
    (raw : b.sseState = none) :
    b.chunks.flatMap BodyChunk.bytes = payloads (arrivedOf (marked id head.direction delivery)) ∧
      b.atEnd = lastAtEnd (arrivedOf (marked id head.direction delivery)) ∧
      b.wireBytes = lastTotal (arrivedOf (marked id head.direction delivery)) := by
  obtain ⟨bodies, same, accumulates⟩ :=
    Delivery.stored_accumulates env head body started published
  rw [held] at accumulates
  obtain ⟨chunks, atEnd, total⟩ := accumulates raw
  refine ⟨?_, ?_, ?_⟩
  · rw [chunks, chunksOf_bytes, ← payloads_bare, same, payloads_bare]
  · rw [atEnd, ← lastAtEnd_bare, same, lastAtEnd_bare]
  · rw [total, ← lastTotal_bare, same, lastTotal_bare]

/-- A body that the store calls complete has all of its bytes, and no gap,
exactly when no message with bytes of it failed to arrive. -/
theorem complete_body_iff
    (started : runs.map ReporterRun.start = (track env head.direction head.event body).reporters)
    (published : eventsAbout id head.direction delivery =
      bodyEvents (track env head.direction head.event body) runs) {b : BodyState}
    (held : (delivery.received.foldl Ui.apply .empty).body id head.direction = some b)
    (raw : b.sseState = none) (atEnd : b.atEnd = true) :
    ((b.chunks.map fun c => c.bytes.length).sum = b.wireBytes ∧
        Covers ((reports id head.direction delivery).filterMap BodyReport.body?) b.wireBytes) ↔
      ∀ p ∈ delivery, p.1.isAbout id head.direction = true → arrives p = false →
        ∀ data, p.1.event.body? = some data → data.payload = [] := by
  obtain ⟨chunks, ends, total⟩ := stored_complete started published held raw
  obtain ⟨contiguous, onlyLast⟩ := bodyEvents_contiguous env head body started
  rw [← published, ← Delivery.marked_fst] at contiguous onlyLast
  rw [atEnd] at ends
  obtain ⟨-, iff⟩ := complete_iff contiguous onlyLast ends.symm
  have sum : (b.chunks.map fun c => c.bytes.length).sum =
      (payloads (arrivedOf (marked id head.direction delivery))).length := by
    rw [← chunks, List.length_flatMap]
  have covers : Covers ((reports id head.direction delivery).filterMap BodyReport.body?)
        b.wireBytes ↔
      Covers (arrivedOf (marked id head.direction delivery)) b.wireBytes := by
    rw [← covers_bare, Delivery.reports_bodies, covers_bare]
  rw [sum, covers, total, iff]
  constructor
  · intro all p hp about lost data hdata
    refine all (data, false) (List.mem_filterMap.mpr ⟨p, List.mem_filter.mpr ⟨hp, about⟩, ?_⟩) rfl
    rw [hdata, Option.map_some, lost]
  · rintro all ⟨data, flag⟩ hmem rfl
    obtain ⟨p, hp, hdata⟩ := List.mem_filterMap.mp hmem
    obtain ⟨data', hdata', heq⟩ := Option.map_eq_some_iff.mp hdata
    obtain ⟨rfl, lost⟩ : data' = data ∧ arrives p = false := by simpa using heq
    obtain ⟨member, about⟩ := List.mem_filter.mp hp
    exact all p member about lost _ hdata'

end Complete

section LateBody

/-- One byte that comes too late for the prefetch. -/
private def lateBody : Script BodyStreamItem :=
  ⟨[.pending, .pending, .ready (some (.ok (.data [97])))]⟩

private def lateTrack : TrackEnv := .quick true

private def okHead (headers : HeaderMap) : Head := .response ⟨.ok, .http11, headers⟩ 3

/-- The byte is flushed before the end comes. -/
private def lateRun : ReporterRun where
  start := .createBuffered .response 0
  acts := [.dispatch (some (.ok (.data [97]))), .completeSend, .receive true, .flush true,
    .dispatch none, .completeSend, .receive true]
  state := _
  ran := rfl

private def lateTracked : Tracked := track lateTrack .response (okHead .new).event lateBody

/-- The head, the byte and the end, with whether each arrives. -/
private def lateDelivery (arrive : List Bool) : Delivery :=
  ((bodyEvents lateTracked [lateRun]).map fun e => EventMessage.mk ⟨7, ""⟩ .response e).zip arrive

theorem complete_body_late : ∃ b,
    ((lateDelivery [true, true, true]).received.foldl Ui.apply .empty).body 7 .response = some b ∧
      (b.chunks.map fun c => c.bytes.length).sum = b.wireBytes :=
  ⟨_, rfl, ((@complete_body_iff _ _ lateTrack (okHead .new) lateBody [lateRun] 7
    (lateDelivery [true, true, true]) rfl rfl _ rfl rfl rfl).mpr (by decide)).1⟩

/-- Without the middle message the body is presented as complete all the same. -/
theorem complete_body_hole : ∃ b,
    [lateRun].map ReporterRun.start = lateTracked.reporters ∧
      eventsAbout 7 .response (lateDelivery [true, false, true]) =
        bodyEvents lateTracked [lateRun] ∧
      ((lateDelivery [true, false, true]).received.foldl Ui.apply .empty).body 7 .response =
        some b ∧ b.sseState = none ∧ b.atEnd = true ∧
      (b.chunks.map fun c => c.bytes.length).sum ≠ b.wireBytes :=
  ⟨_, rfl, rfl, rfl, rfl, rfl, by decide⟩

end LateBody

/-! ## Bodies read to their end -/

section Whole

theorem serialize_find {headers : Headers} {wire : Wire.ProxyHeaders}
    (h : headers.serialize = .ok wire) (name : HeaderName) :
    getHeader wire name.text =
      (headers.find? fun h => h.name = name).bind fun h => h.value.toStr := by
  induction headers generalizing wire with
  | nil =>
    obtain rfl := Except.ok.inj h
    rfl
  | cons header rest ih =>
    rcases hv : SerializeError.httpHeaderValue header.value with err | value
    · simp [Headers.serialize, hv, bind, Except.bind] at h
    · rcases hr : Headers.serialize rest with err | more
      · simp [Headers.serialize, hv, hr, bind, Except.bind] at h
      · obtain rfl : ⟨header.name.text, value⟩ :: more = wire := by
          simpa [Headers.serialize, hv, hr, bind, Except.bind] using h
        have text : header.value.toStr = some value := by
          rw [SerializeError.httpHeaderValue] at hv
          split at hv
          · rename_i s hs
            rw [hs, Except.ok.inj hv]
          · cases hv
        by_cases same : header.name = name
        · simp [getHeader, same, text]
        · have differ : ¬ Text.toLowerCase header.name.text.toList =
              Text.toLowerCase name.text.toList := by
            unfold Text.toLowerCase
            rw [header.name.normal, name.normal, String.toList_inj]
            intro heq
            exact same (by cases hn : header.name; cases name; simp_all)
          have tail := ih hr
          simp only [getHeader, List.find?_cons, differ, same, decide_false] at tail ⊢
          exact tail

/-- The UI finds the value that the header map gives. -/
theorem getHeader_ofMap {map : HeaderMap} {wire : Wire.ProxyHeaders}
    (h : (Headers.ofMap map).serialize = .ok wire) (name : HeaderName) :
    getHeader wire name.text = (map.get name).bind HeaderValue.toStr := by
  rw [serialize_find h, Headers.ofMap_eq, List.find?_map, HeaderMap.get, HeaderMap.getAll]
  simp only [Function.comp_def]
  cases map.entries.find? fun e => e.name = name <;> rfl

theorem ofMessage_head {msg : EventMessage} {w : Wire.EventMessage}
    (h : msg.serialize = .ok w) {head : Head} {found : FoundBodyData}
    (event : msg.event = head.event found) {id : Nat}
    (about : msg.isAbout id head.direction = true) :
    ∃ headers initial, BodyReport.ofMessage? id head.direction w = some (.head headers initial) ∧
      (Headers.ofMap head.headers).serialize = .ok headers ∧
      serializeInitialBody (initialBodyFromFound found) = .ok initial := by
  obtain ⟨exchange, side, e⟩ := msg
  obtain rfl : e = head.event found := event
  rcases he : (head.event found).serialize with err | wire
  · simp [EventMessage.serialize, he, Except.map] at h
  · obtain rfl : Wire.EventMessage.mk exchange side wire = w := by
      simpa [EventMessage.serialize, he, Except.map] using h
    have same : exchange.exchangeId = id := by
      simp only [EventMessage.isAbout, Bool.and_eq_true, decide_eq_true_eq] at about
      exact about.1
    have kind := serializes_of_ok he
    cases head with
    | request parts =>
      cases kind with
      | request sameHeaders sameBody =>
        exact ⟨_, _, by simp [BodyReport.ofMessage?, same, Head.direction], sameHeaders, sameBody⟩
    | response parts elapsedMs =>
      cases kind with
      | response sameHeaders sameBody =>
        exact ⟨_, _, by simp [BodyReport.ofMessage?, same, Head.direction], sameHeaders, sameBody⟩

/-- The store sees the head first. -/
theorem reports_eq_head {head : Head} {found : FoundBodyData} {id : Nat} {delivery : Delivery}
    {rest : List ProxyEvent}
    (events : eventsAbout id head.direction delivery = head.event found :: rest)
    (lossless : ∀ p ∈ delivery, p.1.isAbout id head.direction = true → arrives p = true) :
    ∃ headers initial more,
      reports id head.direction delivery = .head headers initial :: more ∧
      (Headers.ofMap head.headers).serialize = .ok headers ∧
      serializeInitialBody (initialBodyFromFound found) = .ok initial := by
  induction delivery with
  | nil => cases events
  | cons p delivery ih =>
    have later : ∀ q ∈ delivery, q.1.isAbout id head.direction = true → arrives q = true :=
      fun q hq => lossless q (List.mem_cons_of_mem _ hq)
    rw [Delivery.reports_cons]
    by_cases about : p.1.isAbout id head.direction = true
    · have first : p.1.event = head.event found := by
        simp only [eventsAbout, List.filter_cons, about, if_true, List.map_cons,
          List.cons.injEq] at events
        exact events.1
      obtain ⟨w, hw⟩ := Option.isSome_iff_exists.mp (lossless p List.mem_cons_self about)
      obtain ⟨headers, initial, report, sameHeaders, sameBody⟩ :=
        ofMessage_head (Delivery.serialize_of_wire hw) first about
      exact ⟨headers, initial, _, by rw [hw, Option.bind_some, report]; rfl, sameHeaders, sameBody⟩
    · have skip : eventsAbout id head.direction delivery = head.event found :: rest := by
        simpa [eventsAbout, List.filter_cons, about] using events
      obtain ⟨headers, initial, more, found', hmore⟩ := ih skip later
      have nothing : (Delivery.wire? p).bind (BodyReport.ofMessage? id head.direction) = none := by
        cases hw : Delivery.wire? p with
        | none => rfl
        | some w =>
          have spec := ofMessage_serialize (Delivery.serialize_of_wire hw) id head.direction
          cases hr : BodyReport.ofMessage? id head.direction w with
          | none => simpa using hr
          | some report =>
            rw [hr] at spec
            exact absurd spec.1 about
      exact ⟨headers, initial, more, by rw [nothing]; exact found', hmore⟩

/-- Neither an event stream nor compressed. -/
def IsPlain : Option BodyState → Prop
  | none => False
  | some b => b.sseState = none ∧ b.contentEncoding = none

theorem foldl_plain {reports : List BodyReport} (data : ∀ r ∈ reports, r.isHead = false)
    {prev : Option BodyState} (h : IsPlain prev) : IsPlain (reports.foldl BodyReport.step prev) := by
  induction reports generalizing prev with
  | nil => exact h
  | cons r reports ih =>
    refine ih (fun r' hr' => data r' (List.mem_cons_of_mem _ hr')) ?_
    cases r with
    | head headers initial => cases data _ List.mem_cons_self
    | data body =>
      obtain _ | b := prev
      · exact h.elim
      · simp [BodyReport.step, appendBodyData, IsPlain, h.1, h.2]

theorem initialBodyToState_plain {headers : Wire.ProxyHeaders}
    {initial : InitialBody Wire.ProxyHeaders} (some : initial ≠ .noBody)
    (notStream : isSSEContentType (getHeader headers "content-type") = false)
    (plain : getHeader headers "content-encoding" = none) :
    IsPlain (initialBodyToState initial headers) := by
  cases initial with
  | noBody => exact absurd rfl some
  | notRead => simp [initialBodyToState, IsPlain, notStream, plain]
  | data body => simp [initialBodyToState, IsPlain, notStream, plain]

/-- Without loss, the bodies that arrived are those of all events. -/
theorem arrivedOf_lossless {id : Nat} {direction : Direction} {delivery : Delivery}
    (lossless : ∀ p ∈ delivery, p.1.isAbout id direction = true → arrives p = true) :
    arrivedOf (marked id direction delivery) =
      (eventsAbout id direction delivery).filterMap ProxyEvent.body? := by
  rw [arrivedOf, List.filter_eq_self.mpr, Delivery.marked_fst]
  rintro ⟨data, flag⟩ hmem
  obtain ⟨p, hp, hdata⟩ := List.mem_filterMap.mp hmem
  obtain ⟨data', -, heq⟩ := Option.map_eq_some_iff.mp hdata
  obtain ⟨rfl, came⟩ : data' = data ∧ arrives p = flag := by simpa using heq
  obtain ⟨member, about⟩ := List.mem_filter.mp hp
  exact came.symm.trans (lossless p member about)

/-- Only an absent body is reported as absent. -/
theorem serialize_present {found : FoundBodyData} {initial : InitialBody Wire.ProxyHeaders}
    (present : found ≠ .noBody)
    (h : serializeInitialBody (initialBodyFromFound found) = .ok initial) : initial ≠ .noBody := by
  rintro rfl
  have data : ∀ body, serializeInitialBody (.data body) ≠ .ok .noBody := by
    intro body
    rw [serializeInitialBody]
    cases serializeBodyData body <;> simp [Except.map]
  cases found with
  | noBody => exact present rfl
  | noneRead => simp [initialBodyFromFound, serializeInitialBody] at h
  | partialData content => exact data _ h
  | complete content => exact data _ h

variable {β : Type} [HttpBody β] {env : TrackEnv} {head : Head} {body : β} {frames : List Frame}
  {runs : List ReporterRun} {id : Nat} {delivery : Delivery}

/-- A body that is no event stream, is not compressed and was read to its end
without an error is reconstructed from the messages, if all of them arrive. -/
theorem body_reconstructed (ends : (frames.map .ok, true) ∈ trace body)
    (notStream : isSSEContentType ((head.headers.get .contentType).bind HeaderValue.toStr) = false)
    (plain : head.headers.get .contentEncoding = none)
    (listening : env.listening = true) (spawns : env.spawns = true)
    (started : runs.map ReporterRun.start = (track env head.direction head.event body).reporters)
    (finished : Finished env body runs)
    (published : eventsAbout id head.direction delivery =
      bodyEvents (track env head.direction head.event body) runs)
    (lossless : ∀ p ∈ delivery, p.1.isAbout id head.direction = true → arrives p = true)
    (decompress : Bytes → Text → Option Bytes) :
    let state := (delivery.received.foldl Ui.apply .empty).body id head.direction
    (head.event .noBody ∈ eventsAbout id head.direction delivery ∧ dataBytes frames = [] ∧
        state = none) ∨
      ∃ b, state = some b ∧ b.atEnd = true ∧ b.wireBytes = (dataBytes frames).length ∧
        decodeBytes decompress b = some (dataBytes frames) := by
  intro state
  obtain ⟨found, parts, -, head', outcome⟩ :=
    bodyEvents_complete ends listening spawns started finished
  have events : eventsAbout id head.direction delivery =
      head.event found :: runs.flatMap fun r => r.state.published := by
    rw [published, bodyEvents, head']
    rfl
  obtain ⟨headers, initial, more, hreports, sameHeaders, sameBody⟩ :=
    reports_eq_head events lossless
  have folded : state = (BodyReport.head headers initial :: more).foldl BodyReport.step none := by
    rw [← hreports]
    exact Ui.foldl_apply_body _ _ _ _
  have tail := Delivery.reports_tail env head body started published
  rw [hreports, List.tail_cons] at tail
  rcases outcome with ⟨rfl, rfl, rfl⟩ | ⟨present, before, last, bodies, atEnd, payload⟩
  · have sub := Delivery.reports_heads id head.direction delivery
    rw [hreports, events] at sub
    have alone : more = [] := by simpa using sub.length_le
    obtain rfl := Except.ok.inj sameBody
    refine .inl ⟨by rw [events]; exact List.mem_cons_self, rfl, ?_⟩
    rw [folded, alone]
    rfl
  · have plainState : IsPlain state := by
      rw [folded, List.foldl_cons]
      refine foldl_plain tail (initialBodyToState_plain (serialize_present present sameBody) ?_ ?_)
      · exact (congrArg isSSEContentType (getHeader_ofMap sameHeaders .contentType)).trans notStream
      · exact (getHeader_ofMap sameHeaders .contentEncoding).trans (by rw [plain]; rfl)
    rcases held : state with _ | b
    · rw [held] at plainState
      exact plainState.elim
    · rw [held] at plainState
      obtain ⟨chunks, ends', total⟩ := stored_complete started published held plainState.1
      obtain ⟨contiguous, -⟩ := bodyEvents_contiguous env head body started
      have all : arrivedOf (marked id head.direction delivery) = before ++ [last] := by
        rw [arrivedOf_lossless lossless, published, bodies]
      rw [all] at chunks ends' total
      rw [bodies] at contiguous
      refine .inr ⟨b, rfl, by rw [ends', lastAtEnd_concat, atEnd], ?_, ?_⟩
      · rw [total, lastTotal_concat, contiguous_total contiguous, payload, Nat.zero_add]
      · simp only [decodeBytes, plainState.2, concatenate_chunks, chunks, payload]

end Whole

section Prefixed

theorem body_reconstructed_late : ∃ b,
    ((lateDelivery [true, true, true]).received.foldl Ui.apply .empty).body 7 .response = some b ∧
      decodeBytes (fun _ _ => none) b = some [97] := by
  have ends : ([.ok (.data [97])], true) ∈ trace lateBody := ⟨4, rfl⟩
  have finished : Finished lateTrack lateBody [lateRun] := by
    refine ⟨by decide, List.forall_mem_singleton.mpr (.inl rfl), List.forall_mem_singleton.mpr rfl,
      fun found parts hc r hr => ?_⟩
    obtain rfl := List.mem_singleton.mp hr
    obtain ⟨-, rfl⟩ := Prod.mk.inj (Except.ok.inj hc)
    exact ⟨2, rfl⟩
  rcases @body_reconstructed _ _ lateTrack (okHead .new) lateBody [.data [97]] [lateRun] 7
    (lateDelivery [true, true, true]) ends rfl rfl rfl rfl rfl finished rfl (by decide)
    (fun _ _ => none) with
    ⟨-, empty, -⟩ | ⟨b, held, -, -, bytes⟩
  · cases empty
  · exact ⟨b, held, bytes⟩

private def prefixedType : HeaderMap :=
  ⟨[⟨.contentType, ⟨"text/event-streamx".toUTF8.toList, by decide +kernel⟩, []⟩], by decide⟩

/-- Fully prefetched, so that it is reported with its head. -/
private def readyBody : Script BodyStreamItem := ⟨[.ready (some (.ok (.data [97])))]⟩

private def prefixedTracked : Tracked :=
  track lateTrack .response (okHead prefixedType).event readyBody

private def prefixedDelivery : Delivery :=
  (bodyEvents prefixedTracked []).map fun e => (⟨⟨7, ""⟩, .response, e⟩, true)

/-- Another type that only starts like an event stream loses its bytes. -/
theorem body_lost_prefixed :
    (prefixedType.get .contentType).bind HeaderValue.toStr = some "text/event-streamx" ∧
      prefixedTracked.reporters = [] ∧
      ([.ok (.data [97])], true) ∈ trace readyBody ∧
      (∀ p ∈ prefixedDelivery, arrives p = true) ∧
      ∃ b, (prefixedDelivery.received.foldl Ui.apply .empty).body 7 .response = some b ∧
        decodeBytes (fun _ _ => none) b = some [] := by
  refine ⟨by decide +kernel, rfl, ⟨2, rfl⟩, by decide +kernel, ?_⟩
  have stored : ((prefixedDelivery.received.foldl Ui.apply .empty).body 7 .response).map
      (decodeBytes fun _ _ => none) = some (some []) := by decide +kernel
  exact Option.map_eq_some_iff.mp stored

end Prefixed

end Protospy
