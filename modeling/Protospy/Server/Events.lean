import Protospy.Lib.Broadcast
import Protospy.Proxy.Published

/-!
# The events endpoint (`server/events.rs`)

The endpoint turns what it receives from the broadcast channel into server-sent
events. A report of missed messages and a message that does not serialize are
logged and left out. Keep-alive events, which carry no data, are not modelled.
-/

namespace Protospy

open Broadcast (Received)
open Event (BodyData InitialBody)

inductive JsonError where
  | receive (missed : Nat)
  | serialize (err : SerializeError)

/-- The JSON of an event is kept as the value it denotes. -/
inductive SseItem where
  | comment (text : String)
  | event (name : String) (data : Wire.EventMessage)

/-- The closure that `json_stream` maps over what is received. -/
def renderJson : Received EventMessage → Except JsonError Wire.EventMessage
  | .lagged missed => .error (.receive missed)
  | .message msg => msg.serialize.mapError .serialize

def jsonStream (received : List (Received EventMessage)) : List (Except JsonError Wire.EventMessage) :=
  received.map renderJson

def handleEvents (received : List (Received EventMessage)) : List SseItem :=
  .comment "hello" :: ((jsonStream received).filterMap Except.toOption).map
    (.event "exchange-report")

/-! ## When a message is sent on -/

/-- The trailers found in the prefetch. -/
def FoundBodyData.trailers : FoundBodyData → Option HeaderMap
  | .partialData content => content.trailers
  | .complete content => content.trailers
  | _ => none

/-- The first value of every name is visible; the others are not reported. -/
def HeaderMap.FirstsVisible (map : HeaderMap) : Prop := ∀ e ∈ map.entries, e.first.IsVisible

theorem forall_ofMap (map : HeaderMap) :
    (∀ v ∈ (Headers.ofMap map).map Header.value, v.IsVisible) ↔ map.FirstsVisible := by
  simp [Headers.ofMap_eq, HeaderMap.FirstsVisible]

theorem initialBodyFromFound_visible (found : FoundBodyData) :
    (∀ v ∈ (initialBodyFromFound found).headerValues, v.IsVisible) ↔
      ∀ map ∈ found.trailers, map.FirstsVisible := by
  have content : ∀ (c : Body.BodyContent) (atEnd : Bool),
      (∀ v ∈ (bodyDataFromContent c atEnd).headerValues, v.IsVisible) ↔
        ∀ map ∈ c.trailers, map.FirstsVisible := by
    intro c atEnd
    unfold BodyData.headerValues bodyDataFromContent
    cases c.trailers with
    | none => simp
    | some map => simpa using forall_ofMap map
  cases found with
  | noBody => simp [initialBodyFromFound, InitialBody.headerValues, FoundBodyData.trailers]
  | noneRead => simp [initialBodyFromFound, InitialBody.headerValues, FoundBodyData.trailers]
  | partialData c => exact content c false
  | complete c => exact content c true

theorem head_event_visible (head : Head) (found : FoundBodyData) :
    (∀ v ∈ (head.event found).headerValues, v.IsVisible) ↔
      head.headers.FirstsVisible ∧ ∀ map ∈ found.trailers, map.FirstsVisible := by
  rw [← forall_ofMap, ← initialBodyFromFound_visible, ← List.forall_mem_append]
  cases head <;> rfl

theorem renderJson_isSome (msg : EventMessage) :
    (renderJson (.message msg)).toOption.isSome = msg.serialize.toOption.isSome := by
  dsimp only [renderJson]
  cases msg.serialize <;> rfl

theorem handleEvents_cons_message (msg : EventMessage) (received : List (Received EventMessage)) :
    (handleEvents (.message msg :: received)).length =
      (handleEvents received).length + if msg.serialize.toOption.isSome then 1 else 0 := by
  rw [← renderJson_isSome]
  cases h : (renderJson (.message msg)).toOption <;>
    simp [handleEvents, jsonStream, h]

theorem handleEvents_length_le (received : List (Received EventMessage)) :
    (handleEvents received).length ≤ (received.filterMap Received.message?).length + 1 := by
  induction received with
  | nil => exact le_refl _
  | cons r received ih =>
    cases r with
    | lagged missed => exact ih
    | message msg =>
      rw [handleEvents_cons_message, Received.message?_cons, List.length_cons]
      split <;> omega

/-- As many events are sent as messages are received exactly when all of them
serialize. -/
theorem handleEvents_length_iff (received : List (Received EventMessage)) :
    (handleEvents received).length = (received.filterMap Received.message?).length + 1 ↔
      ∀ msg ∈ received.filterMap Received.message?, msg.serialize.toOption.isSome = true := by
  induction received with
  | nil => exact ⟨fun _ msg h => absurd h List.not_mem_nil, fun _ => rfl⟩
  | cons r received ih =>
    cases r with
    | lagged missed => exact ih
    | message msg =>
      have le := handleEvents_length_le received
      rw [handleEvents_cons_message, Received.message?_cons, List.length_cons,
        List.forall_mem_cons, ← ih]
      cases msg.serialize.toOption.isSome with
      | false => simp; omega
      | true => simp

/-- Which events the proxy builds serialize, and when the endpoint sends one
event for every message it receives. -/
theorem messages_delivered_iff (exchange : ExchangeMeta) (head : Head) (found : FoundBodyData)
    (body : BodyData Headers) (received : List (Received EventMessage)) :
    ((∃ w, (EventMessage.mk exchange head.direction (head.event found)).serialize = .ok w) ↔
        head.headers.FirstsVisible ∧ ∀ map ∈ found.trailers, map.FirstsVisible) ∧
      ((∃ w, (EventMessage.mk exchange head.direction (.bodyData body)).serialize = .ok w) ↔
        ∀ header ∈ body.trailers.getD [], header.value.IsVisible) ∧
      ((handleEvents received).length = (received.filterMap Received.message?).length + 1 ↔
        ∀ msg ∈ received.filterMap Received.message?, ∀ v ∈ msg.event.headerValues,
          v.IsVisible) := by
  refine ⟨?_, ?_, ?_⟩
  · rw [exists_ok_iff, serialize_isSome]
    exact head_event_visible head found
  · rw [exists_ok_iff, serialize_isSome]
    exact List.forall_mem_map
  · rw [handleEvents_length_iff]
    exact forall₂_congr fun msg _ => serialize_isSome msg

section ObsText

/-- A response whose server name is in Latin-1. -/
private def latinHead : Head :=
  .response ⟨.ok, .http11, ⟨[⟨.server, ⟨[0xE9], by decide⟩, []⟩], by decide⟩⟩ 3

private def latinMessage : EventMessage := ⟨⟨7, ""⟩, .response, latinHead.event .noBody⟩

theorem latinMessage_dropped :
    (∀ w, latinMessage.serialize ≠ .ok w) ∧
      (handleEvents [.message latinMessage]).length = 1 := by
  have fails : latinMessage.serialize.toOption.isSome = false := by decide
  refine ⟨fun w h => ?_, rfl⟩
  simp [h, Except.toOption] at fails

end ObsText

end Protospy
