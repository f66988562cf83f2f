import Protospy.Lib.Machine
import Protospy.Delivery
import Protospy.Proxy.Monitor
import Protospy.Server.Events

/-!
# The event streams of a service (`server/events.rs`, `monitor.rs`)

Any number of clients read the events of a service, each at its own pace. What a client is
sent is a delivery of the messages published since it connected.
-/

namespace Protospy

open Broadcast (Channel Received)

/-- `start` is the position at which the client connected. -/
structure EventStream where
  start : Nat
  position : Nat
  received : List (Received EventMessage)
  isOpen : Bool

/-- `others` counts the receivers that are not event streams. -/
structure EventStreams where
  publisher : Publisher
  others : Nat
  streams : List EventStream

inductive StreamAction where
  | publish (msg : EventMessage)
  | connect
  | disconnect (index : Nat)
  | poll (index : Nat)

namespace EventStream

/-- One turn of the stream of `handle_events`. -/
def poll (publisher : Publisher) (c : EventStream) : Option EventStream :=
  if c.isOpen then
    (publisher.recv c.position).map fun (received, position) =>
      { c with position := position, received := c.received ++ [received] }
  else none

def close (c : EventStream) : Option EventStream :=
  if c.isOpen then some { c with isOpen := false } else none

end EventStream

namespace EventStreams

def start (others : Nat) : EventStreams := ⟨.new, others, []⟩

def listenerCount (s : EventStreams) : Nat := s.others + s.streams.countP EventStream.isOpen

def step (s : EventStreams) : StreamAction → Option EventStreams
  | .publish msg =>
    if s.listenerCount = 0 then some s else some { s with publisher := s.publisher.send msg }
  | .connect =>
    let position := s.publisher.subscribe
    some { s with streams := s.streams ++ [⟨position, position, [], true⟩] }
  | .disconnect index => (s.streams[index]?).bind fun c =>
    c.close.map fun c => { s with streams := s.streams.set index c }
  | .poll index => (s.streams[index]?).bind fun c =>
    (c.poll s.publisher).map fun c => { s with streams := s.streams.set index c }

end EventStreams

/-! ## What a client is sent -/

/-- The number of messages that a client is told it missed. -/
def missedCount (received : List (Received EventMessage)) : Nat :=
  (received.map fun r => match r with
    | .lagged missed => missed
    | .message _ => 0).sum

/-- The data of the events that the client hears of. -/
def exchangeReports (items : List SseItem) : List Wire.EventMessage :=
  items.filterMap fun item => match item with
    | .event _ data => some data
    | .comment _ => none

theorem exchangeReports_handleEvents (received : List (Received EventMessage)) :
    exchangeReports (handleEvents received) = (jsonStream received).filterMap Except.toOption := by
  rw [handleEvents, exchangeReports, List.filterMap_cons_none rfl, List.filterMap_map]
  exact List.filterMap_some

/-- What is received of a window of messages: some are missed, in stretches, and the others
arrive if they have a text form. -/
structure Delivers (window : List EventMessage) (got : List (Received EventMessage))
    (delivery : Delivery) : Prop where
  sent : delivery.map Prod.fst = window
  reports : exchangeReports (handleEvents got) = delivery.received
  missed : delivery.countP (fun p => !p.2) = missedCount got

theorem delivers_nil : Delivers [] [] [] := ⟨rfl, rfl, rfl⟩

theorem Delivers.message {window : List EventMessage} {got : List (Received EventMessage)}
    {delivery : Delivery} (h : Delivers window got delivery) (msg : EventMessage) :
    Delivers (window ++ [msg]) (got ++ [.message msg]) (delivery ++ [(msg, true)]) := by
  refine ⟨?_, ?_, ?_⟩
  · rw [List.map_append, h.sent]
    rfl
  · have earlier := h.reports
    rw [exchangeReports_handleEvents, jsonStream] at earlier ⊢
    rw [List.map_append, List.filterMap_append, earlier, Delivery.received_append]
    refine congrArg (delivery.received ++ ·) ?_
    cases serialized : msg.serialize <;>
      simp [renderJson, serialized, Except.mapError, Except.toOption, Delivery.received,
        Delivery.wire?]
  · rw [List.countP_append, h.missed, missedCount, missedCount, List.map_append, List.sum_append]
    rfl

theorem Delivers.lagged {window : List EventMessage} {got : List (Received EventMessage)}
    {delivery : Delivery} (h : Delivers window got delivery) (late : List EventMessage) :
    Delivers (window ++ late) (got ++ [.lagged late.length])
      (delivery ++ late.map fun msg => (msg, false)) := by
  have nothing : Delivery.received (late.map fun msg => (msg, false)) = [] := by
    rw [Delivery.received, List.filterMap_map, List.filterMap_eq_nil_iff]
    exact fun msg _ => rfl
  refine ⟨?_, ?_, ?_⟩
  · rw [List.map_append, h.sent, List.map_map]
    exact congrArg (window ++ ·) (List.map_id late)
  · have earlier := h.reports
    rw [exchangeReports_handleEvents, jsonStream] at earlier ⊢
    rw [List.map_append, List.filterMap_append, earlier, Delivery.received_append, nothing]
    rfl
  · have all : (late.map fun msg => (msg, false)).countP (fun p => !p.2) = late.length := by
      rw [List.countP_map]
      exact List.countP_eq_length.mpr fun _ _ => rfl
    rw [List.countP_append, h.missed, all, missedCount, missedCount, List.map_append,
      List.sum_append]
    rfl

/-- The client has been sent the messages since it connected, up to where it reads. -/
structure EventStream.Served (publisher : Publisher) (c : EventStream) : Prop where
  connected : c.start ≤ c.position
  reached : c.position ≤ publisher.sent.length
  delivers : ∃ delivery, Delivers (publisher.window c.start c.position) c.received delivery

theorem EventStream.Served.poll {publisher : Publisher} {c c' : EventStream}
    (ok : c.Served publisher) (h : c.poll publisher = some c') : c'.Served publisher := by
  rw [EventStream.poll] at h
  split at h
  · obtain ⟨⟨received, position⟩, got, rfl⟩ := Option.map_eq_some_iff.mp h
    obtain ⟨delivery, delivers⟩ := ok.delivers
    have split := fun stop (late : c.position ≤ stop) =>
      publisher.window_split ok.connected late ok.reached
    cases received with
    | lagged missed =>
      obtain ⟨later, sent, rfl⟩ := Channel.recv_lagged_eq got
      have late := delivers.lagged (publisher.window c.position position)
      rw [publisher.length_window sent, ← split _ later.le] at late
      exact ⟨ok.connected.trans later.le, sent, _, late⟩
    | message msg =>
      obtain ⟨-, next, rfl⟩ := (Channel.recv_message_iff _ _ _ _).mp got
      obtain ⟨bound, -⟩ := List.getElem?_eq_some_iff.mp next
      have more := delivers.message msg
      rw [← publisher.window_succ next, ← split _ (Nat.le_succ _)] at more
      exact ⟨ok.connected.trans (Nat.le_succ _), bound, _, more⟩
  · cases h

theorem EventStreams.served_run {others : Nat} {acts : List StreamAction} {s : EventStreams}
    (ran : Machine.run step (start others) acts = some s) :
    ∀ c ∈ s.streams, c.Served s.publisher := by
  refine Machine.run_invariant (P := fun s : EventStreams => ∀ c ∈ s.streams, c.Served s.publisher)
    (fun s a t all taken => ?_) (fun c member => absurd member List.not_mem_nil) ran
  cases a with
  | publish msg =>
    rw [step] at taken
    split at taken
    · obtain rfl := Option.some.inj taken
      exact all
    · obtain rfl := Option.some.inj taken
      intro c member
      obtain ⟨connected, reached, delivery, delivers⟩ := all c member
      refine ⟨connected, reached.trans ?_, delivery, ?_⟩
      · simp [Channel.send]
      · dsimp only
        rwa [s.publisher.window_send msg reached]
  | connect =>
    obtain rfl := Option.some.inj taken
    intro c member
    rcases List.mem_append.mp member with old | new
    · exact all c old
    · obtain rfl := List.mem_singleton.mp new
      refine ⟨le_rfl, le_rfl, [], ?_⟩
      dsimp only
      rw [s.publisher.window_self]
      exact delivers_nil
  | disconnect index =>
    obtain ⟨c, here, taken⟩ := Option.bind_eq_some_iff.mp taken
    obtain ⟨c', closed, rfl⟩ := Option.map_eq_some_iff.mp taken
    intro other member
    rcases List.mem_or_eq_of_mem_set member with old | rfl
    · exact all other old
    · rw [EventStream.close] at closed
      split at closed
      · obtain rfl := Option.some.inj closed
        exact ⟨(all c (List.mem_of_getElem? here)).connected,
          (all c (List.mem_of_getElem? here)).reached,
          (all c (List.mem_of_getElem? here)).delivers⟩
      · cases closed
  | poll index =>
    obtain ⟨c, here, taken⟩ := Option.bind_eq_some_iff.mp taken
    obtain ⟨c', polled, rfl⟩ := Option.map_eq_some_iff.mp taken
    intro other member
    rcases List.mem_or_eq_of_mem_set member with old | rfl
    · exact all other old
    · exact (all c (List.mem_of_getElem? here)).poll polled

/-- No open stream is further behind than the channel keeps. -/
def EventStreams.KeepsUp (s : EventStreams) : Prop :=
  ∀ c ∈ s.streams, c.isOpen = true → s.publisher.sent.length ≤ c.position + bufsize

theorem EventStreams.capacity_run {others : Nat} {acts : List StreamAction} {s : EventStreams}
    (ran : Machine.run step (start others) acts = some s) : s.publisher.capacity = bufsize := by
  refine Machine.run_invariant (P := fun s : EventStreams => s.publisher.capacity = bufsize)
    (fun s a t same taken => ?_) rfl ran
  cases a with
  | publish msg =>
    rw [step] at taken
    split at taken <;> obtain rfl := Option.some.inj taken <;> exact same
  | connect =>
    obtain rfl := Option.some.inj taken
    exact same
  | disconnect index | poll index =>
    obtain ⟨c, -, taken⟩ := Option.bind_eq_some_iff.mp taken
    obtain ⟨c', -, rfl⟩ := Option.map_eq_some_iff.mp taken
    exact same

theorem EventStreams.missed_run {others : Nat} {acts : List StreamAction} {s : EventStreams}
    (ran : Machine.run step (start others) acts = some s)
    (keepsUp : Machine.EachStep step (fun m _ _ => m.KeepsUp) (start others) acts) :
    ∀ c ∈ s.streams, missedCount c.received = 0 := by
  refine Machine.run_history (P := fun acts (s : EventStreams) =>
    Machine.EachStep step (fun m _ _ => m.KeepsUp) (start others) acts →
      ∀ c ∈ s.streams, missedCount c.received = 0)
    (fun _ c member => absurd member List.not_mem_nil) (fun acts s a t reached ih taken each => ?_)
    ran keepsUp
  have all := ih each.front
  have close := each.last reached taken
  cases a with
  | publish msg =>
    rw [step] at taken
    split at taken <;> obtain rfl := Option.some.inj taken <;> exact all
  | connect =>
    obtain rfl := Option.some.inj taken
    intro c member
    rcases List.mem_append.mp member with old | new
    · exact all c old
    · obtain rfl := List.mem_singleton.mp new
      rfl
  | disconnect index =>
    obtain ⟨c, here, taken⟩ := Option.bind_eq_some_iff.mp taken
    obtain ⟨c', closed, rfl⟩ := Option.map_eq_some_iff.mp taken
    intro other member
    rcases List.mem_or_eq_of_mem_set member with old | rfl
    · exact all other old
    · rw [EventStream.close] at closed
      split at closed
      · obtain rfl := Option.some.inj closed
        exact all c (List.mem_of_getElem? here)
      · cases closed
  | poll index =>
    obtain ⟨c, here, taken⟩ := Option.bind_eq_some_iff.mp taken
    obtain ⟨c', polled, rfl⟩ := Option.map_eq_some_iff.mp taken
    intro other member
    rcases List.mem_or_eq_of_mem_set member with old | rfl
    · exact all other old
    · have before := all c (List.mem_of_getElem? here)
      rw [EventStream.poll] at polled
      split at polled
      · rename_i opened
        obtain ⟨⟨received, position⟩, got, rfl⟩ := Option.map_eq_some_iff.mp polled
        cases received with
        | lagged missed =>
          have lags := Channel.recv_lagged got
          have near := close c (List.mem_of_getElem? here) opened
          rw [Channel.Lags, capacity_run reached] at lags
          omega
        | message msg =>
          dsimp only
          rw [missedCount, List.map_append, List.sum_append, ← missedCount, before]
          rfl
      · cases polled

/-- In every run, with any number of clients that connect, read and leave in any order: what
a client is sent is the messages published since it connected up to where it reads, in order,
but for those without a text form and those it is told it missed. None is missed where no
client falls further behind than the channel keeps. -/
theorem EventStreams.stream_delivers {others : Nat} {acts : List StreamAction} {s : EventStreams}
    (ran : Machine.run step (start others) acts = some s) {c : EventStream}
    (member : c ∈ s.streams) :
    c.start ≤ c.position ∧ c.position ≤ s.publisher.sent.length ∧
    ∃ delivery, Delivers (s.publisher.window c.start c.position) c.received delivery ∧
      (Machine.EachStep step (fun m _ _ => m.KeepsUp) (start others) acts →
        ∀ p ∈ delivery, p.2 = true) := by
  obtain ⟨connected, reached, delivery, delivers⟩ := served_run ran c member
  refine ⟨connected, reached, delivery, delivers, fun keepsUp p here => ?_⟩
  have none := delivers.missed.trans (missed_run ran keepsUp c member)
  simpa using List.countP_eq_zero.mp none p here

section Example

private def resetMessage : EventMessage := ⟨⟨1, ""⟩, .request, .error .request "reset"⟩

/-- A client that connects after the first of two messages. -/
theorem stream_delivers_late : ∃ s : EventStreams, ∃ c ∈ s.streams,
    Machine.run EventStreams.step (EventStreams.start 1)
      [.publish resetMessage, .connect, .publish resetMessage, .poll 0] = some s ∧
    c.start = 1 ∧ ∃ delivery, Delivers (s.publisher.window 1 2) c.received delivery := by
  have ran : Machine.run EventStreams.step (EventStreams.start 1)
      [.publish resetMessage, .connect, .publish resetMessage, .poll 0] = some _ := rfl
  obtain ⟨-, -, delivery, delivers, -⟩ := EventStreams.stream_delivers ran List.mem_cons_self
  exact ⟨_, _, List.mem_cons_self, ran, rfl, delivery, delivers⟩

end Example

end Protospy
