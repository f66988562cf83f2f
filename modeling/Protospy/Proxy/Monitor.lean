import Protospy.Lib.Broadcast
import Protospy.Proxy.Event

/-!
# The observers of a service (`monitor.rs`)

The logger prints what a service publishes, the recorder writes it to files of
one folder. Both are loops that nothing but an error ends: the channel is never
closed, because the group of services keeps a sender. Whether the output can be
written is an input of each turn.
-/

namespace Protospy

open Broadcast (Channel Received)

def bufsize : Nat := 256

abbrev Publisher := Channel EventMessage

def Publisher.new : Publisher := Channel.new bufsize

/-- What ends a task of the main task set. A panic reaches `join_next` as a
`JoinError`. -/
inductive TaskError where
  | bind
  | accept
  | peerAddr
  | spawn
  | receive (missed : Nat)
  | serialize (err : SerializeError)
  | write
  | panic

inductive Task where
  | running
  | ended (err : TaskError)

def Task.isRunning : Task → Bool
  | .running => true
  | .ended _ => false

def Task.error? : Task → Option TaskError
  | .running => none
  | .ended err => some err

structure Observer (σ : Type) where
  position : Nat
  state : σ
  task : Task

variable {σ : Type}

/-- One turn of an observer's loop; `none` while it waits for a message and once
it has ended. -/
def Observer.turn (body : σ → EventMessage → Except TaskError σ) (publisher : Publisher)
    (o : Observer σ) : Option (Observer σ) :=
  match o.task with
  | .ended _ => none
  | .running => (publisher.recv o.position).map fun (received, position) =>
    match received with
    | .lagged missed => { o with position := position, task := .ended (.receive missed) }
    | .message msg => match body o.state msg with
      | .ok state => { o with position := position, state := state }
      | .error err => { o with position := position, task := .ended err }

/-- `serde_json::to_string_pretty`. -/
def render (msg : EventMessage) : Except TaskError Wire.EventMessage :=
  msg.serialize.mapError .serialize

/-! ## The logger -/

structure Logger where
  printed : List Wire.EventMessage

/-- What `run_logger` does with a message. `eprintln!` panics when it cannot
write. -/
def Logger.body (written : Bool) (l : Logger) (val : EventMessage) : Except TaskError Logger := do
  let rendered ← render val
  if written then .ok ⟨l.printed ++ [rendered]⟩ else .error .panic

/-! ## The recorder -/

/-- A counter of zero stands for a missing entry. `files` are the writes in
order. -/
structure Writer where
  frameCounters : Nat → Direction → Nat
  files : List (String × Wire.EventMessage)

namespace Writer

def new : Writer := ⟨fun _ _ => 0, []⟩

def dataSeq (w : Writer) (id : Nat) (direction : Direction) : Nat × Writer :=
  let seq := w.frameCounters id direction + 1
  (seq, { w with frameCounters := fun id' direction' =>
    if id' = id ∧ direction' = direction then seq else w.frameCounters id' direction' })

def eventFilename (w : Writer) (msg : EventMessage) : String × Writer :=
  let (base, w) := match msg.event with
    | .request .. => ("request", w)
    | .response .. => ("response", w)
    | .bodyData _ =>
      let (seq, w) := w.dataSeq msg.exchange.exchangeId msg.direction
      (msg.direction.toText ++ "-data-" ++ toString seq, w)
    | .error .. => (msg.direction.toText ++ "-error", w)
  ("e" ++ toString msg.exchange.exchangeId ++ "-" ++ base ++ ".json", w)

/-- What `Writer::run` does with a message. -/
def body (written : Bool) (w : Writer) (message : EventMessage) : Except TaskError Writer := do
  let (filename, w) := w.eventFilename message
  let rendered ← render message
  if written then .ok { w with files := w.files ++ [(filename, rendered)] } else .error .write

end Writer

/-! ## When a turn ends the task -/

/-- The observer is too far behind, or its next message has a header value
without a text form, or the output cannot be written. -/
def Observer.Fails (publisher : Publisher) (o : Observer σ) (written : Bool) : Prop :=
  publisher.Lags o.position ∨ ∃ msg, publisher.sent[o.position]? = some msg ∧
    (written = false ∨ ∃ v ∈ msg.event.headerValues, ¬ v.IsVisible)

theorem render_isSome (msg : EventMessage) :
    (render msg).toOption.isSome = true ↔ ∀ v ∈ msg.event.headerValues, v.IsVisible := by
  rw [← serialize_isSome, render]
  cases msg.serialize <;> rfl

theorem Logger.body_isSome (written : Bool) (l : Logger) (val : EventMessage) :
    (l.body written val).toOption.isSome = true ↔
      written = true ∧ ∀ v ∈ val.event.headerValues, v.IsVisible := by
  rw [← render_isSome, Logger.body]
  cases render val <;> cases written <;> simp [bind, Except.bind, Except.toOption]

theorem Writer.body_isSome (written : Bool) (w : Writer) (message : EventMessage) :
    (w.body written message).toOption.isSome = true ↔
      written = true ∧ ∀ v ∈ message.event.headerValues, v.IsVisible := by
  rw [← render_isSome, Writer.body]
  cases render message <;> cases written <;> simp [bind, Except.bind, Except.toOption]

/-- What ends an observer: a turn of a running observer leaves it running unless
it fails. -/
theorem Observer.turn_running_iff {body : σ → EventMessage → Except TaskError σ} {written : Bool}
    {publisher : Publisher} {o o' : Observer σ}
    (works : ∀ state msg, (body state msg).toOption.isSome = true ↔
      written = true ∧ ∀ v ∈ msg.event.headerValues, v.IsVisible)
    (h : o.turn body publisher = some o') :
    o'.task.isRunning = true ↔ o.task.isRunning = true ∧ ¬ o.Fails publisher written := by
  cases ht : o.task with
  | ended err => simp [Observer.turn, ht] at h
  | running =>
    simp only [Observer.turn, ht, Option.map_eq_some_iff, Prod.exists] at h
    obtain ⟨received, position, hrecv, rfl⟩ := h
    cases received with
    | lagged missed =>
      have lags := Channel.recv_lagged hrecv
      simp [Task.isRunning, Observer.Fails, lags]
    | message msg =>
      obtain ⟨kept, next, -⟩ := (Channel.recv_message_iff _ _ _ _).mp hrecv
      have fails : o.Fails publisher written ↔ ¬ (body o.state msg).toOption.isSome = true := by
        rw [works]
        simp only [Observer.Fails, kept, next, false_or, Option.some.injEq, exists_eq_left']
        rw [not_and_or, Bool.not_eq_true, not_forall₂]
        simp only [exists_prop]
      rw [fails]
      cases hb : body o.state msg <;> simp [Task.isRunning, Except.toOption, hb]

end Protospy
