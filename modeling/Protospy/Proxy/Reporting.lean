import Protospy.Lib.Machine
import Protospy.Proxy.Event

/-!
# The buffered body reporter (`reporting.rs`)

Two tasks share a byte buffer and a bounded channel. The collector appends the
data of a frame to the buffer and then sends a notification, which may have to
wait for a slot. The reporter receives notifications, flushes the buffer when
its timer fires, and publishes the rest when the channel is closed or the end of
the body is signalled. Every step of either task is an action, so a run is an
interleaving; whether anybody listens when an event is published is part of the
action, and publishing to nobody fails.
-/

namespace Protospy

open Event (BodyContent BodyData)

inductive BodyEvent where
  | data
  | trailers (map : HeaderMap)
  | error (message : String)
  | eof
  deriving DecidableEq

def mpscBufferSize : Nat := 1

/-- `dataPending` is the local variable of `run` that arms the flush timer. -/
structure BufferedDataReporter where
  direction : Direction
  trailers : Option HeaderMap
  seen : Bool
  totalBytes : Nat
  dataPending : Bool

namespace BufferedDataReporter

def new (direction : Direction) (prevBytes : Nat) : BufferedDataReporter :=
  ⟨direction, none, 0 < prevBytes, prevBytes, false⟩

/-- Take everything out of the buffer. -/
def takeContent (r : BufferedDataReporter) (buffer : Bytes) :
    Option BodyContent × BufferedDataReporter :=
  if buffer = [] then (none, r)
  else (some ⟨r.totalBytes, buffer.length, .ofBytes buffer⟩,
    { r with totalBytes := r.totalBytes + buffer.length })

def buildBodyData (r : BufferedDataReporter) (atEnd : Bool) (buffer : Bytes) :
    BodyData Headers × BufferedDataReporter :=
  let (content, r) := r.takeContent buffer
  (⟨content, r.trailers.map Headers.ofMap, atEnd, r.totalBytes⟩, { r with trailers := none })

end BufferedDataReporter

/-- `ended` is the state after the end of the body was dispatched. -/
inductive CollectorPhase where
  | idle
  | sending (event : BodyEvent)
  | ended
  | dropped
  deriving DecidableEq

/-- `failed` is the return of `run` with an error. -/
inductive ReporterStatus where
  | running
  | returned
  | failed
  deriving DecidableEq

structure ReportingSystem where
  phase : CollectorPhase
  channel : List BodyEvent
  buffer : Bytes
  reporter : BufferedDataReporter
  status : ReporterStatus
  published : List ProxyEvent

/-- `drop` drops the collector when no frame is held back; `cancel` drops it
while the dispatch of a frame is waiting. -/
inductive ReportingAction where
  | dispatch (item : Option BodyStreamItem)
  | completeSend
  | drop
  | cancel
  | receive (listening : Bool)
  | flush (listening : Bool)

namespace ReportingAction

def frame? : ReportingAction → Option Frame
  | dispatch (some (.ok frame)) => some frame
  | _ => none

/-- The frames dispatched in a run. -/
def frames (acts : List ReportingAction) : List Frame := acts.filterMap frame?

/-- Whether anybody listens, for the actions that may publish. -/
def heard : ReportingAction → Bool
  | receive listening => listening
  | flush listening => listening
  | _ => true

end ReportingAction

/-- The bytes that `dispatch` appends to the buffer. -/
def dispatchedBytes : Option BodyStreamItem → Bytes
  | some (.ok (.data bytes)) => bytes
  | _ => []

/-- The notification that `dispatch` sends. -/
def dispatchedEvent : Option BodyStreamItem → BodyEvent
  | some (.ok (.data _)) => .data
  | some (.ok (.trailers map)) => .trailers map
  | some (.error err) => .error err.toText
  | none => .eof

namespace ReportingSystem

/-- `create_buffered` together with the start of the reporter task. -/
def createBuffered (direction : Direction) (prevBytes : Nat) : ReportingSystem :=
  ⟨.idle, [], [], .new direction prevBytes, .running, []⟩

def dispatch (s : ReportingSystem) (item : Option BodyStreamItem) : ReportingSystem :=
  { s with phase := .sending (dispatchedEvent item), buffer := s.buffer ++ dispatchedBytes item }

def enqueue (s : ReportingSystem) (event : BodyEvent) : ReportingSystem :=
  { s with phase := if event = .eof then .ended else .idle, channel := s.channel ++ [event] }

def closeCollector (s : ReportingSystem) : ReportingSystem := { s with phase := .dropped }

/-- `send_event`: publishing to nobody is an error, which ends `run`. -/
def sendEvent (s : ReportingSystem) (listening : Bool) (event : ProxyEvent) : ReportingSystem :=
  if listening then { s with published := s.published ++ [event] }
  else { s with status := .failed }

def sendData (s : ReportingSystem) (atEnd listening : Bool) : ReportingSystem :=
  let (body, reporter) := s.reporter.buildBodyData atEnd s.buffer
  { s with buffer := [], reporter := reporter }.sendEvent listening (.bodyData body)

/-- `send_data(true)?; return Ok(())`. -/
def finish (s : ReportingSystem) (listening : Bool) : ReportingSystem :=
  let s := s.sendData true listening
  if listening then { s with status := .returned } else s

/-- The arm of the flush timer. -/
def flushData (s : ReportingSystem) (listening : Bool) : ReportingSystem :=
  let s := s.sendData false listening
  if listening then { s with reporter := { s.reporter with dataPending := false } } else s

/-- The arms of the receive, for a notification that was taken off the channel. -/
def handle (s : ReportingSystem) (listening : Bool) : BodyEvent → ReportingSystem
  | .data => { s with reporter := { s.reporter with seen := true, dataPending := true } }
  | .trailers map => { s with reporter := { s.reporter with trailers := some map } }
  | .error message => s.sendEvent listening (.error s.reporter.direction
      ("body error (" ++ s.reporter.direction.toText ++ "): " ++ message))
  | .eof => s.finish listening

def step (s : ReportingSystem) : ReportingAction → Option ReportingSystem
  | .dispatch item => if s.phase = .idle then some (s.dispatch item) else none
  | .completeSend => match s.phase with
    | .sending event =>
      if s.status ≠ .running then some s.closeCollector
      else if s.channel.length < mpscBufferSize then some (s.enqueue event)
      else none
    | _ => none
  | .drop => match s.phase with
    | .idle | .ended | .sending .eof => some s.closeCollector
    | _ => none
  | .cancel => match s.phase with
    | .sending event => if event = .eof then none else some s.closeCollector
    | _ => none
  | .receive listening =>
    if s.status ≠ .running then none
    else match s.channel with
      | event :: rest => some ({ s with channel := rest }.handle listening event)
      | [] => if s.phase = .dropped then some (s.finish listening) else none
  | .flush listening =>
    if s.status = .running ∧ s.reporter.dataPending = true then some (s.flushData listening)
    else none

/-- The steps again, one constructor for each way the code can go. -/
inductive Steps (s : ReportingSystem) : ReportingAction → ReportingSystem → Prop where
  | dispatch (item : Option BodyStreamItem) (idle : s.phase = .idle) :
      Steps s (.dispatch item) (s.dispatch item)
  | enqueue (event : BodyEvent) (sending : s.phase = .sending event)
      (running : s.status = .running) : Steps s .completeSend (s.enqueue event)
  | sendFails (event : BodyEvent) (sending : s.phase = .sending event)
      (stopped : s.status ≠ .running) : Steps s .completeSend s.closeCollector
  | drop (held : s.phase = .idle ∨ s.phase = .ended ∨ s.phase = .sending .eof) :
      Steps s .drop s.closeCollector
  | cancel (event : BodyEvent) (sending : s.phase = .sending event) (frame : event ≠ .eof) :
      Steps s .cancel s.closeCollector
  | receive (event : BodyEvent) (rest : List BodyEvent) (listening : Bool)
      (running : s.status = .running) (queued : s.channel = event :: rest) :
      Steps s (.receive listening) ({ s with channel := rest }.handle listening event)
  | closed (listening : Bool) (running : s.status = .running) (empty : s.channel = [])
      (dropped : s.phase = .dropped) : Steps s (.receive listening) (s.finish listening)
  | flush (listening : Bool) (running : s.status = .running)
      (pending : s.reporter.dataPending = true) :
      Steps s (.flush listening) (s.flushData listening)

theorem steps_of_step {s t : ReportingSystem} {a : ReportingAction} (h : s.step a = some t) :
    Steps s a t := by
  cases a with
  | dispatch item =>
    simp only [step] at h
    split at h
    · obtain rfl := Option.some.inj h
      exact .dispatch item ‹_›
    · cases h
  | completeSend =>
    simp only [step] at h
    split at h
    · split at h
      · obtain rfl := Option.some.inj h
        exact .sendFails _ ‹_› ‹_›
      · split at h
        · obtain rfl := Option.some.inj h
          exact .enqueue _ ‹_› (by simpa using ‹¬ s.status ≠ .running›)
        · cases h
    · cases h
  | drop =>
    simp only [step] at h
    split at h
    · obtain rfl := Option.some.inj h
      exact .drop (.inl ‹_›)
    · obtain rfl := Option.some.inj h
      exact .drop (.inr (.inl ‹_›))
    · obtain rfl := Option.some.inj h
      exact .drop (.inr (.inr ‹_›))
    · cases h
  | cancel =>
    simp only [step] at h
    split at h
    · split at h
      · cases h
      · obtain rfl := Option.some.inj h
        exact .cancel _ ‹_› ‹_›
    · cases h
  | receive listening =>
    simp only [step] at h
    split at h
    · cases h
    · have running : s.status = .running := by simpa using ‹¬ s.status ≠ .running›
      split at h
      · obtain rfl := Option.some.inj h
        exact .receive _ _ listening running ‹_›
      · split at h
        · obtain rfl := Option.some.inj h
          exact .closed listening running ‹_› ‹_›
        · cases h
  | flush listening =>
    simp only [step] at h
    split at h
    · rename_i armed
      obtain rfl := Option.some.inj h
      exact .flush listening armed.1 armed.2
    · cases h

end ReportingSystem

/-- A reporter together with the steps that brought it to its state. -/
structure ReporterRun where
  start : ReportingSystem
  acts : List ReportingAction
  state : ReportingSystem
  ran : Machine.run ReportingSystem.step start acts = some state

end Protospy
