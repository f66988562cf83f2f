import Protospy.Proxy.Reporting

/-!
# Integrity of the reported stream

The published payloads and the bytes still in the buffer are always the data
dispatched so far, offsets and totals count the payloads published, and the
final event is the one that `run` publishes before it returns.
-/

namespace Protospy

open Event (BodyContent BodyData)
open Machine (run run_history)

def ProxyEvent.bodyData? : ProxyEvent → Option (BodyData Headers)
  | .bodyData body => some body
  | _ => none

def bodyDatas (events : List ProxyEvent) : List (BodyData Headers) :=
  events.filterMap ProxyEvent.bodyData?

theorem bodyDatas_append (events more : List ProxyEvent) :
    bodyDatas (events ++ more) = bodyDatas events ++ bodyDatas more :=
  List.filterMap_append

section Payload

variable {H : Type}

def Event.BodyData.payload (body : BodyData H) : Bytes :=
  (body.content.map fun c => c.payload.bytes).getD []

def payloads (bodies : List (BodyData H)) : Bytes := bodies.flatMap Event.BodyData.payload

@[simp] theorem payloads_nil : payloads ([] : List (BodyData H)) = [] := rfl

@[simp] theorem payloads_cons (body : BodyData H) (bodies : List (BodyData H)) :
    payloads (body :: bodies) = body.payload ++ payloads bodies := rfl

@[simp] theorem payloads_append (bodies more : List (BodyData H)) :
    payloads (bodies ++ more) = payloads bodies ++ payloads more :=
  List.flatMap_append

/-- The content, if any, starts at `start` and has the length of its payload;
the total is what has been reached with it. -/
def Event.BodyData.StartsAt (body : BodyData H) (start : Nat) : Prop :=
  (∀ c, body.content = some c → c.offset = start ∧ c.length = c.payload.bytes.length) ∧
    body.totalBytes = start + body.payload.length

/-- Each body starts where the payloads before it end. -/
def Contiguous : Nat → List (BodyData H) → Prop
  | _, [] => True
  | start, body :: rest => body.StartsAt start ∧ Contiguous (start + body.payload.length) rest

theorem contiguous_append (start : Nat) (bodies more : List (BodyData H)) :
    Contiguous start (bodies ++ more) ↔
      Contiguous start bodies ∧ Contiguous (start + (payloads bodies).length) more := by
  induction bodies generalizing start with
  | nil => simp [Contiguous]
  | cons body bodies ih =>
    simp only [List.cons_append, Contiguous, ih, payloads_cons, List.length_append, and_assoc,
      Nat.add_assoc]

theorem contiguous_split {start : Nat} {bodies before after : List (BodyData H)}
    {body : BodyData H} (h : Contiguous start bodies) (split : bodies = before ++ body :: after) :
    body.StartsAt (start + (payloads before).length) := by
  rw [split, contiguous_append] at h
  exact h.2.1

end Payload

namespace BufferedDataReporter

/-- What `build_body_data` builds, and what it changes in the reporter. -/
theorem buildBodyData_spec (r : BufferedDataReporter) (atEnd : Bool) (buffer : Bytes) :
    let out := r.buildBodyData atEnd buffer
    out.1.payload = buffer ∧ out.1.atEnd = atEnd ∧
      out.1.trailers = r.trailers.map Headers.ofMap ∧ out.1.StartsAt r.totalBytes ∧
      out.2 = { r with trailers := none, totalBytes := r.totalBytes + buffer.length } := by
  cases buffer with
  | nil =>
    refine ⟨rfl, rfl, rfl, ⟨?_, rfl⟩, rfl⟩
    intro c hc
    simp [buildBodyData, takeContent] at hc
  | cons b rest =>
    have payload : (r.buildBodyData atEnd (b :: rest)).1.payload = b :: rest :=
      BodyChunk.bytes_ofBytes _
    refine ⟨payload, rfl, rfl, ⟨?_, ?_⟩, rfl⟩
    · intro c hc
      obtain rfl : (⟨r.totalBytes, (b :: rest).length, .ofBytes (b :: rest)⟩ : BodyContent) = c := by
        simpa [buildBodyData, takeContent] using hc
      exact ⟨rfl, by rw [BodyChunk.bytes_ofBytes]⟩
    · rw [payload]
      rfl

end BufferedDataReporter

namespace ReportingAction

theorem frames_concat (acts : List ReportingAction) (a : ReportingAction) :
    frames (acts ++ [a]) = frames acts ++ a.frame?.toList := by
  cases h : a.frame? <;> simp [frames, h]

theorem dispatchedBytes_frame (item : Option BodyStreamItem) :
    dataBytes (dispatch item).frame?.toList = dispatchedBytes item := by
  rcases item with _ | err | frame
  · rfl
  · rfl
  · cases frame <;> simp [frame?, dataBytes, dispatchedBytes, Frame.dataRef]

end ReportingAction

theorem ReporterStatus.eq_returned {status : ReporterStatus} (stopped : status ≠ .running)
    (ok : status ≠ .failed) : status = .returned := by
  cases status with
  | running => exact absurd rfl stopped
  | returned => rfl
  | failed => exact absurd rfl ok

/-- The end of the body was signalled. -/
def CollectorPhase.Closed (phase : CollectorPhase) : Prop := phase = .ended ∨ phase = .dropped

namespace ReportingSystem

open ReportingAction (frames frames_concat)

def bodies (s : ReportingSystem) : List (BodyData Headers) := bodyDatas s.published

/-- A heard `send_data` publishes the buffer, from where the total stands. -/
theorem sendData_heard (s : ReportingSystem) (atEnd : Bool) :
    ∃ body, body.payload = s.buffer ∧ body.atEnd = atEnd ∧
      body.trailers = s.reporter.trailers.map Headers.ofMap ∧
      body.StartsAt s.reporter.totalBytes ∧
      s.sendData atEnd true =
        { s with
          buffer := []
          reporter := { s.reporter with
            trailers := none
            totalBytes := s.reporter.totalBytes + s.buffer.length }
          published := s.published ++ [.bodyData body] } := by
  obtain ⟨payload, atEnd', trailers, starts, reporter⟩ :=
    s.reporter.buildBodyData_spec atEnd s.buffer
  refine ⟨_, payload, atEnd', trailers, starts, ?_⟩
  simp only [sendData, sendEvent, if_true, reporter]

/-- The books of the reporter: published payloads and buffer make up the data
dispatched, and the total counts the payloads published. -/
structure Balanced (prev : Nat) (acts : List ReportingAction) (s : ReportingSystem) : Prop where
  contiguous : Contiguous prev s.bodies
  bytes : s.status ≠ .failed → payloads s.bodies ++ s.buffer = dataBytes (frames acts)
  total : s.status ≠ .failed → s.reporter.totalBytes = prev + (payloads s.bodies).length

/-- Steps that neither publish nor touch the buffer keep the books. -/
theorem Balanced.frame {prev : Nat} {acts : List ReportingAction} {s t : ReportingSystem}
    {a : ReportingAction} (h : Balanced prev acts s) (noFrame : a.frame? = none)
    (published : t.published = s.published) (buffer : t.buffer = s.buffer)
    (total : t.reporter.totalBytes = s.reporter.totalBytes)
    (status : t.status ≠ .failed → s.status ≠ .failed) : Balanced prev (acts ++ [a]) t where
  contiguous := by
    rw [bodies, published]
    exact h.contiguous
  bytes ok := by
    rw [bodies, published, buffer, frames_concat, noFrame, Option.toList_none, List.append_nil]
    exact h.bytes (status ok)
  total ok := by
    rw [bodies, published, total]
    exact h.total (status ok)

theorem Balanced.sendData {prev : Nat} {acts : List ReportingAction} {s : ReportingSystem}
    (h : Balanced prev acts s) (running : s.status = .running) (atEnd listening : Bool)
    {a : ReportingAction} (noFrame : a.frame? = none) :
    Balanced prev (acts ++ [a]) (s.sendData atEnd listening) := by
  have ok : s.status ≠ .failed := by simp [running]
  cases listening with
  | false => exact ⟨h.contiguous, fun bad => absurd rfl bad, fun bad => absurd rfl bad⟩
  | true =>
    obtain ⟨body, payload, -, -, starts, heq⟩ := s.sendData_heard atEnd
    have hbodies : (s.sendData atEnd true).bodies = s.bodies ++ [body] := by
      rw [heq]
      exact bodyDatas_append _ _
    refine ⟨?_, fun _ => ?_, fun _ => ?_⟩
    · rw [hbodies, contiguous_append]
      exact ⟨h.contiguous, by rw [← h.total ok]; exact starts, trivial⟩
    · rw [hbodies, heq, frames_concat, noFrame, Option.toList_none, List.append_nil (frames acts),
        ← h.bytes ok]
      simp [payload]
    · rw [hbodies, heq]
      simp [payload, h.total ok, Nat.add_assoc]

/-- Changes that the books do not look at. -/
theorem Balanced.congr {prev : Nat} {acts : List ReportingAction} {s t : ReportingSystem}
    (h : Balanced prev acts s) (published : t.published = s.published)
    (buffer : t.buffer = s.buffer) (total : t.reporter.totalBytes = s.reporter.totalBytes)
    (status : t.status ≠ .failed → s.status ≠ .failed) : Balanced prev acts t := by
  refine ⟨?_, fun ok => ?_, fun ok => ?_⟩
  · rw [bodies, published]
    exact h.contiguous
  · rw [bodies, published, buffer]
    exact h.bytes (status ok)
  · rw [bodies, published, total]
    exact h.total (status ok)

theorem Balanced.finish {prev : Nat} {acts : List ReportingAction} {s : ReportingSystem}
    (h : Balanced prev acts s) (running : s.status = .running) (listening : Bool)
    {a : ReportingAction} (noFrame : a.frame? = none) :
    Balanced prev (acts ++ [a]) (s.finish listening) := by
  have sent := h.sendData running true listening noFrame
  cases listening with
  | false => exact sent
  | true =>
    refine sent.congr rfl rfl rfl fun _ => ?_
    obtain ⟨body, -, -, -, -, heq⟩ := s.sendData_heard true
    simp [heq, running]

theorem balanced_step {prev : Nat} {acts : List ReportingAction} {s t : ReportingSystem}
    {a : ReportingAction} (h : Balanced prev acts s) (st : Steps s a t) :
    Balanced prev (acts ++ [a]) t := by
  cases st with
  | dispatch item idle =>
    refine ⟨h.contiguous, fun ok => ?_, h.total⟩
    rw [frames_concat, dataBytes_append, ReportingAction.dispatchedBytes_frame, ← h.bytes ok,
      List.append_assoc]
    rfl
  | enqueue event sending running => exact h.frame rfl rfl rfl rfl id
  | sendFails event sending stopped => exact h.frame rfl rfl rfl rfl id
  | drop held => exact h.frame rfl rfl rfl rfl id
  | cancel event sending frame => exact h.frame rfl rfl rfl rfl id
  | receive event rest listening running queued =>
    have h' : Balanced prev acts { s with channel := rest } := h.congr rfl rfl rfl id
    cases event with
    | data => exact h'.frame rfl rfl rfl rfl id
    | trailers map => exact h'.frame rfl rfl rfl rfl id
    | error message =>
      cases listening with
      | false =>
        exact h'.frame rfl rfl rfl rfl (fun bad => absurd rfl bad)
      | true =>
        have same : ∀ e : ProxyEvent, e.bodyData? = none →
            bodyDatas (s.published ++ [e]) = bodyDatas s.published := fun e he => by
          simp [bodyDatas, he]
        have hbodies : ({ s with channel := rest }.handle true (.error message)).bodies =
            s.bodies := same _ rfl
        refine ⟨by rw [hbodies]; exact h.contiguous, fun ok => ?_, fun ok => ?_⟩
        · rw [hbodies, frames_concat]
          exact (h.bytes ok).trans (by simp [ReportingAction.frame?])
        · rw [hbodies]
          exact h.total ok
    | eof => exact h'.finish (a := .receive listening) running listening rfl
  | closed listening running empty dropped => exact h.finish (a := .receive listening) running listening rfl
  | flush listening running pending =>
    have sent := h.sendData running false listening (a := .flush listening) rfl
    cases listening with
    | false => exact sent
    | true => exact sent.congr rfl rfl rfl id

/-! ## The final event -/

/-- Only the event published on return has `at_end`, and it is the last. -/
structure Terminated (s : ReportingSystem) : Prop where
  quiet : s.status ≠ .returned → ∀ body ∈ s.bodies, body.atEnd = false
  last : s.status = .returned → ∃ before body, s.bodies = before ++ [body] ∧
    body.atEnd = true ∧ ∀ b ∈ before, b.atEnd = false

theorem sendData_atEnd {s : ReportingSystem} (h : ∀ body ∈ s.bodies, body.atEnd = false)
    (listening : Bool) : ∀ body ∈ (s.sendData false listening).bodies, body.atEnd = false := by
  cases listening with
  | false => exact h
  | true =>
    obtain ⟨body, -, atEnd, -, -, heq⟩ := s.sendData_heard false
    intro b hb
    rw [heq, bodies, bodyDatas_append] at hb
    rcases List.mem_append.mp hb with old | new
    · exact h b old
    · obtain rfl : b = body := by simpa [bodyDatas, ProxyEvent.bodyData?] using new
      exact atEnd

theorem finish_terminated {s : ReportingSystem}
    (h : ∀ body ∈ s.bodies, body.atEnd = false) (listening : Bool) :
    Terminated (s.finish listening) := by
  cases listening with
  | false => exact ⟨fun _ => h, fun bad => by cases bad⟩
  | true =>
    obtain ⟨body, -, atEnd, -, -, heq⟩ := s.sendData_heard true
    refine ⟨fun bad => absurd rfl bad, fun _ => ⟨s.bodies, body, ?_, atEnd, h⟩⟩
    simp only [finish, heq, if_true]
    exact bodyDatas_append _ _

theorem terminated_step {s t : ReportingSystem} {a : ReportingAction} (h : Terminated s)
    (st : Steps s a t) : Terminated t := by
  cases st with
  | dispatch item idle => exact ⟨h.quiet, h.last⟩
  | enqueue event sending running => exact ⟨h.quiet, h.last⟩
  | sendFails event sending stopped => exact ⟨h.quiet, h.last⟩
  | drop held => exact ⟨h.quiet, h.last⟩
  | cancel event sending frame => exact ⟨h.quiet, h.last⟩
  | receive event rest listening running queued =>
    have quiet := h.quiet (by simp [running])
    have stays : s.status ≠ .returned := by simp [running]
    cases event with
    | data => exact ⟨fun _ => quiet, fun bad => absurd bad stays⟩
    | trailers map => exact ⟨fun _ => quiet, fun bad => absurd bad stays⟩
    | error message =>
      cases listening with
      | false => exact ⟨fun _ => quiet, fun bad => by cases bad⟩
      | true =>
        refine ⟨fun _ b hb => quiet b ?_, fun bad => absurd bad stays⟩
        simpa [handle, sendEvent, bodies, bodyDatas, ProxyEvent.bodyData?] using hb
    | eof => exact finish_terminated (s := { s with channel := rest }) quiet listening
  | closed listening running empty dropped =>
    exact finish_terminated (h.quiet (by simp [running])) listening
  | flush listening running pending =>
    have quiet := sendData_atEnd (h.quiet (by simp [running])) listening
    cases listening with
    | false => exact ⟨fun _ => quiet, fun bad => by cases bad⟩
    | true =>
      obtain ⟨body, -, -, -, -, heq⟩ := s.sendData_heard false
      refine ⟨fun _ => quiet, fun bad => ?_⟩
      simp [flushData, heq, running] at bad

/-! ## Closing the channel -/

theorem not_closed_sending {s : ReportingSystem} {event : BodyEvent}
    (sending : s.phase = .sending event) : ¬ s.phase.Closed := by
  simp [CollectorPhase.Closed, sending]

/-- The end of the body is the last notification, and nothing is dispatched
once it is queued; it stays queued until `run` receives it, and when `run` has
returned, nothing is left anywhere. -/
structure Closing (s : ReportingSystem) : Prop where
  eof : ∀ before rest, s.channel = before ++ .eof :: rest →
    rest = [] ∧ s.phase.Closed
  queued : s.phase = .ended → s.status = .running → .eof ∈ s.channel
  returned : s.status = .returned → s.channel = [] ∧ s.phase.Closed ∧
    s.buffer = [] ∧ s.reporter.trailers = none

theorem Closing.close {s : ReportingSystem} (h : Closing s) : Closing s.closeCollector where
  eof before rest queued := ⟨(h.eof before rest queued).1, .inr rfl⟩
  queued ended := by cases ended
  returned done := by
    obtain ⟨channel, -, buffer, trailers⟩ := h.returned done
    exact ⟨channel, .inr rfl, buffer, trailers⟩

theorem Closing.enqueue {s : ReportingSystem} (h : Closing s) {event : BodyEvent}
    (sending : s.phase = .sending event) (running : s.status = .running) :
    Closing (s.enqueue event) where
  eof before rest queued := by
    change s.channel ++ [event] = before ++ .eof :: rest at queued
    -- an end already queued would have closed the collector
    rcases List.eq_nil_or_concat rest with rfl | ⟨init, last, rfl⟩
    · obtain ⟨-, rfl⟩ : s.channel = before ∧ event = .eof := by simpa using queued
      exact ⟨rfl, .inl rfl⟩
    · rw [List.concat_eq_append, ← List.cons_append, ← List.append_assoc] at queued
      have earlier := (List.append_inj' queued rfl).1
      exact absurd (h.eof before init earlier).2 (not_closed_sending sending)
  queued ended _ := by
    by_cases last : event = .eof
    · exact last ▸ List.mem_concat_self
    · simp [ReportingSystem.enqueue, last] at ended
  returned done := by
    have stays : s.status = .returned := done
    simp [running] at stays

theorem Closing.finish {s : ReportingSystem}
    (empty : s.channel = []) (closed : s.phase.Closed) (listening : Bool) :
    Closing (s.finish listening) := by
  have queue : (s.finish listening).channel = [] := by cases listening <;> exact empty
  refine ⟨fun before rest queued => ?_, fun _ running => ?_, fun done => ?_⟩
  · simp [queue] at queued
  · cases listening <;> cases running
  · cases listening with
    | false => cases done
    | true => exact ⟨empty, closed, rfl, rfl⟩

/-- A notification other than the end leaves collector and queue as they are, and `run` goes on
where it was heard. -/
theorem handle_open (s : ReportingSystem) {event : BodyEvent} (other : event ≠ .eof)
    (listening : Bool) :
    (s.handle listening event).phase = s.phase ∧ (s.handle listening event).channel = s.channel ∧
      ((s.handle listening event).status = s.status ∨
        listening = false ∧ (s.handle listening event).status = .failed) := by
  cases event with
  | data | trailers => exact ⟨rfl, rfl, .inl rfl⟩
  | error message => cases listening with
    | false => exact ⟨rfl, rfl, .inr ⟨rfl, rfl⟩⟩
    | true => exact ⟨rfl, rfl, .inl rfl⟩
  | eof => exact absurd rfl other

theorem Closing.receive {s : ReportingSystem} (h : Closing s) (running : s.status = .running)
    {event : BodyEvent} {rest : List BodyEvent} (queued : s.channel = event :: rest)
    (listening : Bool) : Closing ({ s with channel := rest }.handle listening event) := by
  by_cases last : event = .eof
  · subst last
    obtain ⟨rfl, closed⟩ := h.eof [] rest queued
    exact Closing.finish (s := { s with channel := [] }) rfl closed listening
  · obtain ⟨phase, channel, status⟩ := handle_open { s with channel := rest } last listening
    refine ⟨fun before after split => ?_, fun ended _ => ?_, fun done => ?_⟩
    · rw [phase]
      refine h.eof (event :: before) after (queued.trans ?_)
      exact congrArg (event :: ·) (channel.symm.trans split)
    · rw [channel]
      have member := h.queued (phase.symm.trans ended) running
      exact List.mem_of_ne_of_mem (Ne.symm last) (queued ▸ member)
    · rcases status with same | ⟨-, failed⟩
      · cases running.symm.trans (same.symm.trans done)
      · cases failed.symm.trans done

theorem closing_step {s t : ReportingSystem} {a : ReportingAction} (h : Closing s)
    (st : Steps s a t) : Closing t := by
  cases st with
  | dispatch item idle =>
    have opened : ¬ s.phase.Closed := by simp [CollectorPhase.Closed, idle]
    exact ⟨fun before rest queued => absurd (h.eof before rest queued).2 opened,
      fun ended => (by cases ended), fun done => absurd (h.returned done).2.1 opened⟩
  | enqueue event sending running => exact h.enqueue sending running
  | sendFails event sending stopped => exact h.close
  | drop held => exact h.close
  | cancel event sending frame => exact h.close
  | receive event rest listening running queued => exact h.receive running queued listening
  | closed listening running empty dropped =>
    exact Closing.finish empty (.inr dropped) listening
  | flush listening running pending =>
    cases listening with
    | false => exact ⟨h.eof, fun _ running => (by cases running), fun done => by cases done⟩
    | true =>
      exact ⟨h.eof, fun ended _ => h.queued ended running,
        fun done => by cases running.symm.trans done⟩

/-- After the end was signalled, a reporter with nothing left to receive has stopped. -/
theorem Closing.stopped {s : ReportingSystem} (h : Closing s) (closed : s.phase.Closed)
    (drained : s.step (.receive true) = none) : s.status ≠ .running := by
  intro running
  rcases queue : s.channel with _ | ⟨event, rest⟩
  · rcases closed with ended | dropped
    · have member := h.queued ended running
      simp [queue] at member
    · simp [step, running, queue, dropped] at drained
  · simp [step, running, queue] at drained

/-- After the end was signalled, the reporter has at most the queue and the
closed channel to receive before it returns. -/
theorem Closing.returns {s : ReportingSystem} (h : Closing s) (closed : s.phase.Closed)
    (running : s.status = .running) :
    ∃ n ≤ s.channel.length + 1, ∃ t,
      run step s (List.replicate n (.receive true)) = some t ∧ t.status = .returned := by
  generalize queue : s.channel = events
  induction events generalizing s with
  | nil =>
    have dropped : s.phase = .dropped := by
      refine closed.resolve_left fun ended => ?_
      have member := h.queued ended running
      simp [queue] at member
    refine ⟨1, le_refl _, s.finish true, ?_, rfl⟩
    simp [step, running, queue, dropped]
  | cons event rest ih =>
    have next : step s (.receive true) = some ({ s with channel := rest }.handle true event) := by
      simp [step, running, queue]
    by_cases last : event = .eof
    · refine ⟨1, by simp, { s with channel := rest }.finish true, ?_, rfl⟩
      simp [next, last, handle]
    · obtain ⟨phase, channel, status⟩ := handle_open { s with channel := rest } last true
      have goesOn := status.resolve_right fun deaf => by cases deaf.1
      obtain ⟨n, bound, t, ran, done⟩ := ih (h.receive running queue true)
        (phase.symm ▸ closed) (goesOn.trans running) channel
      refine ⟨n + 1, Nat.succ_le_succ bound, t, ?_, done⟩
      rw [List.replicate_succ, Machine.run_cons, next, Option.bind_some, ran]

/-! ## Trailers -/

def BodyEvent.trailers? : BodyEvent → Option HeaderMap
  | .trailers map => some map
  | _ => none

def CollectorPhase.trailers? : CollectorPhase → Option HeaderMap
  | .sending event => BodyEvent.trailers? event
  | _ => none

/-- Trailers on their way: held by the reporter, queued, or waiting for a slot. -/
def pendingTrailers (s : ReportingSystem) : List HeaderMap :=
  s.reporter.trailers.toList ++ s.channel.filterMap BodyEvent.trailers? ++
    (CollectorPhase.trailers? s.phase).toList

def publishedTrailers (s : ReportingSystem) : List Headers :=
  s.bodies.filterMap fun body => body.trailers

/-- The trailers dispatched are those published and those on their way. -/
def Carried (acts : List ReportingAction) (s : ReportingSystem) : Prop :=
  publishedTrailers s ++ (pendingTrailers s).map Headers.ofMap =
    (trailersOf (frames acts)).map Headers.ofMap

theorem Carried.congr {acts : List ReportingAction} {s t : ReportingSystem}
    {a : ReportingAction} (h : Carried acts s) (noFrame : a.frame? = none)
    (published : t.bodies = s.bodies) (pending : pendingTrailers t = pendingTrailers s) :
    Carried (acts ++ [a]) t := by
  rw [Carried, publishedTrailers]
  rw [published, pending, frames_concat, noFrame, Option.toList_none, List.append_nil (frames acts)]
  exact h

theorem dispatched_trailers (item : Option BodyStreamItem) :
    (BodyEvent.trailers? (dispatchedEvent item)).toList =
      trailersOf (ReportingAction.dispatch item).frame?.toList := by
  rcases item with _ | err | frame
  · rfl
  · rfl
  · cases frame <;> rfl

/-- A heard `send_data` carries the trailers that the reporter holds. -/
theorem Carried.sendData {acts : List ReportingAction} {s : ReportingSystem}
    {a : ReportingAction} (h : Carried acts s) (noFrame : a.frame? = none) (atEnd : Bool) :
    Carried (acts ++ [a]) (s.sendData atEnd true) := by
  obtain ⟨body, -, -, trailers, -, heq⟩ := s.sendData_heard atEnd
  have published : publishedTrailers (s.sendData atEnd true) =
      publishedTrailers s ++ (s.reporter.trailers.map Headers.ofMap).toList := by
    have hbodies : (s.sendData atEnd true).bodies = s.bodies ++ [body] := by
      rw [heq]
      exact bodyDatas_append _ _
    rw [publishedTrailers, hbodies, List.filterMap_append]
    cases held : s.reporter.trailers <;> simp [publishedTrailers, trailers, held]
  have pending : pendingTrailers (s.sendData atEnd true) =
      s.channel.filterMap BodyEvent.trailers? ++ (CollectorPhase.trailers? s.phase).toList := by
    rw [heq]
    rfl
  rw [Carried] at h ⊢
  rw [published, pending, frames_concat, noFrame, Option.toList_none, List.append_nil (frames acts),
    ← h]
  cases held : s.reporter.trailers <;> simp [pendingTrailers, held]

theorem Carried.dispatch {acts : List ReportingAction} {s : ReportingSystem}
    (h : Carried acts s) (item : Option BodyStreamItem) (idle : s.phase = .idle) :
    Carried (acts ++ [.dispatch item]) (s.dispatch item) := by
  have published : publishedTrailers (s.dispatch item) = publishedTrailers s := rfl
  have pending : pendingTrailers (s.dispatch item) =
      pendingTrailers s ++ (BodyEvent.trailers? (dispatchedEvent item)).toList := by
    simp [pendingTrailers, ReportingSystem.dispatch, idle, CollectorPhase.trailers?]
  rw [Carried] at h ⊢
  rw [published, pending, frames_concat, trailersOf_append, List.map_append, List.map_append,
    ← h, dispatched_trailers, List.append_assoc]

theorem Carried.enqueue {acts : List ReportingAction} {s : ReportingSystem}
    (h : Carried acts s) {event : BodyEvent} (sending : s.phase = .sending event) :
    Carried (acts ++ [.completeSend]) (s.enqueue event) := by
  refine h.congr rfl rfl ?_
  have moved : CollectorPhase.trailers? (s.enqueue event).phase = none := by
    by_cases last : event = .eof <;> simp [ReportingSystem.enqueue, last, CollectorPhase.trailers?]
  unfold pendingTrailers
  rw [moved]
  cases event <;>
    simp [ReportingSystem.enqueue, sending, CollectorPhase.trailers?, BodyEvent.trailers?]

/-- With at most one trailers frame, the reporter holds none when one is queued. -/
theorem Carried.none_held {acts : List ReportingAction} {s : ReportingSystem}
    (h : Carried acts s) (single : (trailersOf (frames acts)).length ≤ 1) {map : HeaderMap}
    {rest : List BodyEvent} (queued : s.channel = .trailers map :: rest) :
    s.reporter.trailers = none := by
  cases held : s.reporter.trailers with
  | none => rfl
  | some earlier =>
    have count := congrArg List.length h
    simp [pendingTrailers, held, queued, BodyEvent.trailers?] at count
    omega

/-- Taking an event without trailers off the queue moves no trailers. -/
theorem pendingTrailers_dequeue {s : ReportingSystem} {event : BodyEvent} {rest : List BodyEvent}
    (queued : s.channel = event :: rest) (quiet : BodyEvent.trailers? event = none) :
    pendingTrailers { s with channel := rest } = pendingTrailers s := by
  simp [pendingTrailers, queued, quiet]

theorem Carried.receive {acts : List ReportingAction} {s : ReportingSystem}
    (h : Carried acts s) (single : (trailersOf (frames acts)).length ≤ 1) {event : BodyEvent}
    {rest : List BodyEvent} (queued : s.channel = event :: rest) :
    Carried (acts ++ [.receive true]) ({ s with channel := rest }.handle true event) := by
  cases event with
  | data => exact h.congr rfl rfl (pendingTrailers_dequeue queued rfl)
  | trailers map =>
    refine h.congr rfl rfl ?_
    simp [pendingTrailers, handle, queued, h.none_held single queued, BodyEvent.trailers?]
  | error message =>
    refine h.congr rfl ?_ (pendingTrailers_dequeue queued rfl)
    simp [handle, sendEvent, bodies, bodyDatas, ProxyEvent.bodyData?]
  | eof =>
    have waiting : Carried acts { s with channel := rest } := by
      rw [Carried]
      rw [pendingTrailers_dequeue queued rfl]
      exact h
    exact waiting.sendData rfl true

theorem carried_step {acts : List ReportingAction} {s t : ReportingSystem} {a : ReportingAction}
    (h : Carried acts s) (closing : Closing s) (st : Steps s a t) (ok : s.status ≠ .failed)
    (heard : a.heard = true) (kept : a ≠ .cancel)
    (single : (trailersOf (frames acts)).length ≤ 1) : Carried (acts ++ [a]) t := by
  cases st with
  | dispatch item idle => exact h.dispatch item idle
  | enqueue event sending running => exact h.enqueue sending
  | sendFails event sending stopped =>
    -- the reporter returns only after the end, when nothing is being sent
    have done := ReporterStatus.eq_returned stopped ok
    exact absurd (closing.returned done).2.1 (not_closed_sending sending)
  | drop held =>
    refine h.congr rfl rfl ?_
    rcases held with idle | ended | last <;>
      simp [pendingTrailers, closeCollector, CollectorPhase.trailers?, BodyEvent.trailers?, *]
  | cancel event sending frame => exact absurd rfl kept
  | receive event rest listening running queued =>
    obtain rfl : listening = true := heard
    exact h.receive single queued
  | closed listening running empty dropped =>
    obtain rfl : listening = true := heard
    exact h.sendData rfl true
  | flush listening running pending =>
    obtain rfl : listening = true := heard
    exact h.sendData rfl false

/-! ## Complete runs -/

theorem notFailed_step {s t : ReportingSystem} {a : ReportingAction} (st : Steps s a t)
    (ok : s.status ≠ .failed) (heard : a.heard = true) : t.status ≠ .failed := by
  cases st with
  | receive event rest listening running queued =>
    obtain rfl : listening = true := heard
    cases event <;> simp [handle, sendEvent, finish, sendData, running]
  | closed listening running empty dropped =>
    obtain rfl : listening = true := heard
    simp [finish]
  | flush listening running pending =>
    obtain rfl : listening = true := heard
    simp [flushData, sendData, sendEvent, running]
  | _ => exact ok

/-- What holds of a run in which every event sent finds a listener. -/
structure Sound (prev : Nat) (acts : List ReportingAction) (s : ReportingSystem) : Prop where
  balanced : Balanced prev acts s
  terminated : Terminated s
  closing : Closing s
  ok : (∀ a ∈ acts, a.heard = true) → s.status ≠ .failed
  carried : (∀ a ∈ acts, a.heard = true) → .cancel ∉ acts →
    (trailersOf (frames acts)).length ≤ 1 → Carried acts s

theorem sound_run {direction : Direction} {prev : Nat} {acts : List ReportingAction}
    {s : ReportingSystem} (ran : run step (createBuffered direction prev) acts = some s) :
    Sound prev acts s := by
  refine run_history (P := Sound prev) ?_ ?_ ran
  · exact ⟨⟨trivial, fun _ => rfl, fun _ => rfl⟩,
      ⟨fun _ body published => absurd published List.not_mem_nil, fun done => by cases done⟩,
      ⟨fun before rest queued => by simp [createBuffered] at queued, fun ended => (by cases ended),
        fun done => by cases done⟩,
      fun _ => by simp [createBuffered], fun _ _ _ => rfl⟩
  · intro acts m a t _ h taken
    have st := steps_of_step taken
    have shorter : (trailersOf (frames (acts ++ [a]))).length ≤ 1 →
        (trailersOf (frames acts)).length ≤ 1 := by
      rw [frames_concat, trailersOf_append, List.length_append]
      omega
    refine ⟨balanced_step h.balanced st, terminated_step h.terminated st,
      closing_step h.closing st, fun heard => ?_, fun heard kept single => ?_⟩
    · simp only [List.forall_mem_append, List.forall_mem_singleton] at heard
      exact notFailed_step st (h.ok heard.1) heard.2
    · simp only [List.forall_mem_append, List.forall_mem_singleton] at heard
      simp only [List.mem_append, List.mem_singleton, not_or] at kept
      exact carried_step (h.carried heard.1 kept.1 (shorter single)) h.closing st (h.ok heard.1)
        heard.2 (Ne.symm kept.2) (shorter single)

/-- When a reporter whose events were all heard has nothing left to receive
after the end, it has published everything that was dispatched, and the end last. -/
theorem drained_run {direction : Direction} {prev : Nat} {acts : List ReportingAction}
    {s : ReportingSystem} (ran : run step (createBuffered direction prev) acts = some s)
    (heard : ∀ a ∈ acts, a.heard = true) (closed : s.phase.Closed)
    (drained : s.step (.receive true) = none) :
    s.status = .returned ∧ payloads s.bodies = dataBytes (frames acts) ∧
      ∃ before last, s.bodies = before ++ [last] ∧ last.atEnd = true ∧
        ∀ body ∈ before, body.atEnd = false := by
  have sound := sound_run ran
  have ok := sound.ok heard
  have done := ReporterStatus.eq_returned (sound.closing.stopped closed drained) ok
  have bytes := sound.balanced.bytes ok
  rw [(sound.closing.returned done).2.2.1, List.append_nil] at bytes
  exact ⟨done, bytes, sound.terminated.last done⟩

/-- The stream published for a body that ends without error. Once the end was
signalled, by its notification or by the drop of the collector, the reporter
returns after at most the notifications in the queue and the closed channel;
when it has nothing left to receive, the payloads, offsets, totals, the single
final event and, unless the drop cut a dispatch short, the trailers are as they
should. -/
theorem stream_integrity {direction : Direction} {prev : Nat} {acts : List ReportingAction}
    {s : ReportingSystem} (ran : run step (createBuffered direction prev) acts = some s)
    (heard : ∀ a ∈ acts, a.heard = true) (single : (trailersOf (frames acts)).length ≤ 1)
    (closed : s.phase.Closed) :
    (∃ n ≤ s.channel.length + 1, ∃ t,
      run step s (List.replicate n (.receive true)) = some t ∧ t.status = .returned) ∧
    (s.step (.receive true) = none →
      payloads s.bodies = dataBytes (frames acts) ∧
      (∀ before body after, s.bodies = before ++ body :: after →
        (∀ c, body.content = some c →
          c.offset = prev + (payloads before).length ∧ c.length = c.payload.bytes.length) ∧
        body.totalBytes = prev + (payloads (before ++ [body])).length) ∧
      (∃ before last, s.bodies = before ++ [last] ∧ last.atEnd = true ∧
        ∀ body ∈ before, body.atEnd = false) ∧
      (.cancel ∉ acts → publishedTrailers s = (trailersOf (frames acts)).map Headers.ofMap)) := by
  have sound := sound_run ran
  refine ⟨?_, fun drained => ?_⟩
  · cases hs : s.status with
    | running => exact sound.closing.returns closed hs
    | returned => exact ⟨0, Nat.zero_le _, s, rfl, hs⟩
    | failed => exact absurd hs (sound.ok heard)
  · obtain ⟨done, bytes, last⟩ := drained_run ran heard closed drained
    obtain ⟨channel, -, -, trailers⟩ := sound.closing.returned done
    refine ⟨bytes, fun before body after split => ?_, last, fun kept => ?_⟩
    · have starts := contiguous_split sound.balanced.contiguous split
      refine ⟨starts.1, starts.2.trans ?_⟩
      simp [Nat.add_assoc]
    · have carried := sound.carried heard kept single
      have idle : CollectorPhase.trailers? s.phase = none := by
        rcases closed with h | h <;> rw [h] <;> rfl
      simpa [Carried, pendingTrailers, channel, trailers, idle] using carried

/-- The timer fires while the second notification is still to come. -/
def timerRun : List ReportingAction :=
  [.dispatch (some (.ok (.data [97, 98]))), .completeSend, .receive true,
    .dispatch (some (.ok (.data [99, 100]))), .flush true, .completeSend, .receive true,
    .dispatch none, .completeSend, .receive true]

/-- The collector is dropped while its last notification is still queued. -/
def droppedRun : List ReportingAction :=
  [.dispatch (some (.ok (.data [97, 98]))), .completeSend, .drop, .receive true, .receive true]

theorem stream_integrity_ends :
    (∃ s, run step (createBuffered .request 2) timerRun = some s ∧ s.phase = .ended ∧
      payloads s.bodies = [97, 98, 99, 100]) ∧
    ∃ s, run step (createBuffered .request 2) droppedRun = some s ∧ s.phase = .dropped ∧
      payloads s.bodies = [97, 98] :=
  ⟨⟨_, rfl, rfl, ((@stream_integrity .request 2 timerRun _ rfl (by decide) (by decide)
      (.inl rfl)).2 rfl).1⟩,
    ⟨_, rfl, rfl, ((@stream_integrity .request 2 droppedRun _ rfl (by decide) (by decide)
      (.inr rfl)).2 rfl).1⟩⟩

end ReportingSystem

end Protospy
