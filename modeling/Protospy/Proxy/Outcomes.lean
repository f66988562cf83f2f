import Protospy.Proxy.StreamIntegrity
import Protospy.Proxy.Transparency

/-!
# The outcome of an exchange

Which events exist for an exchange when `process` returns: those it published
itself, and those of the body reporters it started, each of which has come as
far as its own steps. An outcome is a response event or an error event.
-/

namespace Protospy

open Machine (run run_takes Takes)
open PollStream

namespace ProxyEvent

def isRequest : ProxyEvent → Bool
  | .request .. => true
  | _ => false

def isOutcome : ProxyEvent → Bool
  | .response .. => true
  | .error .. => true
  | _ => false

end ProxyEvent

namespace ReportingSystem

def hasOutcome (s : ReportingSystem) : Bool := s.published.any ProxyEvent.isOutcome

/-- The next notification is that of a body error. -/
def ErrorNext (s : ReportingSystem) : Prop := ∃ message rest, s.channel = .error message :: rest

/-- The reporter takes the notification of a body error off its channel. -/
def ReadsError (s : ReportingSystem) (a : ReportingAction) : Prop :=
  (∃ listening, a = .receive listening) ∧ s.ErrorNext

theorem sendData_hasOutcome (s : ReportingSystem) (atEnd listening : Bool) :
    (s.sendData atEnd listening).hasOutcome = s.hasOutcome := by
  cases listening <;>
    simp [sendData, sendEvent, hasOutcome, BufferedDataReporter.buildBodyData, ProxyEvent.isOutcome]

/-- The reporter publishes an outcome when it reads an error, and only then. -/
theorem hasOutcome_step {s t : ReportingSystem} {a : ReportingAction} (st : Steps s a t)
    (heard : a.heard = true) : t.hasOutcome = true ↔ s.hasOutcome = true ∨ s.ReadsError a := by
  cases st with
  | receive event rest listening running queued =>
    obtain rfl : listening = true := heard
    cases event with
    | error message =>
      have outcome : ({ s with channel := rest }.handle true (.error message)).hasOutcome = true := by
        simp [handle, sendEvent, hasOutcome, ProxyEvent.isOutcome]
      simp only [outcome, true_iff]
      exact .inr ⟨⟨true, rfl⟩, message, rest, queued⟩
    | eof =>
      have same : ({ s with channel := rest }.finish true).hasOutcome = s.hasOutcome :=
        sendData_hasOutcome { s with channel := rest } true true
      simp [handle, same, ReadsError, ErrorNext, queued]
    | _ => simp [handle, hasOutcome, ReadsError, ErrorNext, queued]
  | closed listening running empty dropped =>
    obtain rfl : listening = true := heard
    have same : (s.finish true).hasOutcome = s.hasOutcome := sendData_hasOutcome s true true
    simp [same, ReadsError, ErrorNext, empty]
  | flush listening running pending =>
    obtain rfl : listening = true := heard
    have same : (s.flushData true).hasOutcome = s.hasOutcome := sendData_hasOutcome s false true
    simp [same, ReadsError]
  | _ => simp [hasOutcome, ReadsError, ReportingSystem.dispatch, enqueue, closeCollector]

theorem hasOutcome_run {start s : ReportingSystem} {acts : List ReportingAction}
    (fresh : start.hasOutcome = false) (ran : run step start acts = some s)
    (heard : ∀ a ∈ acts, a.heard = true) :
    s.hasOutcome = true ↔ Takes step ReadsError start acts := by
  have quiet : ¬ start.hasOutcome = true := by simp [fresh]
  exact run_takes (P := fun s => s.hasOutcome = true) ran quiet heard
    fun _ _ _ heard taken => hasOutcome_step (steps_of_step taken) heard

end ReportingSystem

namespace Exchange

variable {β γ : Type} [HttpBody β] [HttpBody γ]

omit [HttpBody γ] in
theorem track_reporters_fresh {env : TrackEnv} {direction : Direction}
    {event : FoundBodyData → ProxyEvent} {body : β} {start : ReportingSystem}
    (h : start ∈ (track env direction event body).reporters) : start.hasOutcome = false := by
  unfold track startedReporters at h
  split at h
  · cases h
  · split at h
    · split at h
      · obtain rfl := List.mem_singleton.mp h
        rfl
      · cases h
    · cases h

/-- The event of a head is published if the prefetch reads no error and there
is somebody to hear it. -/
theorem track_published {env : TrackEnv} (direction : Direction)
    (event : FoundBodyData → ProxyEvent) (body : β) (listening : env.listening = true) :
    (FailsInPrefetch env.peekTicks body ∧ (track env direction event body).published = []) ∨
      (¬ FailsInPrefetch env.peekTicks body ∧
        ∃ found, (track env direction event body).published = [event found]) := by
  rcases hc : collectReadyData env.peekTicks env.zeroTicks body with err | ⟨found, parts⟩
  · refine .inl ⟨(collectReadyData_fails_iff _ env.zeroTicks body).mp ⟨err, hc⟩, ?_⟩
    simp [track, hc]
  · refine .inr ⟨fun fails => ?_, found, by simp [track, hc, listening]⟩
    obtain ⟨err, herr⟩ := (collectReadyData_fails_iff _ env.zeroTicks body).mpr fails
    simp [hc] at herr

omit [HttpBody γ] in
theorem finishRequest_fresh {x : Exchange} {env : ExchangeEnv γ} {orig transformed : Request β}
    {start : ReportingSystem} (h : start ∈ (x.finishRequest env orig transformed).reporters) :
    start.hasOutcome = false := by
  rw [finishRequest] at h
  split at h
  · exact track_reporters_fresh h
  · cases h

theorem processResponse_fresh {x : Exchange} {env : ExchangeEnv γ} {response : Response γ}
    {start : ReportingSystem} (h : start ∈ (x.processResponse env response).2.1) :
    start.hasOutcome = false := by
  unfold processResponse finishResponse at h
  split at h
  · cases h
  · split at h
    · exact track_reporters_fresh h
    · cases h

theorem process_reporters_fresh {x : Exchange} {env : ExchangeEnv γ} {incoming : Request β}
    {start : ReportingSystem} (h : start ∈ (x.process env incoming).reporters) :
    start.hasOutcome = false := by
  rw [process] at h
  split at h
  · cases h
  · dsimp only at h
    split at h
    · exact finishRequest_fresh h
    · split at h
      · exact finishRequest_fresh h
      · rcases List.mem_append.mp h with request | response
        · exact finishRequest_fresh request
        · exact processResponse_fresh response

/-- The request is forwarded, the upstream answers it, and no error is read
ahead in the answer. -/
def Answered (x : Exchange) (env : ExchangeEnv γ) (incoming : Request β) : Prop :=
  ∃ request response, x.transformRequestParts incoming = .ok request ∧
    Reportable env.request incoming.body ∧
    env.client request.parts (trace incoming.body) = .ok response ∧
    ¬ FailsInPrefetch env.response.peekTicks response.body

theorem trackRequest_noOutcome (env : TrackEnv) (request : Request β) (orig : RequestParts) :
    (trackRequest (β := β) env request orig).published.any ProxyEvent.isOutcome = false := by
  rw [trackRequest, track]
  split
  · rfl
  · split <;> rfl

theorem bypass_published (service : Service) (conn : ConnInfo) (env : ExchangeEnv γ)
    (incoming : Request β) : (process ⟨service, false, conn⟩ env incoming).published = [] := by
  have response : ∀ r, (processResponse ⟨service, false, conn⟩ env r).1 = [] := by
    intro r
    rw [processResponse]
    split <;> rfl
  rw [process]
  split
  · rfl
  · dsimp only
    split
    · rfl
    · split
      · rfl
      · exact response _

/-- The response event is published exactly when no error is read ahead. -/
theorem processResponse_published (service : Service) (conn : ConnInfo) (env : ExchangeEnv γ)
    (response : Response γ) (listening : env.response.listening = true) :
    (processResponse ⟨service, true, conn⟩ env response).1.any ProxyEvent.isOutcome = true ↔
      ¬ FailsInPrefetch env.response.peekTicks response.body := by
  obtain ⟨headers, -, transformed⟩ := transformResponseParts_via response
  simp only [processResponse, transformed, finishResponse, trackResponse, if_true]
  rcases track_published .response
    (fun found => .fromResponse response.parts found env.elapsedMs) response.body listening with
    ⟨fails, published⟩ | ⟨reads, found, published⟩
  · simp [published, fails]
  · rw [published]
    simp [reads, ProxyEvent.fromResponse, ProxyEvent.isOutcome]

/-- Once the request event is out, an exchange publishes an outcome itself
exactly when it is answered. -/
theorem process_outcome_iff {x : Exchange} {env : ExchangeEnv γ} {incoming : Request β}
    (requested : (x.process env incoming).published.any ProxyEvent.isRequest = true)
    (listening : env.response.listening = true) :
    (x.process env incoming).published.any ProxyEvent.isOutcome = true ↔
      x.Answered env incoming := by
  obtain ⟨service, report, conn⟩ := x
  cases report with
  | false => simp [bypass_published] at requested
  | true =>
    rcases transformed : transformRequestParts ⟨service, true, conn⟩ incoming with err | request
    · simp [process, transformed, Answered]
    · have sameBody := transformRequestParts_body transformed
      have quiet := trackRequest_noOutcome env.request request incoming.parts
      have answered : Answered ⟨service, true, conn⟩ env incoming ↔
          Reportable env.request incoming.body ∧
            ∃ response, env.client request.parts (trace incoming.body) = .ok response ∧
              ¬ FailsInPrefetch env.response.peekTicks response.body := by
        simp [Answered, transformed]
      rw [answered]
      by_cases reportable : Reportable env.request incoming.body
      · obtain ⟨boxed, hb⟩ := track_ok reportable .request
          fun found => .fromRequest incoming.parts found
        have tracked : (trackRequest env.request request incoming.parts).body = .ok boxed := by
          simpa only [trackRequest, sameBody] using hb
        rcases answer : env.client request.parts (trace incoming.body) with err | response
        · simp only [process, transformed, finishRequest, if_true, tracked, track_trace hb, answer,
            quiet]
          simp
        · simp only [process, transformed, finishRequest, if_true, tracked, track_trace hb, answer,
            List.any_append, quiet, Bool.false_or,
            processResponse_published service conn env response listening]
          simp [reportable]
      · obtain ⟨err, herr⟩ := track_error reportable .request
          fun found => .fromRequest incoming.parts found
        have tracked : (trackRequest env.request request incoming.parts).body = .error err := by
          simpa only [trackRequest, sameBody] using herr
        simp [process, transformed, finishRequest, tracked, quiet, reportable]

/-- Among the events published by the time `process` returns there is an outcome
exactly when the exchange is answered or a body reporter has read an error. -/
theorem outcome_published_iff {x : Exchange} {env : ExchangeEnv γ} {incoming : Request β}
    {runs : List ReporterRun}
    (requested : (x.process env incoming).published.any ProxyEvent.isRequest = true)
    (listening : env.response.listening = true)
    (started : runs.map ReporterRun.start = (x.process env incoming).reporters)
    (heard : ∀ r ∈ runs, ∀ a ∈ r.acts, a.heard = true) :
    ((x.process env incoming).published ++ runs.flatMap fun r => r.state.published).any
        ProxyEvent.isOutcome = true ↔
      x.Answered env incoming ∨ ∃ r ∈ runs,
        Takes ReportingSystem.step ReportingSystem.ReadsError r.start r.acts := by
  rw [List.any_append, Bool.or_eq_true, process_outcome_iff requested listening, List.any_flatMap,
    List.any_eq_true]
  refine or_congr_right (exists_congr fun r => and_congr_right fun member => ?_)
  have fresh : r.start.hasOutcome = false :=
    process_reporters_fresh (started ▸ List.mem_map_of_mem member)
  exact ReportingSystem.hasOutcome_run fresh r.ran (heard r member)

end Exchange

section Unreachable

/-- Everybody listens, and the upstream cannot be reached or sends a short answer. -/
private def refusingEnv : ExchangeEnv (Script BodyStreamItem) where
  client _ _ := .error ⟨true, false⟩
  elapsedMs := 0
  request := .quick true
  response := .quick true

private def answeringEnv : ExchangeEnv (Script BodyStreamItem) where
  client _ _ := .ok ⟨⟨⟨204, by omega⟩, .http11, HeaderMap.new⟩, ⟨[]⟩⟩
  elapsedMs := 5
  request := .quick true
  response := .quick true

private def captured : Exchange := ⟨localService, true, localConn⟩

theorem outcome_published_answered : captured.Answered answeringEnv emptyGet := by
  have quiet : (captured.process answeringEnv emptyGet).reporters = [] :=
    List.length_eq_zero_iff.mp (by decide +kernel)
  have iff := @Exchange.outcome_published_iff _ _ _ _ captured answeringEnv emptyGet []
    (by decide +kernel) rfl quiet.symm (by simp)
  simpa using iff.mp (by decide +kernel)

/-- A refused connection leaves the published request without an outcome. -/
theorem outcome_missing_refused :
    (captured.process refusingEnv emptyGet).published.any ProxyEvent.isRequest = true ∧
      (captured.process refusingEnv emptyGet).reporters.length = 0 ∧
      (captured.process refusingEnv emptyGet).published.any ProxyEvent.isOutcome = false := by
  decide +kernel

end Unreachable

end Protospy
