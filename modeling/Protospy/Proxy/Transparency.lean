import Protospy.Proxy.Exchange

/-!
# Capture and bypass

What the client and the upstream server see of an exchange is its traffic. The
captured exchange has the traffic of the bypassed one exactly when nothing goes
wrong in the reporting itself: no body error is read ahead, somebody listens when
the event of a head is sent, and a reporter can be spawned where one is needed.
-/

namespace Protospy

open PollStream

/-- What the client sees of a response. -/
def visible : Except Report ProxyResponse → Except Report (ResponseParts × BodyTrace)
  | .ok response => .ok (response.parts, trace response.body)
  | .error err => .error err

/-- What the upstream server and the client see. -/
def Outcome.traffic (o : Outcome) :
    Option (RequestParts × BodyTrace) × Except Report (ResponseParts × BodyTrace) :=
  (o.sent, visible o.response)

theorem parseHeaderValue_serverName : ∃ v, parseHeaderValue serverName = .ok v :=
  (exists_ok_iff _).mpr (by decide +kernel)

theorem parseHeaderValue_cause (cause : Cause) : ∃ v, parseHeaderValue cause.toText = .ok v := by
  rw [exists_ok_iff]
  cases cause <;> decide +kernel

/-- A `Via` value is always well formed. -/
theorem viaHeader_ok (version : Version) :
    ∃ text v, viaHeader version = .ok text ∧ parseHeaderValue text = .ok v := by
  have ok : ((viaHeader version).bind parseHeaderValue).toOption.isSome = true := by
    cases version <;> decide +kernel
  cases h : viaHeader version with
  | error err => simp [h, Except.bind, Except.toOption] at ok
  | ok text =>
    cases h' : parseHeaderValue text with
    | error err => simp [h, h', Except.bind, Except.toOption] at ok
    | ok v => exact ⟨text, v, rfl, h'⟩

/-- The response headers can always be computed, and they name the proxy. -/
theorem transformResponseParts_via {γ : Type} [HttpBody γ] (response : Response γ) :
    ∃ headers, headers.containsKey .via = true ∧ Exchange.transformResponseParts response =
      .ok ⟨{ response.parts with headers := headers }, response.body⟩ := by
  obtain ⟨text, v, htext, hv⟩ := viaHeader_ok response.parts.version
  refine ⟨_, ?_, by
    simp only [Exchange.transformResponseParts, responseHeaders, htext, hv, bind, Except.bind]
    rfl⟩
  simp [HeaderMap.containsKey_append]

theorem errorHttpResponse_spec (status : StatusCode) (cause : Cause) :
    ∃ headers, errorHttpResponse status cause = .ok ⟨⟨status, .http11, headers⟩, emptyResponse⟩ ∧
      headers.containsKey .via = false := by
  obtain ⟨server, hserver⟩ := parseHeaderValue_serverName
  obtain ⟨tag, htag⟩ := parseHeaderValue_cause cause
  have headers : errorHeaders cause =
      .ok ((HeaderMap.new.append .server server).append .xCause tag) := by
    simp only [errorHeaders, hserver, htag, bind, Except.bind]
  refine ⟨_, by rw [errorHttpResponse, headers], ?_⟩
  simp only [HeaderMap.containsKey_append]
  rfl

/-! ## Tracking one body -/

section Tracking

variable {β : Type} [HttpBody β]

/-- The prefetch leaves a rest, which a reporter has to watch. -/
def NeedsReporter (env : TrackEnv) (body : β) : Prop :=
  ∃ found parts, collectReadyData env.peekTicks env.zeroTicks body = .ok (found, parts) ∧
    parts.rest.isSome = true

/-- The reporting of the body meets no obstacle. -/
structure Reportable (env : TrackEnv) (body : β) : Prop where
  readable : ¬ FailsInPrefetch env.peekTicks body
  listening : env.listening = true
  spawns : NeedsReporter env body → env.spawns = true

theorem trackedBody_ok {env : TrackEnv} (direction : Direction) {parts : PrefetchedParts β}
    (spawns : parts.rest.isSome = true → env.spawns = true) :
    ∃ boxed, trackedBody env direction parts = .ok boxed := by
  obtain ⟨_ | frames, _ | rest⟩ := parts
  · exact ⟨_, rfl⟩
  · exact ⟨_, by simp only [trackedBody, PrefetchedParts.assemble, spawns rfl]; rfl⟩
  · exact ⟨_, rfl⟩
  · exact ⟨_, by simp only [trackedBody, PrefetchedParts.assemble, spawns rfl]; rfl⟩

theorem trackedBody_unspawned {env : TrackEnv} (direction : Direction)
    {parts : PrefetchedParts β} (rest : parts.rest.isSome = true) (spawns : env.spawns = false) :
    trackedBody env direction parts = .error .spawnFailed := by
  obtain ⟨_ | frames, _ | rest'⟩ := parts
  · cases rest
  · simp only [trackedBody, PrefetchedParts.assemble, spawns]
    rfl
  · cases rest
  · simp only [trackedBody, PrefetchedParts.assemble, spawns]
    rfl

theorem track_ok {env : TrackEnv} {body : β} (h : Reportable env body) (direction : Direction)
    (event : FoundBodyData → ProxyEvent) :
    ∃ boxed, (track env direction event body).body = .ok boxed := by
  rcases hc : collectReadyData env.peekTicks env.zeroTicks body with err | ⟨found, parts⟩
  · exact absurd ((collectReadyData_fails_iff _ _ body).mp ⟨err, hc⟩) h.readable
  · have spawns : parts.rest.isSome = true → env.spawns = true :=
      fun rest => h.spawns ⟨found, parts, hc, rest⟩
    obtain ⟨boxed, hb⟩ := trackedBody_ok direction spawns
    exact ⟨boxed, by simp only [track, hc, h.listening, if_true, hb]⟩

theorem track_error {env : TrackEnv} {body : β} (h : ¬ Reportable env body)
    (direction : Direction) (event : FoundBodyData → ProxyEvent) :
    ∃ err, (track env direction event body).body = .error err := by
  rcases hc : collectReadyData env.peekTicks env.zeroTicks body with err | ⟨found, parts⟩
  · exact ⟨err, by simp only [track, hc]⟩
  · by_cases listening : env.listening = true
    · have readable : ¬ FailsInPrefetch env.peekTicks body := fun fails => by
        obtain ⟨err, herr⟩ := (collectReadyData_fails_iff env.peekTicks env.zeroTicks body).mpr fails
        rw [hc] at herr
        cases herr
      have needs : ¬ (NeedsReporter env body → env.spawns = true) := fun spawns =>
        h ⟨readable, listening, spawns⟩
      obtain ⟨⟨found', parts', hc', rest⟩, stuck⟩ := Classical.not_imp.mp needs
      obtain ⟨rfl, rfl⟩ : found = found' ∧ parts = parts' := by simpa [hc] using hc'
      refine ⟨.spawnFailed, ?_⟩
      simp only [track, hc, listening, if_true]
      exact trackedBody_unspawned direction rest (by simpa using stuck)
    · exact ⟨.noReceivers, by simp [track, hc, listening]⟩

/-- A tracked body has the frames of the original one. -/
theorem track_trace {env : TrackEnv} {body : β} {direction : Direction}
    {event : FoundBodyData → ProxyEvent} {boxed : Boxed BodyStreamItem}
    (h : (track env direction event body).body = .ok boxed) : trace boxed = trace body := by
  unfold track at h
  split at h
  · cases h
  · rename_i found parts hc
    split at h
    · obtain ⟨-, same⟩ := collectReadyData_ok hc
      rw [same]
      refine PrefetchedParts.assemble_trace (fun rest wrapped hw => ?_) h
      split at hw
      · obtain rfl := Except.ok.inj hw
        exact BodyStreamWrapper.trace_idle rfl
      · cases hw
    · cases h

end Tracking

/-! ## The whole exchange -/

namespace Exchange

variable {β γ : Type} [HttpBody β] [HttpBody γ]

omit [HttpBody β] in
theorem transformRequestParts_body {x : Exchange} {incoming request : Request β}
    (h : x.transformRequestParts incoming = .ok request) : request.body = incoming.body := by
  simp only [transformRequestParts, bind, Except.bind] at h
  split at h
  · cases h
  · split at h
    · cases h
    · rw [← Except.ok.inj h]

/-- The client sees the same response exactly when the response is reportable:
otherwise it gets one of the proxy's own, which has no `Via`. -/
theorem processResponse_visible_iff (service : Service) (conn : ConnInfo) (env : ExchangeEnv γ)
    (response : Response γ) :
    visible (processResponse ⟨service, true, conn⟩ env response).2.2 =
        visible (processResponse ⟨service, false, conn⟩ env response).2.2 ↔
      Reportable env.response response.body := by
  obtain ⟨headers, via, transformed⟩ := transformResponseParts_via response
  have bypass : visible (processResponse ⟨service, false, conn⟩ env response).2.2 =
      .ok ({ response.parts with headers := headers }, trace response.body) := by
    simp [processResponse, transformed, finishResponse, visible]
  constructor
  · intro same
    by_contra h
    obtain ⟨err, herr⟩ := track_error h .response
      fun found => .fromResponse response.parts found env.elapsedMs
    obtain ⟨own, hown, noVia⟩ := errorHttpResponse_spec .badGateway .internalError
    rw [bypass] at same
    simp only [processResponse, transformed, finishResponse, trackResponse, herr, if_true,
      internalErrorResponse, hown, visible] at same
    have parts := congrArg (fun r => r.toOption.map fun p => p.1.headers.containsKey .via) same
    simp [Except.toOption, noVia, via] at parts
  · intro h
    obtain ⟨boxed, hb⟩ := track_ok h .response
      fun found => .fromResponse response.parts found env.elapsedMs
    rw [bypass]
    simp only [processResponse, transformed, finishResponse, trackResponse, hb, if_true, visible,
      track_trace hb]

theorem bypass_sent {service : Service} {conn : ConnInfo} {env : ExchangeEnv γ}
    {incoming request : Request β}
    (transformed : transformRequestParts ⟨service, false, conn⟩ incoming = .ok request) :
    (process ⟨service, false, conn⟩ env incoming).sent =
      some (request.parts, trace incoming.body) := by
  simp only [process, transformed, finishRequest, transformRequestParts_body transformed,
    Bool.false_eq_true, if_false, trace_boxed]
  split <;> rfl

/-- A request that cannot be reported is not forwarded. -/
theorem unreportable_sent {service : Service} {conn : ConnInfo} {env : ExchangeEnv γ}
    {incoming : Request β} (h : ¬ Reportable env.request incoming.body) :
    (process ⟨service, true, conn⟩ env incoming).sent = none := by
  rcases transformed : transformRequestParts ⟨service, true, conn⟩ incoming with err | request
  · simp [process, transformed]
  · obtain ⟨err, herr⟩ := track_error h .request fun found => .fromRequest incoming.parts found
    simp [process, transformed, finishRequest, trackRequest,
      transformRequestParts_body transformed, herr]

/-- Capture leaves the traffic alone exactly when, provided that the request can
be forwarded at all, the request and any response to it are reportable. -/
theorem capture_traffic_iff (service : Service) (conn : ConnInfo) (env : ExchangeEnv γ)
    (incoming : Request β) :
    (process ⟨service, true, conn⟩ env incoming).traffic =
        (process ⟨service, false, conn⟩ env incoming).traffic ↔
      ∀ request, transformRequestParts ⟨service, true, conn⟩ incoming = .ok request →
        Reportable env.request incoming.body ∧
          ∀ response, env.client request.parts (trace incoming.body) = .ok response →
            Reportable env.response response.body := by
  rcases transformed : transformRequestParts ⟨service, true, conn⟩ incoming with err | request
  · have transformed' : transformRequestParts ⟨service, false, conn⟩ incoming = .error err :=
      transformed
    simp [process, transformed, transformed']
  · have transformed' : transformRequestParts ⟨service, false, conn⟩ incoming = .ok request :=
      transformed
    by_cases reportable : Reportable env.request incoming.body
    · have sameBody := transformRequestParts_body transformed
      obtain ⟨boxed, hb⟩ := track_ok reportable .request
        fun found => .fromRequest incoming.parts found
      have sameTrace := track_trace hb
      rcases answer : env.client request.parts (trace incoming.body) with err | response
      · simp [process, transformed, transformed', finishRequest, trackRequest, sameBody, hb,
          sameTrace, answer, Outcome.traffic, reportable]
      · have iff := processResponse_visible_iff service conn env response
        simpa [process, transformed, transformed', finishRequest, trackRequest, sameBody, hb,
          sameTrace, answer, Outcome.traffic, reportable] using iff
    · refine ⟨fun same => ?_, fun all => absurd (all request rfl).1 reportable⟩
      have sent := congrArg Prod.fst same
      simp [Outcome.traffic, unreportable_sent reportable, bypass_sent transformed'] at sent

end Exchange

section Divergence

/-- The prefetch does not wait, tasks can be spawned, and a dispatch is done at
its first poll. -/
def TrackEnv.quick (listening : Bool) : TrackEnv :=
  ⟨0, 0, listening, true, fun _ _ => ⟨0, .ok (), fun _ => 0, rfl⟩⟩

/-- The subscriber leaves between `should_report` and the request event. -/
private def unheardEnv : ExchangeEnv (Script BodyStreamItem) where
  client _ _ := .error ⟨true, false⟩
  elapsedMs := 0
  request := .quick false
  response := .quick false

def localService : Service := ⟨⟨⟨some "http", "db", "/"⟩, rfl, by decide⟩⟩

def localConn : ConnInfo := ⟨"http", .v4 ![127, 0, 0, 1]⟩

def emptyGet : Request (Script BodyStreamItem) :=
  ⟨⟨"GET", ⟨none, "", "/"⟩, .http11, HeaderMap.new⟩, ⟨[]⟩⟩

theorem capture_traffic_unheard :
    (Exchange.process ⟨localService, true, localConn⟩ unheardEnv emptyGet).traffic ≠
      (Exchange.process ⟨localService, false, localConn⟩ unheardEnv emptyGet).traffic := by
  have forwarded : (Exchange.transformRequestParts ⟨localService, false, localConn⟩
      emptyGet).toOption.isSome = true := by decide +kernel
  rcases transformed : Exchange.transformRequestParts ⟨localService, false, localConn⟩
      emptyGet with err | request
  · simp [transformed, Except.toOption] at forwarded
  · intro same
    have unheard : ¬ Reportable unheardEnv.request emptyGet.body := fun h => by
      simpa [unheardEnv, TrackEnv.quick] using h.listening
    have sent := congrArg Prod.fst same
    simp [Outcome.traffic, Exchange.unreportable_sent unheard,
      Exchange.bypass_sent transformed] at sent

end Divergence

end Protospy
