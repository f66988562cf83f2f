import Protospy.Proxy.Event
import Protospy.Proxy.Reporting
import Protospy.Proxy.Wrapper

/-!
# Exchanges (`exchange.rs`, `service.rs`)

One request and its response. A request that is not captured is forwarded as it
is; a captured one is prefetched, reported and forwarded through a wrapper. What
the exchange does not control is an input: the upstream server, the timers,
whether a subscriber listens at each event, whether a task can be spawned.
-/

namespace Protospy

open PollStream

abbrev BodyTrace := Set (Seen BodyStreamItem)

/-- The target URL of a service, as `normalize_uri` leaves it. -/
structure Target where
  uri : Uri
  hasScheme : uri.scheme.isSome = true
  hasAuthority : uri.authority ≠ ""

def uriFromParts (parts : UriParts) : Except Report Uri :=
  match Uri.fromParts parts with
  | some uri => .ok uri
  | none => .error .invalidUriParts

/-- Transform a user-specified URI to one with valid scheme and path. -/
def normalizeUri (spec : Uri) : Except Report Uri :=
  let parts := spec.intoParts
  uriFromParts ⟨some (parts.scheme.getD "http"), parts.authority,
    some (parts.pathAndQuery.getD "/")⟩

theorem normalizeUri_target {spec uri : Uri} (h : normalizeUri spec = .ok uri) :
    uri.scheme.isSome = true ∧ uri.authority ≠ "" := by
  by_cases noAuthority : spec.authority = "" <;>
    simp [normalizeUri, uriFromParts, Uri.fromParts, Uri.intoParts, noAuthority] at h
  rw [← h]
  exact ⟨rfl, noAuthority⟩

/-- The fields that an exchange reads. -/
structure Service where
  target : Target

/-- Map the original request URI to the upstream server. -/
def Service.mapUri (service : Service) (reqUri : Uri) : Except Report Uri :=
  uriFromParts { service.target.uri.intoParts with pathAndQuery := reqUri.pathAndQuery? }

/-! ## Responses made by the proxy -/

/-- `body::downstream::empty_response`. -/
def emptyResponse : Boxed.{0} BodyStreamItem := ⟨(Iter.empty : Iter BodyStreamItem)⟩

abbrev ProxyResponse := Response (Boxed.{0} BodyStreamItem)

def errorHeaders (cause : Cause) : Except Report HeaderMap := do
  let headers := HeaderMap.new.append .server (← parseHeaderValue serverName)
  .ok (headers.append .xCause (← parseHeaderValue cause.toText))

def errorHttpResponse (status : StatusCode) (cause : Cause) : Except Report ProxyResponse :=
  match errorHeaders cause with
  | .ok headers => .ok ⟨⟨status, .http11, headers⟩, emptyResponse⟩
  | .error err => .error err

def internalErrorResponse : Except Report ProxyResponse :=
  errorHttpResponse .badGateway .internalError

def clientErrorResponse (err : ClientError) : Except Report ProxyResponse :=
  errorHttpResponse err.classify.2 err.classify.1

/-! ## The exchange -/

/-- What tracking one body meets: the ticks of the prefetch timers, whether
anybody listens when the event is sent, whether a task can be spawned, and how
the dispatches to the reporter go. -/
structure TrackEnv where
  peekTicks : Nat
  zeroTicks : Nat
  listening : Bool
  spawns : Bool
  reporter : FrameReporter

/-- The client sees the head of a request and the frames of its body. -/
structure ExchangeEnv (γ : Type) where
  client : RequestParts → BodyTrace → Except ClientError (Response γ)
  elapsedMs : Int
  request : TrackEnv
  response : TrackEnv

structure Exchange where
  service : Service
  shouldReport : Bool
  conn : ConnInfo

/-- What an exchange leaves behind: the events it published itself, the body
reporters it started, the request it sent and the response it returned. -/
structure Outcome where
  published : List ProxyEvent
  reporters : List ReportingSystem
  sent : Option (RequestParts × BodyTrace)
  response : Except Report ProxyResponse

/-- The published events, the reporters started and the result of a tracked body. -/
structure Tracked where
  published : List ProxyEvent
  reporters : List ReportingSystem
  body : Except Report (Boxed.{0} BodyStreamItem)

section Tracking

variable {β : Type} [HttpBody β]

def trackedBody (env : TrackEnv) (direction : Direction) (prefetched : PrefetchedParts β) :
    Except Report (Boxed.{0} BodyStreamItem) :=
  prefetched.assemble fun rest =>
    if env.spawns then .ok (BodyStreamWrapper.new direction rest env.reporter)
    else .error .spawnFailed

/-- The reporter tasks that `tracked_body` starts. -/
def startedReporters (env : TrackEnv) (direction : Direction) (prefetched : PrefetchedParts β) :
    List ReportingSystem :=
  if prefetched.rest.isSome ∧ env.spawns = true then
    [.createBuffered direction prefetched.dataBytes]
  else []

/-- The common part of `track_request` and `track_response`. -/
def track (env : TrackEnv) (direction : Direction) (event : FoundBodyData → ProxyEvent)
    (body : β) : Tracked :=
  match collectReadyData env.peekTicks env.zeroTicks body with
  | .error err => ⟨[], [], .error err⟩
  | .ok (found, prefetched) =>
    if env.listening then
      ⟨[event found], startedReporters env direction prefetched,
        trackedBody env direction prefetched⟩
    else ⟨[], [], .error .noReceivers⟩

end Tracking

namespace Exchange

variable {β γ : Type} [HttpBody β] [HttpBody γ]

/-- The new request is built with the default version. -/
def transformRequestParts (x : Exchange) (request : Request β) : Except Report (Request β) := do
  let targetUri ← x.service.mapUri request.parts.uri
  let reqHeaders ← requestHeaders x.service.target.uri.authority request.parts x.conn
  .ok ⟨⟨request.parts.method, targetUri, .http11, reqHeaders⟩, request.body⟩

def transformResponseParts (response : Response γ) : Except Report (Response γ) := do
  let newHeaders ← responseHeaders response.parts
  .ok ⟨{ response.parts with headers := newHeaders }, response.body⟩

def trackRequest (env : TrackEnv) (request : Request β) (origParts : RequestParts) : Tracked :=
  track env .request (fun found => .fromRequest origParts found) request.body

def trackResponse (env : TrackEnv) (response : Response γ) (origParts : ResponseParts)
    (elapsedMs : Int) : Tracked :=
  track env .response (fun found => .fromResponse origParts found elapsedMs) response.body

/-- The part of `process_response` after the headers were transformed. -/
def finishResponse (x : Exchange) (env : ExchangeEnv γ) (orig transformed : Response γ) :
    Tracked :=
  if x.shouldReport then trackResponse env.response transformed orig.parts env.elapsedMs
  else ⟨[], [], .ok ⟨transformed.body⟩⟩

/-- The part of `build_upstream_request` after the request was transformed. -/
def finishRequest (x : Exchange) (env : ExchangeEnv γ) (orig transformed : Request β) :
    Tracked :=
  if x.shouldReport then trackRequest env.request transformed orig.parts
  else ⟨[], [], .ok ⟨transformed.body⟩⟩

/-- The response to a request that could not be built. -/
def requestErrorResponse (err : Report) : Except Report ProxyResponse :=
  match err.findHyperError with
  | some _ => errorHttpResponse .badRequest .requestError
  | none => internalErrorResponse

/-- The events, the reporters and the response after the upstream has answered. -/
def processResponse (x : Exchange) (env : ExchangeEnv γ) (response : Response γ) :
    List ProxyEvent × List ReportingSystem × Except Report ProxyResponse :=
  match transformResponseParts response with
  | .error _ => ([], [], internalErrorResponse)
  | .ok transformed =>
    let tracked := x.finishResponse env response transformed
    (tracked.published, tracked.reporters, match tracked.body with
      | .ok body => .ok ⟨transformed.parts, body⟩
      | .error _ => internalErrorResponse)

def process (x : Exchange) (env : ExchangeEnv γ) (incoming : Request β) : Outcome :=
  match x.transformRequestParts incoming with
  | .error err => ⟨[], [], none, requestErrorResponse err⟩
  | .ok request =>
    let tracked := x.finishRequest env incoming request
    match tracked.body with
    | .error err => ⟨tracked.published, tracked.reporters, none, requestErrorResponse err⟩
    | .ok body =>
      let sent := (request.parts, trace body)
      match env.client sent.1 sent.2 with
      | .error err =>
        ⟨tracked.published, tracked.reporters, some sent, clientErrorResponse err⟩
      | .ok response =>
        let (published, reporters, result) := x.processResponse env response
        ⟨tracked.published ++ published, tracked.reporters ++ reporters, some sent, result⟩

end Exchange

end Protospy
