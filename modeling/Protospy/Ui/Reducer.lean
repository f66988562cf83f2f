import Protospy.Ui.SseStream

/-!
# The exchange store (`state/types.ts`, `state/reducer.ts`)

The reducer folds the messages of the proxy into exchanges. Bodies of event
streams are parsed as they come; all other bodies keep their chunks.
-/

namespace Protospy

open Event (BodyData InitialBody)
open Wire (ProxyHeaders)

/-- `chunks` stays empty where `sseState` is set. -/
structure BodyState where
  chunks : List BodyChunk
  atEnd : Bool
  wireBytes : Nat
  decodedBytes : Option Nat
  contentType : Option String
  contentEncoding : Option String
  sseState : Option SSEStreamState
  deriving DecidableEq

structure ExchangeError where
  direction : Direction
  message : String
  deriving DecidableEq

namespace Ui

structure Exchange where
  id : Nat
  timestamp : String
  method : Option String
  uri : Option String
  version : Option String
  requestHeaders : Option ProxyHeaders
  requestBody : Option BodyState
  status : Option String
  responseVersion : Option String
  responseHeaders : Option ProxyHeaders
  elapsedMs : Option Int
  responseBody : Option BodyState
  error : Option ExchangeError
  traceId : Option Text
  deriving DecidableEq

namespace Exchange

/-- An exchange of which nothing but its metadata is known. -/
def fresh (id : Nat) (timestamp : String) : Exchange where
  id := id
  timestamp := timestamp
  method := none
  uri := none
  version := none
  requestHeaders := none
  requestBody := none
  status := none
  responseVersion := none
  responseHeaders := none
  elapsedMs := none
  responseBody := none
  error := none
  traceId := none

def body (ex : Exchange) : Direction → Option BodyState
  | .request => ex.requestBody
  | .response => ex.responseBody

end Exchange

/-- The `exchanges` map and the `ids` in order of arrival. -/
structure Store where
  exchanges : Nat → Option Exchange
  ids : List Nat

def Store.empty : Store := ⟨fun _ => none, []⟩

end Ui

def getHeader (headers : ProxyHeaders) (name : String) : Option String :=
  (headers.find? fun h =>
    Text.toLowerCase h.name.toList = Text.toLowerCase name.toList).map fun h => h.value

def isSSEContentType : Option String → Bool
  | some ct => "text/event-stream".toList.isPrefixOf (Text.toLowerCase ct.toList)
  | none => false

/-- Feed the payload, if any, and enforce the retention cap. -/
def feedPayload (state : SSEStreamState) : Option BodyChunk → SSEStreamState
  | some chunk => applyRetention (feedChunk state (chunkToText chunk)) maxSseEvents
  | none => state

def Event.BodyData.payload? {H : Type} (body : BodyData H) : Option BodyChunk :=
  body.content.map fun c => c.payload

def initialBodyToState (body : InitialBody ProxyHeaders) (headers : ProxyHeaders) :
    Option BodyState :=
  let contentType := getHeader headers "content-type"
  let contentEncoding := getHeader headers "content-encoding"
  match body with
  | .noBody => none
  | .notRead => some ⟨[], false, 0, none, contentType, contentEncoding,
      if isSSEContentType contentType then some createSSEStreamState else none⟩
  | .data body =>
    if isSSEContentType contentType then
      some ⟨[], body.atEnd, body.totalBytes, none, contentType, contentEncoding,
        some (feedPayload createSSEStreamState body.payload?)⟩
    else
      some ⟨body.payload?.toList, body.atEnd, body.totalBytes, none, contentType, contentEncoding, none⟩

def BodyState.seed : BodyState := ⟨[], false, 0, none, none, none, none⟩

def appendBodyData (prev : Option BodyState) (event : BodyData ProxyHeaders) : BodyState :=
  let base := prev.getD .seed
  match base.sseState with
  | some sseState => { base with
      sseState := some (feedPayload sseState event.payload?)
      atEnd := event.atEnd
      wireBytes := event.totalBytes }
  | none => { base with
      chunks := base.chunks ++ event.payload?.toList
      atEnd := event.atEnd
      wireBytes := event.totalBytes }

/-- The trace id of a `traceparent` header: its second part. -/
def traceIdOf (headers : ProxyHeaders) : Option Text :=
  match getHeader headers "traceparent" with
  | some tp => (tp.toList.splitOn '-')[1]?
  | none => none

namespace Ui

/-- The exchange after an event. -/
def Exchange.update (ex : Exchange) (direction : Direction) : Wire.Event → Exchange
  | .request method uri version headers body => { ex with
      method := some method
      uri := some uri
      version := some version
      requestHeaders := some headers
      requestBody := initialBodyToState body headers
      traceId := (traceIdOf headers).or ex.traceId }
  | .response status version headers elapsedMs body => { ex with
      status := some status
      responseVersion := some version
      responseHeaders := some headers
      elapsedMs := some elapsedMs
      responseBody := initialBodyToState body headers }
  | .bodyData event => match direction with
    | .request => { ex with requestBody := some (appendBodyData ex.requestBody event) }
    | .response => { ex with responseBody := some (appendBodyData ex.responseBody event) }
  | .error direction message => { ex with error := some ⟨direction, message⟩ }

def apply (store : Store) (msg : Wire.EventMessage) : Store :=
  let id := msg.exchange.exchangeId
  let prev := store.exchanges id
  let ex := prev.getD (.fresh id msg.exchange.timestamp)
  ⟨Function.update store.exchanges id (some (ex.update msg.direction msg.event)),
    if prev.isNone then store.ids ++ [id] else store.ids⟩

end Ui

end Protospy
