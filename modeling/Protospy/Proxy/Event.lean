import Protospy.Bindings
import Protospy.Proxy.Headers

/-!
# Events and their serialization (`event.rs`)

Serialization goes from the proxy's event to the value the UI parses. It fails
where a header value has no text form; `serde_json` itself loses nothing.
-/

namespace Protospy

open Event (BodyContent BodyData InitialBody)

structure Header where
  name : HeaderName
  value : HeaderValue
  deriving DecidableEq

abbrev Headers := List Header

namespace Headers

/-- `From<HeaderMap>`: an item without a name is left out. -/
def ofMap (map : HeaderMap) : Headers :=
  (map.intoIter.filterMap fun p => p.1.map fun name => (name, p.2)).map fun p => ⟨p.1, p.2⟩

theorem ofMap_eq (map : HeaderMap) :
    ofMap map = map.entries.map fun e => ⟨e.name, e.first⟩ := by
  have unnamed : ∀ rest : List HeaderValue,
      (rest.map fun v => ((none : Option HeaderName), v)).filterMap
        (fun p => p.1.map fun name => (name, p.2)) = [] := by
    intro rest
    induction rest with
    | nil => rfl
    | cons v rest ih => simp
  unfold ofMap HeaderMap.intoIter
  induction map.entries with
  | nil => rfl
  | cons e entries ih => simpa [unnamed] using ih

end Headers

inductive ProxyEvent where
  | request (method uri : String) (version : Version) (headers : Headers)
      (body : InitialBody Headers)
  | response (status : StatusCode) (version : Version) (headers : Headers) (elapsedMs : Int)
      (body : InitialBody Headers)
  | bodyData (body : BodyData Headers)
  | error (direction : Direction) (message : String)
  deriving DecidableEq

structure EventMessage where
  exchange : ExchangeMeta
  direction : Direction
  event : ProxyEvent
  deriving DecidableEq

/-- `BodyData::from_content`. -/
def bodyDataFromContent (content : Body.BodyContent) (atEnd : Bool) : BodyData Headers where
  content := some ⟨0, content.data.length, .ofBytes content.data⟩
  trailers := content.trailers.map Headers.ofMap
  atEnd := atEnd
  totalBytes := content.data.length

/-- `InitialBody::from_found`. -/
def initialBodyFromFound : FoundBodyData → InitialBody Headers
  | .noBody => .noBody
  | .noneRead => .notRead
  | .partialData content => .data (bodyDataFromContent content false)
  | .complete content => .data (bodyDataFromContent content true)

namespace ProxyEvent

def fromRequest (request : RequestParts) (bodyData : FoundBodyData) : ProxyEvent :=
  .request request.method request.uri.toText request.version (Headers.ofMap request.headers)
    (initialBodyFromFound bodyData)

def fromResponse (response : ResponseParts) (bodyData : FoundBodyData) (elapsedMs : Int) :
    ProxyEvent :=
  .response response.status response.version (Headers.ofMap response.headers) elapsedMs
    (initialBodyFromFound bodyData)

end ProxyEvent

/-! ## Serialization -/

inductive SerializeError where
  | invalidVersion (version : Version)
  | invalidHeaderValue (value : HeaderValue)

namespace SerializeError

def httpVersion (version : Version) : Except SerializeError String :=
  match httpVersionNum version with
  | .ok num => .ok num
  | .error _ => .error (.invalidVersion version)

def httpHeaderValue (value : HeaderValue) : Except SerializeError String :=
  match value.toStr with
  | some s => .ok s
  | none => .error (.invalidHeaderValue value)

end SerializeError

open SerializeError (httpVersion httpHeaderValue)

def Headers.serialize : Headers → Except SerializeError Wire.ProxyHeaders
  | [] => .ok []
  | header :: rest => do
    let value ← httpHeaderValue header.value
    let rest ← Headers.serialize rest
    .ok (⟨header.name.text, value⟩ :: rest)

def serializeTrailers : Option Headers → Except SerializeError (Option Wire.ProxyHeaders)
  | none => .ok none
  | some headers => headers.serialize.map some

def serializeBodyData (body : BodyData Headers) :
    Except SerializeError (BodyData Wire.ProxyHeaders) :=
  (serializeTrailers body.trailers).map fun trailers =>
    ⟨body.content, trailers, body.atEnd, body.totalBytes⟩

def serializeInitialBody : InitialBody Headers →
    Except SerializeError (InitialBody Wire.ProxyHeaders)
  | .noBody => .ok .noBody
  | .notRead => .ok .notRead
  | .data body => (serializeBodyData body).map .data

def ProxyEvent.serialize : ProxyEvent → Except SerializeError Wire.Event
  | .request method uri version headers body => do
    .ok (.request method uri (← httpVersion version) (← headers.serialize)
      (← serializeInitialBody body))
  | .response status version headers elapsedMs body => do
    .ok (.response status.asStr (← httpVersion version) (← headers.serialize) elapsedMs
      (← serializeInitialBody body))
  | .bodyData body => (serializeBodyData body).map .bodyData
  | .error direction message => .ok (.error direction message)

def EventMessage.serialize (msg : EventMessage) : Except SerializeError Wire.EventMessage :=
  msg.event.serialize.map fun event => ⟨msg.exchange, msg.direction, event⟩

/-! ## Which messages serialize -/

/-- Every byte has a text form. -/
def HeaderValue.IsVisible (v : HeaderValue) : Prop :=
  ∀ b ∈ v.bytes, HeaderValue.isVisibleAscii b = true

def Event.BodyData.headerValues (body : BodyData Headers) : List HeaderValue :=
  (body.trailers.getD []).map Header.value

def Event.InitialBody.headerValues : InitialBody Headers → List HeaderValue
  | .data body => body.headerValues
  | _ => []

/-- The values of the headers and trailers in an event. -/
def ProxyEvent.headerValues : ProxyEvent → List HeaderValue
  | .request _ _ _ headers body => headers.map Header.value ++ body.headerValues
  | .response _ _ headers _ body => headers.map Header.value ++ body.headerValues
  | .bodyData body => body.headerValues
  | .error _ _ => []

theorem Headers.serialize_isSome (headers : Headers) :
    headers.serialize.toOption.isSome = true ↔ ∀ v ∈ headers.map Header.value, v.IsVisible := by
  induction headers with
  | nil => simp [Headers.serialize, Except.toOption]
  | cons header rest ih =>
    rw [List.map_cons, List.forall_mem_cons, ← ih, HeaderValue.IsVisible,
      ← HeaderValue.toStr_isSome]
    cases hv : header.value.toStr with
    | none => simp [Headers.serialize, SerializeError.httpHeaderValue, hv, bind, Except.bind,
        Except.toOption]
    | some value =>
      rcases hr : Headers.serialize rest with err | more <;>
        simp [Headers.serialize, SerializeError.httpHeaderValue, hv, hr, bind, Except.bind,
          Except.toOption]

theorem serializeBodyData_isSome (body : BodyData Headers) :
    (serializeBodyData body).toOption.isSome = true ↔ ∀ v ∈ body.headerValues, v.IsVisible := by
  rw [serializeBodyData, isSome_map, BodyData.headerValues]
  cases body.trailers with
  | none => simp [serializeTrailers, Except.toOption]
  | some headers =>
    rw [serializeTrailers, isSome_map]
    exact headers.serialize_isSome

theorem serializeInitialBody_isSome (body : InitialBody Headers) :
    (serializeInitialBody body).toOption.isSome = true ↔ ∀ v ∈ body.headerValues, v.IsVisible := by
  cases body with
  | noBody => simp [serializeInitialBody, Except.toOption, InitialBody.headerValues]
  | notRead => simp [serializeInitialBody, Except.toOption, InitialBody.headerValues]
  | data body =>
    rw [serializeInitialBody, isSome_map]
    exact serializeBodyData_isSome body

/-- A message serializes exactly when all its header values are visible. -/
theorem serialize_isSome (msg : EventMessage) :
    msg.serialize.toOption.isSome = true ↔ ∀ v ∈ msg.event.headerValues, v.IsVisible := by
  rw [EventMessage.serialize, isSome_map]
  cases msg.event with
  | request method uri version headers body =>
    rw [ProxyEvent.headerValues, List.forall_mem_append, ← headers.serialize_isSome,
      ← serializeInitialBody_isSome]
    rcases hh : headers.serialize with err | headers' <;>
      rcases hb : serializeInitialBody body with err | body' <;> cases version <;>
      simp [ProxyEvent.serialize, SerializeError.httpVersion, httpVersionNum, hh, hb, bind,
        Except.bind, Except.toOption]
  | response status version headers elapsedMs body =>
    rw [ProxyEvent.headerValues, List.forall_mem_append, ← headers.serialize_isSome,
      ← serializeInitialBody_isSome]
    rcases hh : headers.serialize with err | headers' <;>
      rcases hb : serializeInitialBody body with err | body' <;> cases version <;>
      simp [ProxyEvent.serialize, SerializeError.httpVersion, httpVersionNum, hh, hb, bind,
        Except.bind, Except.toOption]
  | bodyData body =>
    rw [ProxyEvent.serialize, isSome_map]
    exact serializeBodyData_isSome body
  | error direction message => simp [ProxyEvent.serialize, Except.toOption, ProxyEvent.headerValues]

end Protospy
