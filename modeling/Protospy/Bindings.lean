import Protospy.Proxy.Body

/-!
# Messages between the proxy and the UI (`bindings/`)

The types that both sides share. On the wire a message is a JSON text; what the
UI gets from parsing it is a value of these types, in which headers are plain
texts. The proxy builds the same body types over its own header type.
-/

namespace Protospy

/-- UTF-8 encoding of a text. -/
def encodeUtf8 (s : String) : Bytes := s.toByteArray.data.toList

def decodeUtf8 (bytes : Bytes) : Option String := String.fromUTF8? ⟨bytes.toArray⟩

theorem encodeUtf8_of_decode {bytes : Bytes} {s : String} (h : decodeUtf8 bytes = some s) :
    encodeUtf8 s = bytes := by
  rw [decodeUtf8, String.fromUTF8?] at h
  split at h
  · obtain rfl := Option.some.inj h
    rfl
  · cases h

/-- Base64 is undone where a binary chunk is read, so the chunk keeps its bytes. -/
inductive BodyChunk where
  | text (s : String)
  | binary (bytes : Bytes)
  deriving DecidableEq

namespace BodyChunk

/-- `From<Vec<u8>>`: text when the bytes are valid UTF-8 on their own. -/
def ofBytes (value : Bytes) : BodyChunk :=
  match decodeUtf8 value with
  | some s => .text s
  | none => .binary value

def bytes : BodyChunk → Bytes
  | .text s => encodeUtf8 s
  | .binary bytes => bytes

@[simp] theorem bytes_ofBytes (value : Bytes) : (ofBytes value).bytes = value := by
  rw [ofBytes]
  split
  · rename_i s h
    exact encodeUtf8_of_decode h
  · rfl

end BodyChunk

namespace Event

structure BodyContent where
  offset : Nat
  length : Nat
  payload : BodyChunk
  deriving DecidableEq

/-- `H` is the type of a header list. -/
structure BodyData (H : Type) where
  content : Option BodyContent
  trailers : Option H
  atEnd : Bool
  totalBytes : Nat
  deriving DecidableEq

inductive InitialBody (H : Type) where
  | noBody
  | notRead
  | data (body : BodyData H)
  deriving DecidableEq

end Event

structure ExchangeMeta where
  exchangeId : Nat
  timestamp : String
  deriving DecidableEq

namespace Wire

structure Header where
  name : String
  value : String
  deriving DecidableEq

abbrev ProxyHeaders := List Header

inductive Event where
  | request (method uri version : String) (headers : ProxyHeaders)
      (body : Event.InitialBody ProxyHeaders)
  | response (status version : String) (headers : ProxyHeaders) (elapsedMs : Int)
      (body : Event.InitialBody ProxyHeaders)
  | bodyData (body : Event.BodyData ProxyHeaders)
  | error (direction : Direction) (message : String)
  deriving DecidableEq

structure EventMessage where
  exchange : ExchangeMeta
  direction : Direction
  event : Event
  deriving DecidableEq

end Wire

end Protospy
