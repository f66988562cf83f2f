import Protospy.Conformance.ChunkedEncoding

/-!
# Reading a response (`h11_client.py`)

The client reads one response from the socket, by the framing that its head declares, and
takes it apart.
-/

namespace Protospy

/-! ## Framing -/

/-- `headers[name] = value`. -/
def setHeader (headers : List (Bytes × Bytes)) (name value : Bytes) : List (Bytes × Bytes) :=
  if headers.any fun entry => entry.1 = name then
    headers.map fun entry => if entry.1 = name then (name, value) else entry
  else headers ++ [(name, value)]

def readHeader (headers : List (Bytes × Bytes)) (line : Bytes) : List (Bytes × Bytes) :=
  setHeader headers (latin1Lower (latin1Strip (line.takeWhile (· ≠ 58))))
    (latin1Strip ((line.dropWhile (· ≠ 58)).drop 1))

/-- Where the body ends, as far as the head tells. -/
inductive Framing where
  | chunked
  | sized (length : Int)
  | untilClose
  deriving DecidableEq

def ascii (s : String) : Bytes := s.toList.map fun c => UInt8.ofNat c.toNat

def transferEncoding : Bytes := ascii "transfer-encoding"

def contentLength : Bytes := ascii "content-length"

def chunkedCoding : Bytes := ascii "chunked"

/-- The framing by the values of the two headers. -/
def framingOf (te cl : Option Bytes) : Framing :=
  if (Occurrence.first chunkedCoding (latin1Lower (te.getD []))).isSome then .chunked
  else match cl with
    | some raw => .sized ((Py.int10 raw).getD 0)
    | none => .untilClose

/-- The framing that a head declares; of a header that is repeated the last one counts. -/
def framing (head : Bytes) : Framing :=
  let headers := (splitLines head).tail.foldl readHeader []
  framingOf (headers.lookup transferEncoding) (headers.lookup contentLength)

/-! ## Reading -/

/-- `_read_complete_response`, where the loop over chunks has at most `fuel` iterations. -/
def readCompleteResponse (fuel : Nat) (sock : Socket) : Option (Bytes × Socket) :=
  match sock.receiveUntil (fun buf => (Py.find (crlf ++ crlf) buf 0).isSome) [] with
  | (false, buf, sock) => some (buf, sock)
  | (true, buf, sock) =>
    let headerEnd := (Py.find (crlf ++ crlf) buf 0).getD 0
    let head := buf.take (headerEnd + 4)
    let bodyStart := buf.drop (headerEnd + 4)
    match framing (buf.take headerEnd) with
    | .chunked => (readChunkedBody fuel sock bodyStart).map fun (body, sock) => (head ++ body, sock)
    | .sized length =>
      match sock.receiveUntil (fun body => length ≤ body.length) bodyStart with
      | (_, body, sock) => some (head ++ Py.slice body 0 length, sock)
    | .untilClose =>
      match sock.receiveUntil (fun _ => false) bodyStart with
      | (_, body, sock) => some (head ++ body, sock)

structure RawResponse where
  status : Int
  headers : Trailers
  body : Bytes
  deriving DecidableEq

inductive ResponseError where
  | noHeaderTerminator
  | noStatus
  | badStatus
  deriving DecidableEq

def colonSpace : Bytes := [58, 32]

/-- `name, _, value = line.partition(": ")`. -/
def partitionHeader (line : Bytes) : Bytes × Bytes :=
  match Occurrence.first colonSpace line with
  | some i => (line.take i, line.drop (i + 2))
  | none => (line, [])

def addHeader (headers : Trailers) (line : Bytes) : Trailers :=
  addTrailer headers (latin1Lower (partitionHeader line).1) (partitionHeader line).2

/-- `int(status_line.split(" ", 2)[1])`. -/
def statusOf (line : Bytes) : Except ResponseError Int :=
  if 32 ∈ line then
    match Py.int10 (((line.dropWhile (· ≠ 32)).drop 1).takeWhile (· ≠ 32)) with
    | some status => .ok status
    | none => .error .badStatus
  else .error .noStatus

def parseRawResponse (data : Bytes) : Except ResponseError RawResponse :=
  match Py.find (crlf ++ crlf) data 0 with
  | none => .error .noHeaderTerminator
  | some headerEnd =>
    let lines := splitLines (data.take headerEnd)
    match statusOf (lines.headD []) with
    | .error e => .error e
    | .ok status => .ok ⟨status, lines.tail.foldl addHeader [], data.drop (headerEnd + 4)⟩

/-- `_read_response`: nothing where the connection closed with no data. -/
def readResponse (fuel : Nat) (sock : Socket) :
    Option (Option (Except ResponseError RawResponse) × Socket) :=
  (readCompleteResponse fuel sock).map fun (bytes, sock) =>
    (if bytes = [] then none else some (parseRawResponse bytes), sock)

end Protospy
