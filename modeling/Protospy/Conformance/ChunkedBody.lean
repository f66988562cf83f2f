import Protospy.Lib.Loop
import Protospy.Conformance.PyBytes

/-!
# Reading chunked bodies (`h11_client.py`)

The loop that reads a chunked body from the socket, and the one that looks for the
trailers in what was read.
-/

namespace Protospy

/-! ## The socket -/

/-- What one call of `recv` gives while the peer sends. -/
structure Segment where
  bytes : Bytes
  nonempty : bytes ≠ []

inductive Ending where
  | closed
  | timedOut
  deriving DecidableEq

/-- What the peer still sends, what follows it, and how often `recv` was called. -/
structure Socket where
  segments : List Segment
  ending : Ending
  reads : Nat

namespace Socket

/-- `recv`; `none` where it raises `OSError`. -/
def recv (sock : Socket) : Option Bytes × Socket :=
  match sock.segments with
  | [] =>
    (match sock.ending with
      | .closed => some []
      | .timedOut => none,
      { sock with reads := sock.reads + 1 })
  | s :: rest => (some s.bytes, { sock with segments := rest, reads := sock.reads + 1 })

/-- Append what is received; `none` where the function is to return what it has. -/
def receive (sock : Socket) (buf : Bytes) : Option Bytes × Socket :=
  match sock.recv with
  | (none, sock) => (none, sock)
  | (some chunk, sock) => (if chunk = [] then none else some (buf ++ chunk), sock)

/-- The bytes that are still to come. -/
def pending (sock : Socket) : Bytes := (sock.segments.map Segment.bytes).flatten

end Socket

/-- `while not done(buf)`: receive. The flag tells that the buffer is as wanted. -/
def receiveUntil (done : Bytes → Bool) (ending : Ending) :
    List Segment → Nat → Bytes → Bool × Bytes × Socket
  | [], reads, buf =>
    if done buf then (true, buf, ⟨[], ending, reads⟩) else (false, buf, ⟨[], ending, reads + 1⟩)
  | s :: rest, reads, buf =>
    if done buf then (true, buf, ⟨s :: rest, ending, reads⟩)
    else receiveUntil done ending rest (reads + 1) (buf ++ s.bytes)

def Socket.receiveUntil (done : Bytes → Bool) (sock : Socket) (buf : Bytes) :
    Bool × Bytes × Socket :=
  Protospy.receiveUntil done sock.ending sock.segments sock.reads buf

/-! ## The loops -/

def crlf : Bytes := [13, 10]

/-- The size in a chunk-size line, without its extensions. -/
def chunkSize (line : Bytes) : Option Int := Py.int16 (Py.strip (line.takeWhile (· ≠ 59)))

structure Reader where
  sock : Socket
  buf : Bytes

/-- One iteration of the loop in `_read_chunked_body`. -/
def Reader.iterate (r : Reader) : Reader ⊕ (Bytes × Socket) :=
  match Py.find crlf r.buf 0 with
  | none =>
    match r.sock.receive r.buf with
    | (some buf, sock) => .inl ⟨sock, buf⟩
    | (none, sock) => .inr (r.buf, sock)
  | some i =>
    match chunkSize (Py.slice r.buf 0 i) with
    | none => .inr (r.buf, r.sock)
    | some size =>
      match r.sock.receiveUntil (fun buf => (i : Int) + 2 + size + 2 ≤ buf.length) r.buf with
      | (false, buf, sock) => .inr (buf, sock)
      | (true, buf, sock) =>
        if size = 0 then
          match sock.receiveUntil (fun buf => (Py.find (crlf ++ crlf) buf (i + 2)).isSome) buf with
          | (false, buf, sock) => .inr (buf, sock)
          | (true, buf, sock) =>
            .inr (buf.take ((Py.find (crlf ++ crlf) buf (i + 2)).getD 0 + 4), sock)
        else .inl ⟨sock, Py.sliceFrom buf (i + 2 + size + 2)⟩

/-- What `_read_chunked_body` returns after at most `fuel` iterations. -/
def readChunkedBody (fuel : Nat) (sock : Socket) (initial : Bytes) : Option (Bytes × Socket) :=
  Loop.run Reader.iterate fuel ⟨sock, initial⟩

def splitLines : Bytes → List Bytes
  | [] => [[]]
  | [b] => [[b]]
  | a :: b :: rest =>
    if a = 13 ∧ b = 10 then [] :: splitLines rest
    else (splitLines (b :: rest)).modifyHead (a :: ·)

/-- White space in a string that was decoded from Latin-1. -/
def isLatin1Space (b : UInt8) : Bool :=
  b ∈ [9, 10, 11, 12, 13, 28, 29, 30, 31, 32, 0x85, 0xA0]

def latin1Strip (b : Bytes) : Bytes :=
  ((b.dropWhile isLatin1Space).reverse.dropWhile isLatin1Space).reverse

def latin1Lower (b : Bytes) : Bytes :=
  b.map fun x => if 65 ≤ x ∧ x ≤ 90 ∨ 0xC0 ≤ x ∧ x ≤ 0xDE ∧ x ≠ 0xD7 then x + 32 else x

abbrev Trailers := List (Bytes × List Bytes)

/-- `trailers.setdefault(name, []).append(value)`. -/
def addTrailer (trailers : Trailers) (name value : Bytes) : Trailers :=
  if name ∈ trailers.map Prod.fst then
    trailers.map fun entry => if entry.1 = name then (name, entry.2 ++ [value]) else entry
  else trailers ++ [(name, [value])]

def readTrailer (trailers : Trailers) (line : Bytes) : Trailers :=
  let name := latin1Lower (latin1Strip (line.takeWhile (· ≠ 58)))
  let value := latin1Strip ((line.dropWhile (· ≠ 58)).drop 1)
  if name = [] then trailers else addTrailer trailers name value

/-- The fields after the last chunk. -/
def trailerFields (rest : Bytes) : Trailers :=
  let lines := if crlf.isSuffixOf rest then rest.dropLast.dropLast else rest
  if lines = [] then [] else (splitLines lines).foldl readTrailer []

/-- One iteration of the loop in `parse_chunked_trailers`, from the position `pos`. -/
def scanChunk (body : Bytes) (pos : Int) : Int ⊕ Trailers :=
  if pos < body.length then
    match Py.find crlf body pos with
    | none => .inr []
    | some i =>
      match chunkSize (Py.slice body pos i) with
      | none => .inr []
      | some size =>
        if size = 0 then .inr (trailerFields (body.drop (i + 2))) else .inl (i + 2 + size + 2)
  else .inr []

/-- What `parse_chunked_trailers` returns after at most `fuel` iterations. -/
def parseChunkedTrailers (fuel : Nat) (body : Bytes) : Option Trailers :=
  Loop.run (scanChunk body) fuel 0

/-! ## What the socket gives -/

namespace Socket

theorem receive_nil (ending : Ending) (reads : Nat) (buf : Bytes) :
    receive ⟨[], ending, reads⟩ buf = (none, ⟨[], ending, reads + 1⟩) := by
  cases ending <;> rfl

theorem receive_cons (s : Segment) (rest : List Segment) (ending : Ending) (reads : Nat)
    (buf : Bytes) :
    receive ⟨s :: rest, ending, reads⟩ buf = (some (buf ++ s.bytes), ⟨rest, ending, reads + 1⟩) := by
  rw [receive, recv]
  exact congrArg (·, _) (if_neg s.nonempty)

/-- The loop that receives is its test followed by one call. -/
theorem receiveUntil_eq (done : Bytes → Bool) (sock : Socket) (buf : Bytes) :
    sock.receiveUntil done buf =
      if done buf then (true, buf, sock)
      else match sock.receive buf with
        | (some more, sock) => sock.receiveUntil done more
        | (none, sock) => (false, buf, sock) := by
  obtain ⟨segments, ending, reads⟩ := sock
  cases segments with
  | nil =>
    rw [Socket.receiveUntil, Protospy.receiveUntil, receive_nil]
  | cons s rest =>
    rw [Socket.receiveUntil, Protospy.receiveUntil, receive_cons]
    rfl

theorem receiveUntil_spec {done : Bytes → Bool} {sock sock' : Socket} {buf buf' : Bytes}
    {complete : Bool} (h : sock.receiveUntil done buf = (complete, buf', sock')) :
    ∃ taken, sock.segments = taken ++ sock'.segments ∧
      buf' = buf ++ (taken.map Segment.bytes).flatten ∧
      done buf' = complete ∧
      (complete = true → sock'.reads = sock.reads + taken.length) ∧
      (complete = false → sock'.segments = [] ∧ sock'.reads = sock.reads + taken.length + 1) := by
  obtain ⟨segments, ending, reads⟩ := sock
  rw [Socket.receiveUntil] at h
  dsimp only at h ⊢
  induction segments generalizing buf reads with
  | nil =>
    rw [Protospy.receiveUntil] at h
    by_cases isDone : done buf = true
    · rw [if_pos isDone] at h
      obtain ⟨rfl, rfl, rfl⟩ := h
      exact ⟨[], rfl, (List.append_nil _).symm, isDone, fun _ => rfl, fun f => by cases f⟩
    · rw [if_neg isDone] at h
      obtain ⟨rfl, rfl, rfl⟩ := h
      exact ⟨[], rfl, (List.append_nil _).symm, eq_false_of_ne_true isDone, (by simp),
        fun _ => ⟨rfl, rfl⟩⟩
  | cons s rest ih =>
    rw [Protospy.receiveUntil] at h
    by_cases isDone : done buf = true
    · rw [if_pos isDone] at h
      obtain ⟨rfl, rfl, rfl⟩ := h
      exact ⟨[], rfl, (List.append_nil _).symm, isDone, fun _ => rfl, fun f => by cases f⟩
    · rw [if_neg isDone] at h
      obtain ⟨taken, split, joined, isDone', fully, short⟩ := ih _ h
      refine ⟨s :: taken, by rw [split, List.cons_append], ?_, isDone', ?_, ?_⟩
      · rw [joined, List.map_cons, List.flatten_cons, List.append_assoc]
      · intro c
        rw [fully c, List.length_cons]
        omega
      · intro c
        obtain ⟨empty, count⟩ := short c
        refine ⟨empty, ?_⟩
        rw [count, List.length_cons]
        omega

end Socket

/-! ## One iteration -/

/-- What an iteration that goes on has done: it received, or it passed a chunk. -/
theorem Reader.iterate_cases {r r' : Reader} (h : r.iterate = .inl r') :
    (Py.find crlf r.buf 0 = none ∧ ∃ s rest, r.sock.segments = s :: rest ∧
      r' = ⟨⟨rest, r.sock.ending, r.sock.reads + 1⟩, r.buf ++ s.bytes⟩) ∨
    ∃ i size buf sock, Py.find crlf r.buf 0 = some i ∧
      chunkSize (Py.slice r.buf 0 i) = some size ∧
      r.sock.receiveUntil (fun buf => (i : Int) + 2 + size + 2 ≤ buf.length) r.buf =
        (true, buf, sock) ∧
      size ≠ 0 ∧ r' = ⟨sock, Py.sliceFrom buf (i + 2 + size + 2)⟩ := by
  obtain ⟨⟨segments, ending, reads⟩, buf⟩ := r
  rw [Reader.iterate] at h
  dsimp only at h ⊢
  split at h
  · rename_i absent
    refine Or.inl ⟨absent, ?_⟩
    cases segments with
    | nil =>
      rw [Socket.receive_nil] at h
      cases h
    | cons s rest =>
      rw [Socket.receive_cons] at h
      exact ⟨s, rest, rfl, (Sum.inl.inj h).symm⟩
  · rename_i i found
    split at h
    · cases h
    · rename_i size parsed
      split at h
      · cases h
      · rename_i buf' sock received
        split at h
        · split at h <;> cases h
        · rename_i nonzero
          exact Or.inr ⟨i, size, buf', sock, found, parsed, received, nonzero,
            (Sum.inl.inj h).symm⟩

end Protospy
