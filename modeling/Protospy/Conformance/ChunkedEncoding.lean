import Mathlib.Data.List.TakeWhile
import Protospy.Conformance.ChunkedBody

/-!
# Reading an encoded body

What the reader returns of a body that a peer has encoded in chunks, however it is cut
into reads.
-/

namespace Protospy

/-! ## The encoding -/

structure Chunk where
  data : Bytes
  nonempty : data ≠ []

/-- A trailer as it is sent, without its line break. -/
structure FieldLine where
  bytes : Bytes
  nonempty : bytes ≠ []
  oneLine : ∀ b ∈ bytes, b ≠ 13 ∧ b ≠ 10

def encodeChunk (data : Bytes) : Bytes := Py.hex data.length ++ (crlf ++ (data ++ crlf))

def encodeTrailers (trailers : List FieldLine) : Bytes :=
  trailers.foldr (fun t rest => t.bytes ++ (crlf ++ rest)) crlf

theorem encodeTrailers_nil : encodeTrailers [] = crlf := rfl

theorem encodeTrailers_cons (t : FieldLine) (trailers : List FieldLine) :
    encodeTrailers (t :: trailers) = t.bytes ++ (crlf ++ encodeTrailers trailers) := rfl

/-- The chunk of length zero and what follows it. -/
def encodeEnd (trailers : List FieldLine) : Bytes := Py.hex 0 ++ (crlf ++ encodeTrailers trailers)

def encodeBody (chunks : List Chunk) (trailers : List FieldLine) : Bytes :=
  chunks.foldr (fun c rest => encodeChunk c.data ++ rest) (encodeEnd trailers)

/-- A way to cut bytes into the buffer that the reader begins with and what it receives. -/
structure Segmentation (b : Bytes) where
  initial : Bytes
  segments : List Segment
  joined : initial ++ (segments.map Segment.bytes).flatten = b

/-! ## Size lines -/

theorem chunkSize_hex (n : Nat) : chunkSize (Py.hex n) = some (n : Int) := by
  have noExtension : (Py.hex n).takeWhile (· ≠ 59) = Py.hex n := by
    rw [List.takeWhile_eq_self_iff]
    exact fun b member => decide_eq_true (Py.mem_hex member).2.2.2.2.2.1
  have solid : Py.strip (Py.hex n) = Py.hex n :=
    Py.strip_eq_self fun b member => (Py.mem_hex member).1
  rw [chunkSize, noExtension, solid, Py.int16_hex]

theorem first_crlf_hex (n : Nat) (rest : Bytes) :
    Occurrence.first crlf (Py.hex n ++ (crlf ++ rest)) = some (Py.hex n).length :=
  Occurrence.first_eq_length (fun member => (Py.mem_hex member).2.2.2.2.2.2 rfl) rest

/-! ## The end of the trailers -/

/-- A line that is not empty does not end the trailers. -/
theorem first_crlf_line (t : FieldLine) (rest : Bytes) :
    Occurrence.first (crlf ++ crlf) (crlf ++ (t.bytes ++ rest)) =
      (Occurrence.first (crlf ++ crlf) (t.bytes ++ rest)).map (2 + ·) := by
  obtain ⟨b, line, split⟩ := List.exists_cons_of_ne_nil t.nonempty
  have notReturn : (13 : UInt8) ≠ b :=
    fun same => (t.oneLine b (split ▸ List.mem_cons_self)).1 same.symm
  have first : ¬ crlf ++ crlf <+: 13 :: 10 :: (t.bytes ++ rest) := by
    intro h
    rw [split] at h
    have tail := (List.cons_prefix_cons.mp (List.cons_prefix_cons.mp h).2).2
    exact notReturn (List.cons_prefix_cons.mp tail).1
  have second : ¬ crlf ++ crlf <+: 10 :: (t.bytes ++ rest) :=
    fun h => absurd (List.cons_prefix_cons.mp h).1 (by decide)
  have marks : crlf ++ (t.bytes ++ rest) = 13 :: 10 :: (t.bytes ++ rest) := rfl
  rw [marks, Occurrence.first_cons_of_not_start first, Occurrence.first_cons_of_not_start second,
    Option.map_map]
  exact congrArg (Option.map · _) (funext fun n => Nat.add_comm n 2)

theorem first_encodeTrailers (t : FieldLine) (trailers : List FieldLine) :
    ∃ i, Occurrence.first (crlf ++ crlf) (encodeTrailers (t :: trailers)) = some i ∧
      i + 4 = (encodeTrailers (t :: trailers)).length := by
  have two : crlf.length = 2 := rfl
  have noReturn (t : FieldLine) : (13 : UInt8) ∉ t.bytes :=
    fun member => (t.oneLine 13 member).1 rfl
  have skip (t : FieldLine) (rest : Bytes) : Occurrence.first (crlf ++ crlf) (t.bytes ++ rest) =
      (Occurrence.first (crlf ++ crlf) rest).map (t.bytes.length + ·) :=
    Occurrence.first_skip (noReturn t) _ rest
  induction trailers generalizing t with
  | nil =>
    have here : Occurrence.first (crlf ++ crlf) (crlf ++ crlf) = some 0 :=
      Occurrence.first_of_start List.prefix_rfl
    refine ⟨t.bytes.length, ?_, ?_⟩
    · rw [encodeTrailers_cons, encodeTrailers_nil, skip, here, Option.map_some, Nat.add_zero]
    · rw [encodeTrailers_cons, encodeTrailers_nil, List.length_append, List.length_append, two]
  | cons t' trailers ih =>
    obtain ⟨i, found, finish⟩ := ih t'
    rw [encodeTrailers_cons] at found finish
    refine ⟨t.bytes.length + (2 + i), ?_, ?_⟩
    · rw [encodeTrailers_cons, encodeTrailers_cons, skip, first_crlf_line, found, Option.map_some,
        Option.map_some]
    · rw [encodeTrailers_cons, encodeTrailers_cons, List.length_append, List.length_append, two]
      omega

/-! ## Receiving -/

namespace Socket

/-- How often `recv` will have been called when all that is sent is received. -/
def calls (sock : Socket) : Nat := sock.reads + sock.segments.length

/-- Nothing is lost between the socket and the buffer. -/
theorem receiveUntil_total {done : Bytes → Bool} {sock sock' : Socket} {buf buf' : Bytes}
    {complete : Bool} (h : sock.receiveUntil done buf = (complete, buf', sock')) :
    buf' ++ sock'.pending = buf ++ sock.pending := by
  obtain ⟨taken, split, joined, -⟩ := receiveUntil_spec h
  rw [joined, pending, pending, split, List.map_append, List.flatten_append, List.append_assoc]

theorem receiveUntil_of_done (done : Bytes → Bool) (sock : Socket) (buf : Bytes)
    (enough : done (buf ++ sock.pending) = true) :
    ∃ buf' sock', sock.receiveUntil done buf = (true, buf', sock') ∧ done buf' = true ∧
      buf' ++ sock'.pending = buf ++ sock.pending ∧ sock'.calls = sock.calls := by
  rcases result : sock.receiveUntil done buf with ⟨complete, buf', sock'⟩
  have all := receiveUntil_total result
  obtain ⟨taken, split, -, isDone, fully, short⟩ := receiveUntil_spec result
  cases complete with
  | true =>
    refine ⟨buf', sock', rfl, isDone, all, ?_⟩
    rw [calls, calls, fully rfl, split, List.length_append]
    omega
  | false =>
    -- All is received, and that is enough.
    have none : sock'.pending = [] := by
      rw [pending, (short rfl).1]
      rfl
    rw [none, List.append_nil] at all
    rw [all] at isDone
    exact absurd (isDone.symm.trans enough) Bool.false_ne_true

theorem receiveUntil_of_never (done : Bytes → Bool) (sock : Socket) (buf : Bytes)
    (never : ∀ b, b <+: buf ++ sock.pending → done b = false) :
    ∃ sock', sock.receiveUntil done buf = (false, buf ++ sock.pending, sock') ∧
      sock'.reads = sock.calls + 1 := by
  rcases result : sock.receiveUntil done buf with ⟨complete, buf', sock'⟩
  have all := receiveUntil_total result
  obtain ⟨taken, split, -, isDone, -, short⟩ := receiveUntil_spec result
  obtain rfl : complete = false := isDone.symm.trans (never buf' (all ▸ List.prefix_append _ _))
  obtain ⟨empty, count⟩ := short rfl
  have none : sock'.pending = [] := by
    rw [pending, empty]
    rfl
  rw [none, List.append_nil] at all
  refine ⟨sock', by rw [all], ?_⟩
  rw [count, calls, split, empty, List.append_nil]

theorem segments_of_pending {sock : Socket} (none : sock.pending = []) : sock.segments = [] := by
  cases some' : sock.segments with
  | nil => rfl
  | cons s rest =>
    rw [pending, some', List.map_cons, List.flatten_cons, List.append_eq_nil_iff] at none
    exact absurd none.1 s.nonempty

end Socket

/-! ## Size lines in the buffer -/

namespace Reader

/-- What is in the buffer and what is still to come. -/
def total (r : Reader) : Bytes := r.buf ++ r.sock.pending

theorem first_total {r : Reader} {i : Nat} (found : Py.find crlf r.buf 0 = some i) :
    Occurrence.first crlf r.total = some i := by
  rw [Py.find_zero] at found
  exact Occurrence.first_append (List.cons_ne_nil _ _) found _

/-- The reader receives until it has the size line. -/
theorem reaches_sizeLine {r : Reader} {i : Nat} (line : Occurrence.first crlf r.total = some i) :
    ∃ r', Loop.Reaches iterate r r' ∧ r'.total = r.total ∧ r'.sock.calls = r.sock.calls ∧
      Py.find crlf r'.buf 0 = some i := by
  obtain ⟨⟨segments, ending, reads⟩, buf⟩ := r
  induction segments generalizing reads buf with
  | nil =>
    refine ⟨_, .refl _, rfl, rfl, ?_⟩
    rw [Py.find_zero, ← line, total]
    exact congrArg _ (List.append_nil _).symm
  | cons s rest ih =>
    cases found : Py.find crlf buf 0 with
    | some j =>
      have same := first_total (r := ⟨⟨s :: rest, ending, reads⟩, buf⟩) found
      exact ⟨_, .refl _, rfl, rfl, found.trans (same.symm.trans line)⟩
    | none =>
      have next : iterate ⟨⟨s :: rest, ending, reads⟩, buf⟩ =
          .inl ⟨⟨rest, ending, reads + 1⟩, buf ++ s.bytes⟩ := by
        simp only [iterate, found, Socket.receive_cons]
      have all : total ⟨⟨rest, ending, reads + 1⟩, buf ++ s.bytes⟩ =
          total ⟨⟨s :: rest, ending, reads⟩, buf⟩ := by
        rw [total, total, Socket.pending, Socket.pending, List.map_cons, List.flatten_cons,
          List.append_assoc]
      obtain ⟨r', reached, same, calls, there⟩ := ih (buf ++ s.bytes) (reads + 1) (all ▸ line)
      refine ⟨r', .step next reached, same.trans all, calls.trans ?_, there⟩
      simp only [Socket.calls, List.length_cons]
      omega

/-- The size that is read is the one that was written. -/
theorem chunkSize_buf {r : Reader} {n : Nat} {rest : Bytes}
    (encoded : r.total = Py.hex n ++ (crlf ++ rest))
    (found : Py.find crlf r.buf 0 = some (Py.hex n).length) :
    chunkSize (Py.slice r.buf 0 (Py.hex n).length) = some (n : Int) := by
  have room := (Py.find_bounds (List.cons_ne_nil _ _) found).2
  have line : r.buf.take (Py.hex n).length = Py.hex n := by
    have start : (r.buf ++ r.sock.pending).take (Py.hex n).length = Py.hex n := by
      rw [← total, encoded, List.take_left']
      rfl
    rwa [List.take_append_of_le_length (by omega)] at start
  have first : Py.offset r.buf.length 0 = 0 := rfl
  rw [Py.slice, Py.offset_ofNat, first, List.drop_zero, line, chunkSize_hex]

/-- A chunk is dropped from the buffer when it is read. -/
theorem reaches_nextChunk {r : Reader} {data rest : Bytes} (nonempty : data ≠ [])
    (encoded : r.total = encodeChunk data ++ rest) :
    ∃ r', Loop.Reaches iterate r r' ∧ r'.total = rest ∧ r'.sock.calls = r.sock.calls := by
  have lineFirst : encodeChunk data ++ rest =
      Py.hex data.length ++ (crlf ++ (data ++ crlf ++ rest)) := by
    simp only [encodeChunk, List.append_assoc]
  have length : (encodeChunk data).length = (Py.hex data.length).length + 2 + data.length + 2 := by
    simp only [encodeChunk, List.length_append, show crlf.length = 2 from rfl]
    omega
  have line : Occurrence.first crlf r.total = some (Py.hex data.length).length := by
    rw [encoded, lineFirst]
    exact first_crlf_hex _ _
  obtain ⟨r₁, reached, same, calls, found⟩ := reaches_sizeLine line
  have size := chunkSize_buf (same.trans (encoded.trans lineFirst)) found
  have stop : ((Py.hex data.length).length : Int) + 2 + data.length + 2 =
      ((encodeChunk data).length : Nat) := by
    rw [length]
    omega
  have room : (encodeChunk data).length ≤ (r₁.buf ++ r₁.sock.pending).length := by
    rw [← total, same, encoded, List.length_append]
    omega
  obtain ⟨buf', sock', received, isDone, all, calls'⟩ := Socket.receiveUntil_of_done
    (fun buf => decide (((Py.hex data.length).length : Int) + 2 + data.length + 2 ≤ buf.length))
    r₁.sock r₁.buf (decide_eq_true (by rw [stop]; omega))
  have enough : (encodeChunk data).length ≤ buf'.length := by
    have := of_decide_eq_true isDone
    rw [stop] at this
    omega
  have nonzero : (data.length : Int) ≠ 0 := by
    have := List.length_pos_iff.mpr nonempty
    omega
  have next : r₁.iterate = .inl ⟨sock', buf'.drop (encodeChunk data).length⟩ := by
    simp only [iterate, found, size, received]
    rw [if_neg nonzero, stop, Py.sliceFrom, Py.offset_ofNat]
  refine ⟨_, reached.trans (.step next (.refl _)), ?_, calls'.trans calls⟩
  rw [total, ← List.drop_append_of_le_length enough, all, ← total, same, encoded, List.drop_left']
  rfl

theorem length_encodeEnd (trailers : List FieldLine) :
    (encodeEnd trailers).length = (Py.hex 0).length + 2 + (encodeTrailers trailers).length := by
  simp only [encodeEnd, List.length_append, show crlf.length = 2 from rfl]
  omega

theorem drop_encodeEnd (trailers : List FieldLine) :
    (encodeEnd trailers).drop ((Py.hex 0).length + 2) = encodeTrailers trailers := by
  have split : encodeEnd trailers = (Py.hex 0 ++ crlf) ++ encodeTrailers trailers := by
    rw [encodeEnd, List.append_assoc]
  rw [split, List.drop_left']
  rw [List.length_append]
  rfl

theorem two_le_encodeTrailers (trailers : List FieldLine) : 2 ≤ (encodeTrailers trailers).length := by
  cases trailers with
  | nil => exact Nat.le_refl _
  | cons t trailers =>
    rw [encodeTrailers_cons, List.length_append, List.length_append]
    have two : crlf.length = 2 := rfl
    omega

theorem marks_ne_nil : crlf ++ crlf ≠ [] := List.cons_ne_nil _ _

/-- Without trailers there are no two line breaks behind the size line. -/
theorem find_marks_nil {b : Bytes} (start : b <+: encodeEnd []) :
    Py.find (crlf ++ crlf) b ((Py.hex 0).length + 2 : Nat) = none := by
  cases found : Py.find (crlf ++ crlf) b ((Py.hex 0).length + 2 : Nat) with
  | none => rfl
  | some i =>
    have inside := Py.find_bounds marks_ne_nil found
    have short := start.length_le
    rw [length_encodeEnd, encodeTrailers_nil] at short
    rw [Py.offset_ofNat] at inside
    have two : crlf.length = 2 := rfl
    have four : (crlf ++ crlf).length = 4 := rfl
    omega

theorem find_marks_encodeEnd (t : FieldLine) (trailers : List FieldLine) :
    ∃ i, Py.find (crlf ++ crlf) (encodeEnd (t :: trailers)) ((Py.hex 0).length + 2 : Nat) = some i ∧
      i + 4 = (encodeEnd (t :: trailers)).length := by
  obtain ⟨i, found, finish⟩ := first_encodeTrailers t trailers
  refine ⟨(Py.hex 0).length + 2 + i, ?_, ?_⟩
  · rw [Py.find_ofNat, drop_encodeEnd, found, Option.map_some]
  · rw [length_encodeEnd]
    omega

/-- With trailers they are found when all is there, and not before. -/
theorem eq_of_find_marks {b : Bytes} {t : FieldLine} {trailers : List FieldLine} {i : Nat}
    (start : b <+: encodeEnd (t :: trailers))
    (found : Py.find (crlf ++ crlf) b ((Py.hex 0).length + 2 : Nat) = some i) :
    b = encodeEnd (t :: trailers) ∧ i + 4 = b.length := by
  obtain ⟨more, split⟩ := start
  obtain ⟨j, last, finish⟩ := find_marks_encodeEnd t trailers
  have same : i = j := by
    have later := Py.find_append marks_ne_nil found more
    rw [split, last] at later
    exact (Option.some.inj later).symm
  have inside := (Py.find_bounds marks_ne_nil found).2
  have four : (crlf ++ crlf).length = 4 := rfl
  have length := congrArg List.length split
  rw [List.length_append] at length
  have none : more = [] := List.length_eq_zero_iff.mp (by omega)
  rw [none, List.append_nil] at split
  exact ⟨split, by omega⟩

/-- What the reader returns when it has read the size line of the last chunk. -/
def finish (buf : Bytes) (sock : Socket) : Bytes × Socket :=
  match sock.receiveUntil
      (fun buf => (Py.find (crlf ++ crlf) buf ((Py.hex 0).length + 2 : Nat)).isSome) buf with
  | (false, buf, sock) => (buf, sock)
  | (true, buf, sock) =>
    (buf.take ((Py.find (crlf ++ crlf) buf ((Py.hex 0).length + 2 : Nat)).getD 0 + 4), sock)

theorem reaches_finish {r : Reader} {trailers : List FieldLine}
    (encoded : r.total = encodeEnd trailers) :
    ∃ r₁ buf sock, Loop.Reaches iterate r r₁ ∧ r₁.iterate = .inr (finish buf sock) ∧
      buf ++ sock.pending = encodeEnd trailers ∧ sock.calls = r.sock.calls := by
  have line : Occurrence.first crlf r.total = some (Py.hex 0).length := by
    rw [encoded]
    exact first_crlf_hex _ _
  obtain ⟨r₁, reached, same, calls, found⟩ := reaches_sizeLine line
  have size : chunkSize (Py.slice r₁.buf 0 (Py.hex 0).length) = some 0 :=
    chunkSize_buf (same.trans encoded) found
  have stop : ((Py.hex 0).length : Int) + 2 + 0 + 2 = ((Py.hex 0).length + 4 : Nat) := by omega
  have room : (Py.hex 0).length + 4 ≤ (r₁.buf ++ r₁.sock.pending).length := by
    have two := two_le_encodeTrailers trailers
    rw [← total, same, encoded, length_encodeEnd]
    omega
  obtain ⟨buf, sock, received, -, all, calls'⟩ := Socket.receiveUntil_of_done
    (fun buf => decide (((Py.hex 0).length : Int) + 2 + 0 + 2 ≤ buf.length))
    r₁.sock r₁.buf (decide_eq_true (by rw [stop]; omega))
  refine ⟨r₁, buf, sock, reached, ?_, all.trans (same.trans encoded), calls'.trans calls⟩
  have start : ((Py.hex 0).length : Int) + 2 = ((Py.hex 0).length + 2 : Nat) := rfl
  rcases rest : sock.receiveUntil
    (fun buf => (Py.find (crlf ++ crlf) buf ((Py.hex 0).length + 2 : Nat)).isSome) buf
    with ⟨complete, buf', sock'⟩
  simp only [iterate, found, size, received, if_true]
  simp only [start, rest, finish]
  cases complete <;> rfl

/-- Without trailers the reader does not see the end and reads on. -/
theorem finish_nil {buf : Bytes} {sock : Socket} (all : buf ++ sock.pending = encodeEnd []) :
    ∃ sock', finish buf sock = (encodeEnd [], sock') ∧ sock'.reads = sock.calls + 1 := by
  obtain ⟨sock', never, reads⟩ := Socket.receiveUntil_of_never
    (fun buf => (Py.find (crlf ++ crlf) buf ((Py.hex 0).length + 2 : Nat)).isSome) sock buf
    fun b begins => by
      rw [find_marks_nil (all ▸ begins)]
      rfl
  refine ⟨sock', ?_, reads⟩
  rw [finish, never, all]

theorem finish_cons {buf : Bytes} {sock : Socket} {t : FieldLine} {trailers : List FieldLine}
    (all : buf ++ sock.pending = encodeEnd (t :: trailers)) :
    ∃ sock', finish buf sock = (encodeEnd (t :: trailers), sock') ∧ sock'.reads = sock.calls := by
  obtain ⟨i, last, -⟩ := find_marks_encodeEnd t trailers
  obtain ⟨buf', sock', received, isDone, all', calls⟩ := Socket.receiveUntil_of_done
    (fun buf => (Py.find (crlf ++ crlf) buf ((Py.hex 0).length + 2 : Nat)).isSome) sock buf
    (by rw [all, last]; rfl)
  obtain ⟨j, here⟩ := Option.isSome_iff_exists.mp isDone
  have split : buf' ++ sock'.pending = encodeEnd (t :: trailers) := all'.trans all
  obtain ⟨complete, stop⟩ := eq_of_find_marks ⟨_, split⟩ here
  refine ⟨sock', ?_, ?_⟩
  · rw [finish, received]
    dsimp only
    rw [here, Option.getD_some, stop, List.take_length, complete]
  · have none : sock'.pending = [] := by
      rw [complete] at split
      exact List.append_right_eq_self.mp split
    rw [Socket.calls, Socket.segments_of_pending none, List.length_nil, Nat.add_zero] at calls
    exact calls

/-- At the last chunk the reader returns what it has from there on. -/
theorem returns_encodeEnd {r : Reader} {trailers : List FieldLine}
    (encoded : r.total = encodeEnd trailers) :
    ∃ sock, Loop.Returns iterate r (encodeEnd trailers, sock) ∧
      sock.reads = r.sock.calls + if trailers = [] then 1 else 0 := by
  obtain ⟨r₁, buf, sock, reached, done, all, calls⟩ := reaches_finish encoded
  have returned := (reached.returns_iff _).mpr (Loop.returns_of_inr done)
  cases trailers with
  | nil =>
    obtain ⟨sock', result, reads⟩ := finish_nil all
    exact ⟨sock', result ▸ returned, calls ▸ reads⟩
  | cons t trailers =>
    obtain ⟨sock', result, reads⟩ := finish_cons all
    exact ⟨sock', result ▸ returned, calls ▸ reads⟩

/-- Of an encoded body the reader returns the last chunk and the trailers. -/
theorem returns_encodeBody {r : Reader} {chunks : List Chunk} {trailers : List FieldLine}
    (encoded : r.total = encodeBody chunks trailers) :
    ∃ sock, Loop.Returns iterate r (encodeEnd trailers, sock) ∧
      sock.reads = r.sock.calls + if trailers = [] then 1 else 0 := by
  induction chunks generalizing r with
  | nil => exact returns_encodeEnd encoded
  | cons c chunks ih =>
    obtain ⟨r', reached, rest, calls⟩ := reaches_nextChunk c.nonempty encoded
    obtain ⟨sock, returned, reads⟩ := ih rest
    exact ⟨sock, (reached.returns_iff _).mpr returned, calls ▸ reads⟩

end Reader

/-! ## The whole body -/

/-- The reader returns the whole encoded body, and calls `recv` no more often than it takes
to receive it. -/
def ReadsExactly {body : Bytes} (cut : Segmentation body) (ending : Ending) : Prop :=
  ∃ sock fuel, readChunkedBody fuel ⟨cut.segments, ending, 0⟩ cut.initial = some (body, sock) ∧
    sock.reads ≤ cut.segments.length

/-- What the reader does return: all from the last chunk on. -/
theorem readChunkedBody_encodeBody {chunks : List Chunk} {trailers : List FieldLine}
    (cut : Segmentation (encodeBody chunks trailers)) (ending : Ending) :
    ∃ sock, Loop.Returns Reader.iterate ⟨⟨cut.segments, ending, 0⟩, cut.initial⟩
        (encodeEnd trailers, sock) ∧
      sock.reads = cut.segments.length + if trailers = [] then 1 else 0 := by
  have encoded : Reader.total ⟨⟨cut.segments, ending, 0⟩, cut.initial⟩ =
      encodeBody chunks trailers := cut.joined
  obtain ⟨sock, returned, reads⟩ := Reader.returns_encodeBody encoded
  refine ⟨sock, returned, ?_⟩
  rw [reads, Socket.calls, Nat.zero_add]

theorem length_encodeEnd_le (chunks : List Chunk) (trailers : List FieldLine) :
    (encodeEnd trailers).length ≤ (encodeBody chunks trailers).length := by
  induction chunks with
  | nil => exact Nat.le_refl _
  | cons c chunks ih =>
    rw [encodeBody, List.foldr_cons, List.length_append]
    exact Nat.le_add_left_of_le ih

/-- The last chunk and the trailers are the whole body only where there is no other chunk. -/
theorem encodeEnd_eq_encodeBody_iff (chunks : List Chunk) (trailers : List FieldLine) :
    encodeEnd trailers = encodeBody chunks trailers ↔ chunks = [] := by
  constructor
  · intro same
    cases chunks with
    | nil => rfl
    | cons c chunks =>
      have tail := length_encodeEnd_le chunks trailers
      have some' := List.length_pos_iff.mpr c.nonempty
      have length := congrArg List.length same
      rw [encodeBody, List.foldr_cons, ← encodeBody, List.length_append, encodeChunk] at length
      simp only [List.length_append] at length
      omega
  · rintro rfl
    rfl

/-- A body is read exactly just where it has no chunk but the last and has a trailer. -/
theorem readChunkedBody_exact_iff {chunks : List Chunk} {trailers : List FieldLine}
    (cut : Segmentation (encodeBody chunks trailers)) (ending : Ending) :
    ReadsExactly cut ending ↔ chunks = [] ∧ trailers ≠ [] := by
  obtain ⟨sock, returned, reads⟩ := readChunkedBody_encodeBody cut ending
  constructor
  · rintro ⟨sock', fuel, exact', few⟩
    obtain ⟨same, rfl⟩ := Prod.mk.inj (returned.unique ⟨fuel, exact'⟩)
    refine ⟨(encodeEnd_eq_encodeBody_iff chunks trailers).mp same, ?_⟩
    rintro rfl
    rw [if_pos rfl] at reads
    omega
  · rintro ⟨rfl, some'⟩
    obtain ⟨fuel, result⟩ := returned
    refine ⟨sock, fuel, result, ?_⟩
    rw [reads, if_neg some', Nat.add_zero]

/-- Of the body with the one chunk `a` only the last chunk comes back. -/
theorem readChunkedBody_drops_chunk :
    ¬ ∀ (chunks : List Chunk) (trailers : List FieldLine)
      (cut : Segmentation (encodeBody chunks trailers)) (ending : Ending),
      ReadsExactly cut ending := by
  intro all
  obtain ⟨sock, fuel, whole, -⟩ := all [⟨[97], List.cons_ne_nil _ _⟩] []
    ⟨[49, 13, 10, 97, 13, 10, 48, 13, 10, 13, 10], [], rfl⟩ .closed
  have last : readChunkedBody 2 ⟨[], .closed, 0⟩ [49, 13, 10, 97, 13, 10, 48, 13, 10, 13, 10] =
      some ([48, 13, 10, 13, 10], ⟨[], .closed, 1⟩) := rfl
  have same := Loop.Returns.unique ⟨fuel, whole⟩ ⟨2, last⟩
  exact absurd (Prod.mk.inj same).1 (by decide)

end Protospy
