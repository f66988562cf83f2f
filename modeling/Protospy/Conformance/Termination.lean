import Protospy.Conformance.ChunkedBody

/-!
# When the loops over chunks end

A chunk size may carry a minus sign, and a chunk of negative size ends before its data.
-/

namespace Protospy

/-- The size line at `pos` gives a chunk that ends where the line begins or before it. A
negative end counts from the end of the string. -/
def LeadsBack (b : Bytes) (pos : Int) : Prop :=
  ∃ i size, Py.find crlf b pos = some i ∧ chunkSize (Py.slice b pos i) = some size ∧
    (0 ≤ (i : Int) + 2 + size + 2 ∧ (i : Int) + 2 + size + 2 ≤ Py.offset b.length pos ∨
      (i : Int) + 2 + size + 2 < 0 ∧ b.length + ((i : Int) + 2 + size + 2) ≤ Py.offset b.length pos)

theorem crlf_ne_nil : crlf ≠ [] := List.cons_ne_nil _ _

/-- Only a negative size leads back. -/
theorem LeadsBack.negative {b : Bytes} {pos : Int} (back : LeadsBack b pos) :
    ∃ i size, Py.find crlf b pos = some i ∧ chunkSize (Py.slice b pos i) = some size ∧ size < 0 := by
  obtain ⟨i, size, found, parsed, ends⟩ := back
  have inside := (Py.find_bounds crlf_ne_nil found).1
  refine ⟨i, size, found, parsed, ?_⟩
  omega

/-! ## The reader -/

namespace Reader

/-- The bytes that are not yet passed. -/
def left (r : Reader) : Nat := r.buf.length + r.sock.pending.length

/-- Bytes are passed or received, and none is taken back. -/
def Advances (r r' : Reader) : Prop :=
  r'.left ≤ r.left ∧ r'.sock.pending.length ≤ r.sock.pending.length ∧
    (r'.left < r.left ∨ r'.sock.pending.length < r.sock.pending.length)

theorem advances_of_iterate {r r' : Reader} (next : r.iterate = .inl r')
    (forward : ¬ LeadsBack r.buf 0) : r.Advances r' := by
  rcases iterate_cases next with ⟨-, s, rest, split, rfl⟩ | ⟨i, size, buf, sock, found, parsed, received, -, rfl⟩
  · have some' := List.length_pos_iff.mpr s.nonempty
    simp only [Advances, left, Socket.pending, split, List.map_cons, List.flatten_cons,
      List.length_append]
    omega
  · obtain ⟨taken, split, rfl, isDone, -⟩ := Socket.receiveUntil_spec received
    have enough := of_decide_eq_true isDone
    have forward' : ¬ (0 ≤ (i : Int) + 2 + size + 2 ∧ (i : Int) + 2 + size + 2 ≤ 0 ∨
        (i : Int) + 2 + size + 2 < 0 ∧ r.buf.length + ((i : Int) + 2 + size + 2) ≤ 0) :=
      fun ends => forward ⟨i, size, found, parsed, ends⟩
    simp only [Advances, left, Socket.pending, split, Py.sliceFrom, Py.offset, List.map_append,
      List.flatten_append, List.length_append, List.length_drop] at enough ⊢
    split <;> omega

/-- The buffer stays as it is, and the next iteration finds the same size line. -/
theorem iterate_of_leadsBack {r : Reader} (back : LeadsBack r.buf 0) : r.iterate = .inl r := by
  obtain ⟨i, size, found, parsed, ends⟩ := back
  have start : Py.offset r.buf.length 0 = 0 := rfl
  rw [start] at ends
  have nonzero : size ≠ 0 := by omega
  have enough : decide ((i : Int) + 2 + size + 2 ≤ r.buf.length) = true :=
    decide_eq_true (by omega)
  have received := Socket.receiveUntil_eq
    (fun buf => decide ((i : Int) + 2 + size + 2 ≤ buf.length)) r.sock r.buf
  rw [if_pos enough] at received
  have kept : Py.offset r.buf.length (i + 2 + size + 2) = 0 :=
    Nat.eq_zero_of_not_pos fun moves => (Py.lt_offset_iff _ 0 _).mp moves ends
  simp only [iterate, found, parsed, received]
  rw [if_neg nonzero, Py.sliceFrom, kept, List.drop_zero]

theorem terminates_advancing_iff (r : Reader) :
    Loop.Terminates iterate r ∧ Loop.EachIteration iterate Advances r ↔
      ∀ r', Loop.Reaches iterate r r' → ¬ LeadsBack r'.buf 0 := by
  refine Loop.terminates_advancing_iff (fun r => r.left + r.sock.pending.length) ?_ ?_ ?_
  · intro t u _ advances
    obtain ⟨passed, received, strict⟩ := advances
    omega
  · intro t u next forward
    exact advances_of_iterate next forward
  · intro t back
    refine ⟨t, iterate_of_leadsBack back, fun advances => ?_⟩
    obtain ⟨-, -, strict⟩ := advances
    omega

end Reader

/-! ## The scan for trailers -/

/-- What an iteration that goes on has done. -/
theorem scanChunk_cases {body : Bytes} {pos pos' : Int} (h : scanChunk body pos = .inl pos') :
    pos < body.length ∧ ∃ i size, Py.find crlf body pos = some i ∧
      chunkSize (Py.slice body pos i) = some size ∧ size ≠ 0 ∧ pos' = i + 2 + size + 2 := by
  rw [scanChunk] at h
  split at h
  · rename_i inside
    refine ⟨inside, ?_⟩
    split at h
    · cases h
    · rename_i i found
      split at h
      · cases h
      · rename_i size parsed
        split at h
        · cases h
        · rename_i nonzero
          exact ⟨i, size, found, parsed, nonzero, (Sum.inl.inj h).symm⟩
  · cases h

/-- The scan goes on behind the place where it was. -/
def MovesOn (body : Bytes) (pos pos' : Int) : Prop :=
  Py.offset body.length pos < Py.offset body.length pos'

theorem scanChunk_terminates_advancing_iff (body : Bytes) (pos : Int) :
    Loop.Terminates (scanChunk body) pos ∧ Loop.EachIteration (scanChunk body) (MovesOn body) pos ↔
      ∀ pos', Loop.Reaches (scanChunk body) pos pos' → ¬ (pos' < body.length ∧ LeadsBack body pos') := by
  refine Loop.terminates_advancing_iff (fun pos => body.length - Py.offset body.length pos) ?_ ?_ ?_
  · intro t u next moves
    obtain ⟨-, i, size, found, -⟩ := scanChunk_cases next
    have inside := Py.find_bounds crlf_ne_nil found
    have two : crlf.length = 2 := rfl
    rw [MovesOn] at moves
    omega
  · intro t u next forward
    obtain ⟨inside, i, size, found, parsed, -, rfl⟩ := scanChunk_cases next
    exact (Py.lt_offset_iff _ _ _).mpr fun ends => forward ⟨inside, i, size, found, parsed, ends⟩
  · rintro t ⟨inside, i, size, found, parsed, ends⟩
    have behind := (Py.find_bounds crlf_ne_nil found).1
    have nonzero : size ≠ 0 := by omega
    refine ⟨i + 2 + size + 2, ?_, ?_⟩
    · simp only [scanChunk, if_pos inside, found, parsed]
      rw [if_neg nonzero]
    · exact fun moves => (Py.lt_offset_iff _ _ _).mp moves ends

/-! ## Both loops -/

/-- Each loop returns and advances with each iteration just where it comes to no size line
that leads back. -/
theorem chunk_loops_terminate_iff (sock : Socket) (initial body : Bytes) :
    ((∃ result fuel, readChunkedBody fuel sock initial = some result) ∧
        Loop.EachIteration Reader.iterate Reader.Advances ⟨sock, initial⟩ ↔
      ∀ r, Loop.Reaches Reader.iterate ⟨sock, initial⟩ r → ¬ LeadsBack r.buf 0) ∧
    ((∃ result fuel, parseChunkedTrailers fuel body = some result) ∧
        Loop.EachIteration (scanChunk body) (MovesOn body) 0 ↔
      ∀ pos, Loop.Reaches (scanChunk body) 0 pos → ¬ (pos < body.length ∧ LeadsBack body pos)) := by
  constructor
  · exact Reader.terminates_advancing_iff ⟨sock, initial⟩
  · exact scanChunk_terminates_advancing_iff body 0

/-- The size `-6` keeps the reader at its size line for ever. -/
theorem readChunkedBody_negative_size :
    ¬ ∀ (sock : Socket) (initial body : Bytes),
      ((∃ result fuel, readChunkedBody fuel sock initial = some result) ∧
        Loop.EachIteration Reader.iterate Reader.Advances ⟨sock, initial⟩) ∧
      (∃ result fuel, parseChunkedTrailers fuel body = some result) ∧
        Loop.EachIteration (scanChunk body) (MovesOn body) 0 := by
  intro all
  have fixed : Reader.iterate ⟨⟨[], .closed, 0⟩, [45, 54, 13, 10]⟩ =
      .inl ⟨⟨[], .closed, 0⟩, [45, 54, 13, 10]⟩ := by
    rfl
  exact Loop.not_terminates_of_fixed fixed (all ⟨[], .closed, 0⟩ [45, 54, 13, 10] []).1.1

end Protospy
