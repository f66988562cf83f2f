import Protospy.Conformance.ResponseEncoding

/-!
# Responses that are written and read

What the client returns of a response is what the peer has sent, in however many pieces it
arrives.
-/

namespace Protospy

/-! ## The scan for trailers -/

theorem slice_append (before line rest : Bytes) :
    Py.slice (before ++ (line ++ rest)) before.length ((before.length + line.length : Nat) : Int) =
      line := by
  rw [Py.slice, Py.offset_ofNat, Py.offset_ofNat, ← List.append_assoc, List.take_left',
    List.drop_left']
  · rfl
  · rw [List.length_append]

/-- The scan finds the size line where it stands. -/
theorem find_sizeLine (before rest : Bytes) (n : Nat) :
    Py.find crlf (before ++ (Py.hex n ++ (crlf ++ rest))) before.length =
      some (before.length + (Py.hex n).length) := by
  rw [Py.find_ofNat, List.drop_left', first_crlf_hex, Option.map_some]
  rfl

theorem inside_append (before : Bytes) {rest : Bytes} (some' : rest ≠ []) :
    (before.length : Int) < (before ++ rest).length := by
  have := List.length_pos_iff.mpr some'
  rw [List.length_append]
  omega

theorem hex_append_ne_nil (n : Nat) (rest : Bytes) : Py.hex n ++ (crlf ++ rest) ≠ [] :=
  List.append_ne_nil_of_right_ne_nil _ (List.cons_ne_nil _ _)

theorem scanChunk_chunk (before rest : Bytes) {data : Bytes} (nonempty : data ≠ []) :
    scanChunk (before ++ (encodeChunk data ++ rest)) before.length =
      .inl ((before ++ encodeChunk data).length : Int) := by
  have lineFirst : encodeChunk data ++ rest =
      Py.hex data.length ++ (crlf ++ (data ++ crlf ++ rest)) := by
    simp only [encodeChunk, List.append_assoc]
  have nonzero : (data.length : Int) ≠ 0 := by
    have := List.length_pos_iff.mpr nonempty
    omega
  rw [lineFirst, scanChunk, if_pos (inside_append _ (hex_append_ne_nil _ _)), find_sizeLine]
  dsimp only
  rw [slice_append, chunkSize_hex]
  dsimp only
  rw [if_neg nonzero]
  simp only [encodeChunk, List.length_append, show crlf.length = 2 from rfl]
  congr 1
  omega

theorem scanChunk_end (before : Bytes) (trailers : List FieldLine) :
    scanChunk (before ++ encodeEnd trailers) before.length =
      .inr (trailerFields (encodeTrailers trailers)) := by
  have size : chunkSize (Py.hex 0) = some 0 := chunkSize_hex 0
  have rest : (before ++ encodeEnd trailers).drop (before.length + (Py.hex 0).length + 2) =
      encodeTrailers trailers := by
    rw [Nat.add_assoc, ← List.drop_drop, List.drop_left' rfl, Reader.drop_encodeEnd]
  rw [encodeEnd, scanChunk, if_pos (inside_append _ (hex_append_ne_nil _ _)), find_sizeLine]
  dsimp only
  rw [slice_append, size]
  dsimp only
  rw [if_pos rfl, ← encodeEnd, rest]

theorem scan_returns (chunks : List Chunk) (trailers : List FieldLine) (before : Bytes) :
    Loop.Returns (scanChunk (before ++ encodeBody chunks trailers)) before.length
      (trailerFields (encodeTrailers trailers)) := by
  induction chunks generalizing before with
  | nil => exact Loop.returns_of_inr (scanChunk_end before trailers)
  | cons c chunks ih =>
    have next := scanChunk_chunk before (encodeBody chunks trailers) c.nonempty
    have later := ih (before ++ encodeChunk c.data)
    rw [List.append_assoc] at later
    exact (Loop.returns_step next _).mpr later

/-- The fields after the last chunk, with the white space around their values stripped. -/
theorem get_trailerFields (fields : List HeaderField) (name : Bytes) :
    (trailerFields (encodeTrailers (fields.map HeaderField.line))).get name =
      (valuesOf fields name).map latin1Strip := by
  have trailing (b : Bytes) : crlf.isSuffixOf (b ++ crlf) = true :=
    List.isSuffixOf_iff_suffix.mpr (List.suffix_append _ _)
  have cut (b : Bytes) : (b ++ crlf).dropLast.dropLast = b := by
    have two : b ++ crlf = b ++ [13] ++ [10] := by
      rw [List.append_assoc]
      rfl
    rw [two, List.dropLast_concat, List.dropLast_concat]
  rw [trailerFields, encodeTrailers_eq_lines, if_pos (trailing _), cut]
  cases fields with
  | nil => rfl
  | cons f fields =>
    have some' : ((f :: fields).map HeaderField.line).flatMap (fun l => l.bytes ++ crlf) ≠ [] := by
      rw [List.map_cons, List.flatMap_cons, List.append_assoc]
      exact List.append_ne_nil_of_left_ne_nil f.line.nonempty _
    -- The line break before the end leaves an empty line, which names no field.
    have last (trailers : Trailers) : [[]].foldl readTrailer trailers = trailers := rfl
    have lines : ((f :: fields).map HeaderField.line).map FieldLine.bytes =
        (f :: fields).map fun f => f.line.bytes := by
      rw [List.map_map]
      rfl
    rw [if_neg some', splitLines_lines, List.foldl_append, last, lines,
      get_foldl readTrailer latin1Strip fun trailers f => f.readTrailer_line trailers]
    rfl

/-! ## Any stream -/

/-- The part of a stream that is its first response. -/
def firstResponse (b : Bytes) : Bytes :=
  match headEnd b with
  | none => b
  | some i =>
    match framing (b.take i) with
    | .sized length => b.take (i + 4 + length.toNat)
    | _ => b

/-- The framing that a stream declares, where it has a head. -/
def declaredFraming (b : Bytes) : Option Framing := (headEnd b).map fun i => framing (b.take i)

theorem firstResponse_prefix (b : Bytes) : firstResponse b <+: b := by
  rw [firstResponse]
  split
  · exact List.prefix_rfl
  · split
    · exact List.take_prefix _ _
    · exact List.prefix_rfl

/-- Without chunks and negative lengths what is read depends on the bytes alone, not on the
pieces in which they arrive nor on how the connection ends. -/
theorem readCompleteResponse_eq (sock : Socket) (unchunked : declaredFraming sock.pending ≠ some .chunked)
    (forward : ∀ length, declaredFraming sock.pending = some (.sized length) → 0 ≤ length) :
    ∃ sock', (∀ fuel, readCompleteResponse fuel sock = some (firstResponse sock.pending, sock')) ∧
      firstResponse sock.pending <+: sock.pending ∧ sock'.reads ≤ sock.calls + 1 := by
  cases found : headEnd sock.pending with
  | none =>
    obtain ⟨sock', result, reads⟩ := read_headless found
    refine ⟨sock', fun fuel => ?_, firstResponse_prefix _, reads.le⟩
    rw [result, firstResponse, found]
  | some i =>
    rw [declaredFraming, found, Option.map_some] at unchunked forward
    cases declared : framing (sock.pending.take i) with
    | chunked => exact absurd (congrArg some declared) unchunked
    | sized length =>
      have nonneg := forward length (congrArg some declared)
      obtain ⟨sock', result, reads⟩ := read_sized found declared nonneg
      refine ⟨sock', fun fuel => ?_, firstResponse_prefix _, reads.trans ?_⟩
      · rw [result, firstResponse, found]
        dsimp only
        rw [declared]
      · split <;> omega
    | untilClose =>
      obtain ⟨sock', result, reads⟩ := read_untilClose found declared
      refine ⟨sock', fun fuel => ?_, firstResponse_prefix _, reads.le⟩
      rw [result, firstResponse, found]
      dsimp only
      rw [declared]

/-- The head declares the length three, and less is behind it. -/
private def shortSocket : Socket :=
  ⟨[⟨ascii "A 1\r\nContent-Length: 3\r\n\r\nC", by decide⟩], .timedOut, 0⟩

theorem readCompleteResponse_short :
    ∃ sock', (∀ fuel, readCompleteResponse fuel shortSocket =
        some (firstResponse shortSocket.pending, sock')) ∧
      firstResponse shortSocket.pending <+: shortSocket.pending ∧
      sock'.reads ≤ shortSocket.calls + 1 := by
  have sized : declaredFraming shortSocket.pending = some (.sized 3) := by decide
  refine readCompleteResponse_eq _ ?_ fun length declared => ?_
  · rw [sized]
    decide
  · rw [sized] at declared
    obtain rfl := Framing.sized.inj (Option.some.inj declared)
    decide

/-! ## A response with its length, or up to the end -/

/-- The head says that the body has so many bytes. -/
def ResponseHead.Sizes (h : ResponseHead) (length : Nat) : Prop :=
  h.values contentLength ≠ [] ∧ ∀ v ∈ h.values contentLength, v = Py.dec length

theorem latin1Strip_dec (n : Nat) : latin1Strip (Py.dec n) = Py.dec n := by
  refine Py.trim_eq_self fun b member => ?_
  obtain ⟨low, high⟩ := Py.mem_dec member
  have least : (33 : UInt8) ≤ 48 := by decide
  have most : (57 : UInt8) ≤ 126 := by decide
  exact isLatin1Space_of_visible (UInt8.le_trans least low) (UInt8.le_trans high most)

theorem framing_of_sizes {h : ResponseHead} {length : Nat} (unchunked : h.values transferEncoding = [])
    (sizes : h.Sizes length) (short : (Py.dec length).length ≤ Py.maxStrDigits) :
    framing h.encodedSection = .sized length := by
  obtain ⟨some', each⟩ := sizes
  have last : (h.values contentLength).getLast? = some (Py.dec length) := by
    rw [List.getLast?_eq_some_getLast some', each _ (List.getLast_mem some')]
  rw [h.framing_encodedSection, unchunked, last, Option.map_some, latin1Strip_dec]
  have noCoding : (Occurrence.first chunkedCoding (latin1Lower [])).isSome = false := by decide
  simp only [framingOf, List.getLast?_nil, Option.map_none, Option.getD_none, noCoding,
    Bool.false_eq_true, if_false, Py.int10_dec short, Option.getD_some]

theorem framing_of_no_length {h : ResponseHead} (unchunked : h.values transferEncoding = [])
    (unsized : h.values contentLength = []) : framing h.encodedSection = .untilClose := by
  rw [h.framing_encodedSection, unchunked, unsized]
  rfl

/-- A response comes back as it was sent: with a length also where more follows it, and
without waiting for more than was sent. -/
theorem readResponse_roundTrip (h : ResponseHead) (body after : Bytes) (sock : Socket)
    (sent : sock.pending = h.encode ++ (body ++ after))
    (unchunked : h.values transferEncoding = [])
    (framed : h.Sizes body.length ∧ (Py.dec body.length).length ≤ Py.maxStrDigits ∨
      h.values contentLength = [] ∧ after = []) :
    ∃ response sock', (∀ fuel, readResponse fuel sock = some (some (.ok response), sock')) ∧
      response.status = h.status ∧ (∀ name, response.headers.get name = h.values name) ∧
      response.body = body ∧ (h.values contentLength ≠ [] → sock'.reads ≤ sock.calls) := by
  have found : headEnd sock.pending = some h.encodedSection.length := sent ▸ h.headEnd_encode _
  have head : sock.pending.take h.encodedSection.length = h.encodedSection :=
    sent ▸ h.take_encode _
  obtain ⟨headers, parsed, fields⟩ := h.parseRawResponse_encode body
  suffices read : ∃ sock', (∀ fuel, readCompleteResponse fuel sock = some (h.encode ++ body, sock')) ∧
      (h.values contentLength ≠ [] → sock'.reads ≤ sock.calls) by
    obtain ⟨sock', result, reads⟩ := read
    refine ⟨⟨h.status, headers, body⟩, sock', fun fuel => ?_, rfl, fields, rfl, reads⟩
    have some' : h.encode ++ body ≠ [] := List.append_ne_nil_of_left_ne_nil h.encode_ne_nil _
    rw [readResponse, result, Option.map_some]
    dsimp only
    rw [if_neg some', parsed]
  rcases framed with ⟨sizes, short⟩ | ⟨unsized, rfl⟩
  · obtain ⟨sock', result, reads⟩ :=
      read_sized found (head.symm ▸ framing_of_sizes unchunked sizes short) (Int.natCast_nonneg _)
    have stop : h.encodedSection.length + 4 + (body.length : Int).toNat = (h.encode ++ body).length := by
      rw [Int.toNat_natCast, List.length_append, h.length_encode]
    have whole : sock.pending.take (h.encode ++ body).length = h.encode ++ body := by
      rw [sent, ← List.append_assoc, List.take_left']
      rfl
    have room : (h.encode ++ body).length ≤ sock.pending.length := by
      rw [sent, ← List.append_assoc]
      exact (List.prefix_append _ _).length_le
    rw [stop, whole] at result
    rw [stop, if_pos room] at reads
    exact ⟨sock', result, fun _ => reads⟩
  · obtain ⟨sock', result, -⟩ :=
      read_untilClose found (head.symm ▸ framing_of_no_length unchunked unsized)
    rw [sent, List.append_nil] at result
    exact ⟨sock', result, fun some' => absurd unsized some'⟩

section Pipelined

/-- A response of two bytes. -/
private def pipelinedHead : ResponseHead where
  version := ascii "HTTP/1.1"
  status := 200
  reason := ascii "OK"
  fields := [⟨ascii "Content-Length", ascii "2", by decide +kernel, by decide +kernel, by decide +kernel⟩]
  versionToken := by decide +kernel
  threeDigits := by decide +kernel
  oneLine := by decide +kernel

/-- It arrives in two pieces, with the first byte of another one behind it. -/
private def okSocket : Socket :=
  ⟨[⟨pipelinedHead.encode ++ [104], by decide⟩, ⟨[105, 72], by decide⟩], .timedOut, 0⟩

theorem readResponse_pipelined :
    ∃ response sock', (∀ fuel, readResponse fuel okSocket = some (some (.ok response), sock')) ∧
      response.status = 200 ∧ (∀ name, response.headers.get name = pipelinedHead.values name) ∧
      response.body = ascii "hi" ∧ (pipelinedHead.values contentLength ≠ [] → sock'.reads ≤ 2) :=
  readResponse_roundTrip pipelinedHead (ascii "hi") (ascii "H") okSocket (by decide) (by decide)
    (.inl ⟨⟨by decide, by decide⟩, by decide⟩)

end Pipelined

/-! ## A response in chunks -/

theorem framing_of_chunked {h : ResponseHead} (some' : h.values transferEncoding ≠ [])
    (each : ∀ v ∈ h.values transferEncoding, v = chunkedCoding) :
    framing h.encodedSection = .chunked := by
  have last : (h.values transferEncoding).getLast? = some chunkedCoding := by
    rw [List.getLast?_eq_some_getLast some', each _ (List.getLast_mem some')]
  have coding : (Occurrence.first chunkedCoding
      (latin1Lower (latin1Strip chunkedCoding))).isSome = true := by
    decide
  rw [h.framing_encodedSection, last, Option.map_some]
  simp only [framingOf, Option.getD_some, coding, if_true]

/-- Though the data of the chunks is dropped, the trailers of a response are found in what
comes back of it. -/
theorem readResponse_trailers (h : ResponseHead) (chunks : List Chunk) (trailers : List HeaderField)
    (sock : Socket)
    (sent : sock.pending = h.encode ++ encodeBody chunks (trailers.map HeaderField.line))
    (coded : h.values transferEncoding ≠ [])
    (chunked : ∀ v ∈ h.values transferEncoding, v = chunkedCoding) :
    ∃ response sock' fuel, readResponse fuel sock = some (some (.ok response), sock') ∧
      response.status = h.status ∧ (∀ name, response.headers.get name = h.values name) ∧
      ∃ found fuel', parseChunkedTrailers fuel' response.body = some found ∧
        ∀ name, found.get name = (valuesOf trailers name).map latin1Strip := by
  have ended : headEnd sock.pending = some h.encodedSection.length := sent ▸ h.headEnd_encode _
  have head : sock.pending.take h.encodedSection.length = h.encodedSection :=
    sent ▸ h.take_encode _
  obtain ⟨bodyStart, rest, body, -, reads⟩ :=
    read_chunked ended (head.symm ▸ framing_of_chunked coded chunked)
  have encoded : Reader.total ⟨rest, bodyStart⟩ = encodeBody chunks (trailers.map HeaderField.line) := by
    rw [Reader.total, body, sent, ← h.length_encode, List.drop_left']
    rfl
  obtain ⟨sock', ⟨fuel, returned⟩, -⟩ := Reader.returns_encodeBody encoded
  have whole : sock.pending.take (h.encodedSection.length + 4) = h.encode := by
    rw [sent, ← h.length_encode, List.take_left']
    rfl
  obtain ⟨headers, parsed, fields⟩ :=
    h.parseRawResponse_encode (encodeEnd (trailers.map HeaderField.line))
  refine ⟨⟨h.status, headers, encodeEnd (trailers.map HeaderField.line)⟩, sock', fuel, ?_, rfl,
    fields, ?_⟩
  · have some' : h.encode ++ encodeEnd (trailers.map HeaderField.line) ≠ [] :=
      List.append_ne_nil_of_left_ne_nil h.encode_ne_nil _
    rw [readResponse, reads, readChunkedBody, returned, Option.map_some, Option.map_some, whole]
    dsimp only
    rw [if_neg some', parsed]
  · obtain ⟨fuel', scanned⟩ := scan_returns [] (trailers.map HeaderField.line) []
    exact ⟨_, fuel', scanned, get_trailerFields trailers⟩

section Trailers

private def chunkedHead : ResponseHead where
  version := ascii "HTTP/1.1"
  status := 200
  reason := []
  fields := [⟨ascii "Transfer-Encoding", chunkedCoding, by decide +kernel, by decide +kernel, by decide +kernel⟩]
  versionToken := by decide +kernel
  threeDigits := by decide +kernel
  oneLine := by decide +kernel

private def checksum : HeaderField := ⟨ascii "X-Sum", ascii "7", by decide +kernel, by decide +kernel, by decide +kernel⟩

private def oneChunk : List Chunk := [⟨[97], by decide⟩]

private def chunkedSocket : Socket :=
  ⟨[⟨chunkedHead.encode ++ encodeBody oneChunk [checksum.line], by decide⟩], .closed, 0⟩

theorem readResponse_checksum :
    ∃ response sock' fuel, readResponse fuel chunkedSocket = some (some (.ok response), sock') ∧
      response.status = 200 ∧ (∀ name, response.headers.get name = chunkedHead.values name) ∧
      ∃ found fuel', parseChunkedTrailers fuel' response.body = some found ∧
        ∀ name, found.get name = (valuesOf [checksum] name).map latin1Strip :=
  readResponse_trailers chunkedHead oneChunk [checksum] chunkedSocket
    (by rw [Socket.pending]; exact List.append_nil _) (by decide) (by decide)

end Trailers

/-- The trailers of every encoded body are found, whatever its chunks. -/
theorem parseChunkedTrailers_encodeBody (chunks : List Chunk) (trailers : List HeaderField) :
    ∃ found fuel, parseChunkedTrailers fuel (encodeBody chunks (trailers.map HeaderField.line)) =
        some found ∧
      ∀ name, found.get name = (valuesOf trailers name).map latin1Strip := by
  obtain ⟨fuel, scanned⟩ := scan_returns chunks (trailers.map HeaderField.line) []
  exact ⟨_, fuel, scanned, get_trailerFields trailers⟩

end Protospy
