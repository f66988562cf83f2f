import Protospy.Conformance.Response
import Protospy.Lib.Keyed
import Protospy.Lib.Lines

/-!
# Reading an encoded response

What the client makes of a response that a peer has sent, however it is cut into reads.
-/

namespace Protospy

/-! ## Lines -/

theorem splitLines_cons {a : UInt8} (other : a ≠ 13) (l : Bytes) :
    splitLines (a :: l) = (splitLines l).modifyHead (a :: ·) := by
  cases l with
  | nil => rfl
  | cons b rest => rw [splitLines, if_neg fun h => other h.1]

theorem splitLines_line {line : Bytes} (oneLine : 13 ∉ line) : splitLines line = [line] := by
  induction line with
  | nil => rfl
  | cons a line ih =>
    have other : a ≠ 13 := fun same => oneLine (same ▸ List.mem_cons_self)
    rw [splitLines_cons other, ih (mt (List.mem_cons_of_mem a) oneLine), List.modifyHead_cons]

theorem splitLines_append {line : Bytes} (oneLine : 13 ∉ line) (rest : Bytes) :
    splitLines (line ++ (crlf ++ rest)) = line :: splitLines rest := by
  induction line with
  | nil => rfl
  | cons a line ih =>
    have other : a ≠ 13 := fun same => oneLine (same ▸ List.mem_cons_self)
    rw [List.cons_append, splitLines_cons other, ih (mt (List.mem_cons_of_mem a) oneLine),
      List.modifyHead_cons]

theorem FieldLine.no_return (t : FieldLine) : 13 ∉ t.bytes := fun member =>
  (t.oneLine 13 member).1 rfl

/-- Lines with breaks between them. -/
def headSection (t : FieldLine) (lines : List FieldLine) : Bytes :=
  t.bytes ++ lines.flatMap fun l => crlf ++ l.bytes

theorem encodeTrailers_eq_section (t : FieldLine) (lines : List FieldLine) :
    encodeTrailers (t :: lines) = headSection t lines ++ (crlf ++ crlf) := by
  induction lines generalizing t with
  | nil => rw [encodeTrailers_cons, encodeTrailers_nil, headSection, List.flatMap_nil, List.append_nil]
  | cons l lines ih =>
    rw [encodeTrailers_cons, ih l]
    simp only [headSection, List.flatMap_cons, List.append_assoc]

theorem splitLines_headSection (t : FieldLine) (lines : List FieldLine) :
    splitLines (headSection t lines) = t.bytes :: lines.map FieldLine.bytes := by
  induction lines generalizing t with
  | nil => rw [headSection, List.flatMap_nil, List.append_nil, splitLines_line t.no_return, List.map_nil]
  | cons l lines ih =>
    rw [headSection, List.flatMap_cons, List.append_assoc, splitLines_append t.no_return,
      ← headSection, ih l, List.map_cons]

theorem encodeTrailers_eq_lines (lines : List FieldLine) :
    encodeTrailers lines = (lines.flatMap fun l => l.bytes ++ crlf) ++ crlf := by
  induction lines with
  | nil => rfl
  | cons l lines ih =>
    rw [encodeTrailers_cons, ih, List.flatMap_cons]
    simp only [List.append_assoc]

theorem splitLines_lines (lines : List FieldLine) :
    splitLines (lines.flatMap fun l => l.bytes ++ crlf) = lines.map FieldLine.bytes ++ [[]] := by
  induction lines with
  | nil => rfl
  | cons l lines ih =>
    rw [List.flatMap_cons, List.append_assoc, splitLines_append l.no_return, ih, List.map_cons,
      List.cons_append]

/-- The first empty line ends the head. -/
theorem first_marks (t : FieldLine) (lines : List FieldLine) (rest : Bytes) :
    Occurrence.first (crlf ++ crlf) (encodeTrailers (t :: lines) ++ rest) =
      some (headSection t lines).length := by
  obtain ⟨i, found, finish⟩ := first_encodeTrailers t lines
  have four : (crlf ++ crlf).length = 4 := rfl
  have here : i = (headSection t lines).length := by
    rw [encodeTrailers_eq_section, List.length_append, four] at finish
    omega
  exact here ▸ Occurrence.first_append (List.cons_ne_nil _ _) found rest

/-! ## Header fields -/

structure HeaderField where
  name : Bytes
  value : Bytes
  nameToken : ∀ b ∈ name, 33 ≤ b ∧ b ≤ 126 ∧ b ≠ 58
  named : name ≠ []
  oneLine : ∀ b ∈ value, b ≠ 13 ∧ b ≠ 10

theorem isLatin1Space_of_visible {b : UInt8} (low : 33 ≤ b) (high : b ≤ 126) :
    isLatin1Space b = false := by
  simp only [isLatin1Space, decide_eq_false_iff_not, List.mem_cons, List.not_mem_nil]
  rintro (rfl | rfl | rfl | rfl | rfl | rfl | rfl | rfl | rfl | rfl | rfl | rfl | none)
  iterate 12 revert low high; decide
  exact none

namespace HeaderField

def line (f : HeaderField) : FieldLine where
  bytes := f.name ++ (colonSpace ++ f.value)
  nonempty := fun empty => f.named (List.append_eq_nil_iff.mp empty).1
  oneLine := by
    intro b member
    rcases List.mem_append.mp member with inName | rest
    · obtain ⟨low, -, -⟩ := f.nameToken b inName
      constructor <;> (rintro rfl; revert low; decide)
    · rcases List.mem_append.mp rest with mark | inValue
      · rcases List.mem_pair.mp mark with rfl | rfl <;> decide
      · exact f.oneLine b inValue

/-- The name as the client keeps it. -/
def key (f : HeaderField) : Bytes := latin1Lower f.name

theorem no_colon (f : HeaderField) : 58 ∉ f.name := fun member => (f.nameToken 58 member).2.2 rfl

theorem trim_name (f : HeaderField) : latin1Strip f.name = f.name :=
  Py.trim_eq_self fun b member =>
    isLatin1Space_of_visible (f.nameToken b member).1 (f.nameToken b member).2.1

theorem line_bytes (f : HeaderField) : f.line.bytes = f.name ++ 58 :: (32 :: f.value) := rfl

theorem takeWhile_line (f : HeaderField) : f.line.bytes.takeWhile (· ≠ 58) = f.name :=
  (Lines.split_at_mark f.no_colon (32 :: f.value)).1

theorem dropWhile_line (f : HeaderField) :
    (f.line.bytes.dropWhile (· ≠ 58)).drop 1 = 32 :: f.value :=
  (Lines.split_at_mark f.no_colon (32 :: f.value)).2

theorem latin1Strip_space (b : Bytes) : latin1Strip (32 :: b) = latin1Strip b := by
  rw [latin1Strip, List.dropWhile_cons_of_pos (by decide), latin1Strip]

theorem readHeader_line (headers : List (Bytes × Bytes)) (f : HeaderField) :
    readHeader headers f.line.bytes = setHeader headers f.key (latin1Strip f.value) := by
  rw [readHeader, takeWhile_line, dropWhile_line, trim_name, latin1Strip_space, key]

theorem partitionHeader_line (f : HeaderField) :
    partitionHeader f.line.bytes = (f.name, f.value) := by
  have found : Occurrence.first colonSpace f.line.bytes = some f.name.length :=
    Occurrence.first_eq_length f.no_colon f.value
  have rest : f.line.bytes.drop (f.name.length + 2) = f.value := by
    rw [line_bytes, ← List.drop_drop, List.drop_left']
    · rfl
    · rfl
  rw [partitionHeader, found]
  dsimp only
  rw [rest, line_bytes, List.take_left']
  rfl

theorem addHeader_line (headers : Trailers) (f : HeaderField) :
    addHeader headers f.line.bytes = addTrailer headers f.key f.value := by
  rw [addHeader, partitionHeader_line, key]

theorem key_ne_nil (f : HeaderField) : f.key ≠ [] := fun empty =>
  f.named (List.map_eq_nil_iff.mp empty)

theorem readTrailer_line (trailers : Trailers) (f : HeaderField) :
    readTrailer trailers f.line.bytes = addTrailer trailers f.key (latin1Strip f.value) := by
  rw [readTrailer, takeWhile_line, dropWhile_line, trim_name, latin1Strip_space]
  exact if_neg f.key_ne_nil

end HeaderField

/-! ## Looking fields up -/

/-- The values of the fields with a name, in their order. -/
def valuesOf (fields : List HeaderField) (name : Bytes) : List Bytes :=
  (fields.filter fun f => f.key = name).map HeaderField.value

theorem valuesOf_cons (f : HeaderField) (fields : List HeaderField) (name : Bytes) :
    valuesOf (f :: fields) name = (if f.key = name then [f.value] else []) ++ valuesOf fields name := by
  rw [valuesOf, List.filter_cons]
  by_cases same : f.key = name
  · rw [if_pos (decide_eq_true same), if_pos same]
    rfl
  · rw [if_neg (by simpa using same), if_neg same]
    rfl

/-- `headers.get(name, [])`. -/
def Trailers.get (trailers : Trailers) (name : Bytes) : List Bytes := (trailers.lookup name).getD []

theorem get_addTrailer (trailers : Trailers) (name value other : Bytes) :
    (addTrailer trailers name value).get other =
      trailers.get other ++ if name = other then [value] else [] := by
  have put : addTrailer trailers name value = Keyed.put (· ++ [value]) [value] name trailers := by
    unfold addTrailer Keyed.put
    congr
  rw [Trailers.get, put, Keyed.lookup_put, Trailers.get]
  by_cases same : name = other
  · subst same
    rw [if_pos rfl, if_pos rfl]
    cases trailers.lookup name <;> rfl
  · rw [if_neg same, if_neg same, List.append_nil]

theorem lookup_setHeader (headers : List (Bytes × Bytes)) (name value other : Bytes) :
    (setHeader headers name value).lookup other =
      if name = other then some value else headers.lookup other := by
  have put : setHeader headers name value = Keyed.put (fun _ => value) value name headers := by
    have present : (headers.any fun entry => entry.1 = name) = true ↔ name ∈ headers.map Prod.fst := by
      simp only [List.any_eq_true, decide_eq_true_eq, List.mem_map]
    rw [setHeader, Keyed.put]
    by_cases known : name ∈ headers.map Prod.fst
    · rw [if_pos (present.mpr known), if_pos known]
    · rw [if_neg (mt present.mp known), if_neg known]
  rw [put, Keyed.lookup_put]
  cases headers.lookup name <;> rfl

/-- The fields are gathered by name. -/
theorem get_foldl (add : Trailers → Bytes → Trailers) (g : Bytes → Bytes)
    (each : ∀ trailers (f : HeaderField), add trailers f.line.bytes = addTrailer trailers f.key (g f.value))
    (fields : List HeaderField) (trailers : Trailers) (name : Bytes) :
    ((fields.map fun f => f.line.bytes).foldl add trailers).get name =
      trailers.get name ++ (valuesOf fields name).map g := by
  induction fields generalizing trailers with
  | nil => exact (List.append_nil _).symm
  | cons f fields ih =>
    rw [List.map_cons, List.foldl_cons, ih, each, get_addTrailer, valuesOf_cons, List.map_append,
      List.append_assoc]
    by_cases same : f.key = name
    · rw [if_pos same, if_pos same]
      rfl
    · rw [if_neg same, if_neg same]
      rfl

/-- Of the fields with a name the last one counts. -/
theorem lookup_foldl (fields : List HeaderField) (headers : List (Bytes × Bytes)) (name : Bytes) :
    ((fields.map fun f => f.line.bytes).foldl readHeader headers).lookup name =
      ((valuesOf fields name).getLast?.map latin1Strip).or (headers.lookup name) := by
  induction fields generalizing headers with
  | nil => rfl
  | cons f fields ih =>
    rw [List.map_cons, List.foldl_cons, ih, HeaderField.readHeader_line, lookup_setHeader,
      valuesOf_cons]
    by_cases same : f.key = name
    · rw [if_pos same, if_pos same, List.singleton_append, List.getLast?_cons]
      cases (valuesOf fields name).getLast? <;> rfl
    · rw [if_neg same, if_neg same, List.nil_append]

/-! ## Reading by the framing -/

/-- The head ends where the first empty line does. -/
def headEnd (b : Bytes) : Option Nat := Occurrence.first (crlf ++ crlf) b

theorem headEnd_of_append {b : Bytes} {i : Nat} (found : headEnd b = some i) (more : Bytes) :
    headEnd (b ++ more) = some i :=
  Occurrence.first_append (List.cons_ne_nil _ _) found more

theorem headEnd_room {b : Bytes} {i : Nat} (found : headEnd b = some i) : i + 4 ≤ b.length :=
  Occurrence.length_le_of_first (List.cons_ne_nil _ _) found

namespace Socket

theorem reads_le {done : Bytes → Bool} {sock sock' : Socket} {buf buf' : Bytes} {complete : Bool}
    (h : sock.receiveUntil done buf = (complete, buf', sock')) :
    sock'.reads ≤ sock.calls + if complete then 0 else 1 := by
  obtain ⟨taken, split, -, -, fully, short⟩ := receiveUntil_spec h
  rw [calls, split, List.length_append]
  cases complete with
  | true => simp only [fully rfl, if_true]; omega
  | false => simp only [(short rfl).2, Bool.false_eq_true, if_false]; omega

/-- The head is received before anything is taken apart. -/
theorem receives_head {sock : Socket} {i : Nat} (found : headEnd sock.pending = some i) :
    ∃ buf sock', sock.receiveUntil (fun buf => (Py.find (crlf ++ crlf) buf 0).isSome) [] =
        (true, buf, sock') ∧
      buf ++ sock'.pending = sock.pending ∧ sock'.calls = sock.calls ∧
      Py.find (crlf ++ crlf) buf 0 = some i ∧ i + 4 ≤ buf.length := by
  have enough : (Py.find (crlf ++ crlf) ([] ++ sock.pending) 0).isSome = true := by
    rw [List.nil_append, Py.find_zero, ← headEnd, found]
    rfl
  obtain ⟨buf, sock', received, isDone, all, calls⟩ := receiveUntil_of_done
    (fun buf => (Py.find (crlf ++ crlf) buf 0).isSome) sock [] enough
  obtain ⟨j, here⟩ := Option.isSome_iff_exists.mp isDone
  rw [Py.find_zero] at here
  obtain rfl : i = j := by
    have later := headEnd_of_append here sock'.pending
    rw [all, List.nil_append, found] at later
    exact Option.some.inj later
  exact ⟨buf, sock', received, all, calls, (Py.find_zero _ _).trans here, headEnd_room here⟩

end Socket

section Reading

variable {sock : Socket} {i : Nat}

/-- Without the end of a head all that is sent is returned. -/
theorem read_headless (headless : headEnd sock.pending = none) :
    ∃ sock', (∀ fuel, readCompleteResponse fuel sock = some (sock.pending, sock')) ∧
      sock'.reads = sock.calls + 1 := by
  have never (b : Bytes) (begins : b <+: [] ++ sock.pending) :
      (Py.find (crlf ++ crlf) b 0).isSome = false := by
    obtain ⟨more, split⟩ := begins
    rw [List.nil_append] at split
    rw [Py.find_zero, ← headEnd]
    cases found : headEnd b with
    | none => rfl
    | some j =>
      have later := headEnd_of_append found more
      rw [split, headless] at later
      cases later
  obtain ⟨sock', received, reads⟩ := Socket.receiveUntil_of_never _ sock [] never
  refine ⟨sock', fun fuel => ?_, reads⟩
  rw [readCompleteResponse, received]
  rfl

/-- What is left of the stream when the head is received. -/
theorem head_split {buf : Bytes} (rest : Bytes) (room : i + 4 ≤ buf.length) :
    buf.take i = (buf ++ rest).take i ∧
      buf.take (i + 4) ++ (buf.drop (i + 4) ++ rest) = buf ++ rest := by
  constructor
  · rw [List.take_append_of_le_length (by omega)]
  · rw [← List.append_assoc, List.take_append_drop]

theorem read_sized (found : headEnd sock.pending = some i) {length : Int}
    (declared : framing (sock.pending.take i) = .sized length) (forward : 0 ≤ length) :
    ∃ sock', (∀ fuel, readCompleteResponse fuel sock =
        some (sock.pending.take (i + 4 + length.toNat), sock')) ∧
      sock'.reads ≤ sock.calls + if i + 4 + length.toNat ≤ sock.pending.length then 0 else 1 := by
  obtain ⟨n, rfl⟩ := Int.eq_ofNat_of_zero_le forward
  obtain ⟨buf, sock₁, received, all, calls, here, room⟩ := Socket.receives_head found
  obtain ⟨start, joined⟩ := head_split sock₁.pending room
  rw [all] at start joined
  rcases result : sock₁.receiveUntil (fun body => decide ((n : Int) ≤ body.length))
    (buf.drop (i + 4)) with ⟨complete, body, sock'⟩
  have rest := Socket.receiveUntil_total result
  obtain ⟨taken, -, -, isDone, -, short⟩ := Socket.receiveUntil_spec result
  have headLength : (buf.take (i + 4)).length = i + 4 := by
    rw [List.length_take]
    omega
  -- What is received holds the body, or it is all there is.
  have body_eq : body.take n = (buf.drop (i + 4) ++ sock₁.pending).take n ∧
      (complete = false → sock.pending.length < i + 4 + n) := by
    rw [← rest]
    cases complete with
    | true =>
      have enough : n ≤ body.length := by simpa using isDone
      exact ⟨(List.take_append_of_le_length enough).symm, fun h => by cases h⟩
    | false =>
      have few : body.length < n := by simpa using isDone
      have none : sock'.pending = [] := by
        rw [Socket.pending, (short rfl).1]
        rfl
      refine ⟨by rw [none, List.append_nil], fun _ => ?_⟩
      have length := congrArg List.length joined
      rw [← rest, none, List.append_nil, List.length_append, headLength] at length
      omega
  refine ⟨sock', fun fuel => ?_, ?_⟩
  · rw [readCompleteResponse, received]
    dsimp only
    rw [here, Option.getD_some, start, declared]
    dsimp only
    rw [result]
    dsimp only
    have zero : Py.offset body.length 0 = 0 := rfl
    have whole : sock.pending.take (i + 4 + n) =
        buf.take (i + 4) ++ (buf.drop (i + 4) ++ sock₁.pending).take n := by
      have split : (buf.take (i + 4) ++ (buf.drop (i + 4) ++ sock₁.pending)).take
          ((buf.take (i + 4)).length + n) =
            buf.take (i + 4) ++ (buf.drop (i + 4) ++ sock₁.pending).take n :=
        List.take_length_add_append n
      rwa [headLength, joined] at split
    rw [Py.slice, Py.offset_ofNat, zero, List.drop_zero, body_eq.1, Int.toNat_natCast, whole]
  · have bound := Socket.reads_le result
    rw [calls] at bound
    rw [Int.toNat_natCast]
    cases complete with
    | true => exact bound.trans (by simp)
    | false =>
      rw [if_neg (by have := body_eq.2 rfl; omega)]
      exact bound

theorem read_untilClose (found : headEnd sock.pending = some i)
    (declared : framing (sock.pending.take i) = .untilClose) :
    ∃ sock', (∀ fuel, readCompleteResponse fuel sock = some (sock.pending, sock')) ∧
      sock'.reads = sock.calls + 1 := by
  obtain ⟨buf, sock₁, received, all, calls, here, room⟩ := Socket.receives_head found
  obtain ⟨start, joined⟩ := head_split sock₁.pending room
  rw [all] at start joined
  obtain ⟨sock', result, reads⟩ := Socket.receiveUntil_of_never (fun _ => false) sock₁
    (buf.drop (i + 4)) fun _ _ => rfl
  refine ⟨sock', fun fuel => ?_, calls ▸ reads⟩
  rw [readCompleteResponse, received]
  dsimp only
  rw [here, Option.getD_some, start, declared]
  dsimp only
  rw [result, joined]

/-- With chunks the loop over them begins behind the head. -/
theorem read_chunked (found : headEnd sock.pending = some i)
    (declared : framing (sock.pending.take i) = .chunked) :
    ∃ bodyStart sock', bodyStart ++ sock'.pending = sock.pending.drop (i + 4) ∧
      sock'.calls = sock.calls ∧
      ∀ fuel, readCompleteResponse fuel sock = (readChunkedBody fuel sock' bodyStart).map
        fun (body, rest) => (sock.pending.take (i + 4) ++ body, rest) := by
  obtain ⟨buf, sock₁, received, all, calls, here, room⟩ := Socket.receives_head found
  obtain ⟨start, joined⟩ := head_split sock₁.pending room
  rw [all] at start joined
  have head : sock.pending.take (i + 4) = buf.take (i + 4) := by
    rw [← all, List.take_append_of_le_length room]
  refine ⟨buf.drop (i + 4), sock₁, ?_, calls, fun fuel => ?_⟩
  · rw [← all, List.drop_append_of_le_length room]
  · rw [readCompleteResponse, received]
    dsimp only
    rw [here, Option.getD_some, start, declared, head]

end Reading

/-! ## Encoded responses -/

/-- The status line and the header fields of a response. -/
structure ResponseHead where
  version : Bytes
  status : Nat
  reason : Bytes
  fields : List HeaderField
  versionToken : ∀ b ∈ version, 33 ≤ b ∧ b ≤ 126
  threeDigits : status < 1000
  oneLine : ∀ b ∈ reason, b ≠ 13 ∧ b ≠ 10

namespace ResponseHead

def statusLine (h : ResponseHead) : FieldLine where
  bytes := h.version ++ 32 :: (Py.dec h.status ++ 32 :: h.reason)
  nonempty := List.append_ne_nil_of_right_ne_nil _ (List.cons_ne_nil _ _)
  oneLine := by
    intro b member
    rcases List.mem_append.mp member with inVersion | rest
    · obtain ⟨low, -⟩ := h.versionToken b inVersion
      constructor <;> (rintro rfl; revert low; decide)
    · rcases List.mem_cons.mp rest with rfl | rest
      · decide
      · rcases List.mem_append.mp rest with inStatus | rest
        · obtain ⟨low, -⟩ := Py.mem_dec inStatus
          constructor <;> (rintro rfl; revert low; decide)
        · rcases List.mem_cons.mp rest with rfl | inReason
          · decide
          · exact h.oneLine b inReason

def lines (h : ResponseHead) : List FieldLine := h.fields.map HeaderField.line

def encode (h : ResponseHead) : Bytes := encodeTrailers (h.statusLine :: h.lines)

def encodedSection (h : ResponseHead) : Bytes := headSection h.statusLine h.lines

theorem encode_eq (h : ResponseHead) : h.encode = h.encodedSection ++ (crlf ++ crlf) :=
  encodeTrailers_eq_section _ _

theorem headEnd_encode (h : ResponseHead) (rest : Bytes) :
    headEnd (h.encode ++ rest) = some h.encodedSection.length :=
  first_marks _ _ _

theorem take_encode (h : ResponseHead) (rest : Bytes) :
    (h.encode ++ rest).take h.encodedSection.length = h.encodedSection := by
  rw [encode_eq, List.append_assoc, List.take_left']
  rfl

theorem length_encode (h : ResponseHead) : h.encode.length = h.encodedSection.length + 4 := by
  rw [encode_eq, List.length_append]
  rfl

theorem lines_bytes (h : ResponseHead) :
    h.lines.map FieldLine.bytes = h.fields.map fun f => f.line.bytes := by
  rw [lines, List.map_map]
  rfl

/-- The values of the fields with a name, in their order. -/
def values (h : ResponseHead) (name : Bytes) : List Bytes := valuesOf h.fields name

theorem framing_encodedSection (h : ResponseHead) :
    framing h.encodedSection = framingOf ((h.values transferEncoding).getLast?.map latin1Strip)
      ((h.values contentLength).getLast?.map latin1Strip) := by
  rw [framing, encodedSection, splitLines_headSection, List.tail_cons, lines_bytes, lookup_foldl,
    lookup_foldl, List.lookup_nil, List.lookup_nil, Option.or_none, Option.or_none]
  rfl

theorem statusOf_statusLine (h : ResponseHead) : statusOf h.statusLine.bytes = .ok (h.status : Int) := by
  have inVersion : 32 ∉ h.version := fun member =>
    absurd (h.versionToken 32 member).1 (by decide)
  have inStatus : 32 ∉ Py.dec h.status := fun member => absurd (Py.mem_dec member).1 (by decide)
  have short : (Py.dec h.status).length ≤ Py.maxStrDigits :=
    (Py.length_dec_le_three h.threeDigits).trans (by decide)
  have here : 32 ∈ h.statusLine.bytes := List.mem_append_right _ List.mem_cons_self
  obtain ⟨-, rest⟩ := Lines.split_at_mark inVersion (Py.dec h.status ++ 32 :: h.reason)
  obtain ⟨number, -⟩ := Lines.split_at_mark inStatus h.reason
  rw [statusOf, if_pos here, statusLine]
  dsimp only
  rw [rest, number, Py.int10_dec short]

/-- The status, the fields and all that follows the head are read back. -/
theorem parseRawResponse_encode (h : ResponseHead) (rest : Bytes) :
    ∃ headers : Trailers, parseRawResponse (h.encode ++ rest) = .ok ⟨h.status, headers, rest⟩ ∧
      ∀ name, headers.get name = h.values name := by
  have body : (h.encode ++ rest).drop (h.encodedSection.length + 4) = rest := by
    rw [List.drop_left']
    exact h.length_encode
  refine ⟨(h.fields.map fun f => f.line.bytes).foldl addHeader [], ?_, fun name => ?_⟩
  · rw [parseRawResponse, Py.find_zero, ← headEnd, headEnd_encode]
    dsimp only
    rw [take_encode, body, encodedSection, splitLines_headSection, List.headD_cons,
      statusOf_statusLine, List.tail_cons, lines_bytes]
  · rw [get_foldl addHeader id fun headers f => f.addHeader_line headers]
    exact List.map_id _

theorem encode_ne_nil (h : ResponseHead) : h.encode ≠ [] := by
  rw [encode_eq]
  exact List.append_ne_nil_of_right_ne_nil _ (List.cons_ne_nil _ _)

end ResponseHead

end Protospy
