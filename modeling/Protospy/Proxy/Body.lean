import Mathlib.Algebra.GroupWithZero.Nat
import Protospy.Lib.Combinators
import Protospy.Proxy.Errors

/-!
# Bodies and their prefetch (`body.rs`)

A body is a stream of frames, each read with or without an error. Before a body
is forwarded with reporting, the frames that are already available are read
ahead for at most a short time and put back in front of the rest.
-/

namespace Protospy

open PollStream

inductive Direction where
  | request
  | response
  deriving DecidableEq, Repr

def Direction.toText : Direction → String
  | .request => "Request"
  | .response => "Response"

inductive Frame where
  | data (bytes : Bytes)
  | trailers (map : HeaderMap)
  deriving DecidableEq

namespace Frame

def dataRef : Frame → Option Bytes
  | .data bytes => some bytes
  | .trailers _ => none

def trailersRef : Frame → Option HeaderMap
  | .data _ => none
  | .trailers map => some map

end Frame

abbrev BodyStreamItem := Except BodyError Frame

/-- `http_body::Body`. A true `is_end_stream` means that polling for a frame
returns the end. -/
class HttpBody (β : Type) extends AsyncStream β BodyStreamItem where
  isEndStream : β → Bool
  end_of_stream : ∀ b, isEndStream b = true → (pollNext b).1 = .ready none

export HttpBody (isEndStream)

/-- A body given by its answers, which never claims to be at its end. -/
instance : HttpBody (Script BodyStreamItem) where
  isEndStream _ := false
  end_of_stream _ h := nomatch h

/-- Concatenation of the data frames. -/
def dataBytes (frames : List Frame) : Bytes := (frames.filterMap Frame.dataRef).flatten

def trailersOf (frames : List Frame) : List HeaderMap := frames.filterMap Frame.trailersRef

theorem dataBytes_append (frames more : List Frame) :
    dataBytes (frames ++ more) = dataBytes frames ++ dataBytes more := by
  simp [dataBytes]

theorem trailersOf_append (frames more : List Frame) :
    trailersOf (frames ++ more) = trailersOf frames ++ trailersOf more := by
  simp [trailersOf]

structure Body.BodyContent where
  data : Bytes
  trailers : Option HeaderMap
  deriving DecidableEq

def Body.BodyContent.copyFromFrames (frames : List Frame) : Body.BodyContent where
  data := (frames.filterMap Frame.dataRef).foldl (· ++ ·) []
  trailers := frames.findSome? Frame.trailersRef

inductive FoundBodyData where
  | noBody
  | noneRead
  | partialData (content : Body.BodyContent)
  | complete (content : Body.BodyContent)
  deriving DecidableEq

abbrev RestStream (β : Type) := Peekable β BodyStreamItem

structure PrefetchedParts (β : Type) where
  frames : Option (List Frame)
  rest : Option (RestStream β)

def frameStream (frames : List Frame) : Iter BodyStreamItem := ⟨frames.map .ok⟩

namespace PrefetchedParts

variable {β τ : Type} [AsyncStream τ BodyStreamItem]

def dataBytes (p : PrefetchedParts β) : Nat :=
  ((p.frames.getD []).filterMap Frame.dataRef |>.map List.length).sum

/-- Put the prefetched frames in front of the rest, which `wrapBody` may wrap. -/
def assemble (p : PrefetchedParts β) (wrapBody : RestStream β → Except Report τ) :
    Except Report (Boxed.{0} BodyStreamItem) :=
  match p with
  | ⟨some frames, some rest⟩ =>
    (wrapBody rest).map fun wrapped => ⟨Chain.first (frameStream frames) wrapped⟩
  | ⟨some frames, none⟩ => .ok ⟨frameStream frames⟩
  | ⟨none, some rest⟩ => (wrapBody rest).map fun wrapped => ⟨wrapped⟩
  | ⟨none, none⟩ => .ok ⟨(Iter.empty : Iter BodyStreamItem)⟩

end PrefetchedParts

/-- Collect frames up to the first error, which is returned instead. -/
def collectFrames : List BodyStreamItem → Except Report (List Frame)
  | [] => .ok []
  | .ok frame :: rest => (collectFrames rest).map (frame :: ·)
  | .error err :: _ => .error (.body err)

def readyChunkSize : Nat := 32

section Prefetch

variable {β : Type} [HttpBody β]

/-- The first chunk of frames that is ready before the peek timer fires. -/
def firstChunk (peekTicks : Nat) (body : β) :
    Option (Option (List BodyStreamItem)) × ReadyChunks (RestStream β) :=
  timeout pollNext peekTicks (ReadyChunks.new (Peekable.new body) readyChunkSize)

/-- The case distinction at the end of `collect_ready_data`, on the outcome of
the first await and on what the second one left. -/
def classifyReady (found : Option (Option (List BodyStreamItem))) (rest : RestStream β) :
    Except Report (FoundBodyData × PrefetchedParts β) :=
  match found, rest.isTerminated with
  | none, true => .ok (.noBody, ⟨none, none⟩)
  | some none, true => .ok (.noBody, ⟨none, none⟩)
  | none, false => .ok (.noneRead, ⟨none, some rest⟩)
  | some none, false => .error .invalidReadyState
  | some (some items), terminated =>
    (collectFrames items).map fun frames =>
      let content := Body.BodyContent.copyFromFrames frames
      if terminated then (.complete content, ⟨some frames, none⟩)
      else (.partialData content, ⟨some frames, some rest⟩)

/-- Read any immediately available data, and return it together with the parts
which reproduce the original body. The timers of the two awaits fire after
`peekTicks` and `zeroTicks` fruitless polls. -/
def collectReadyData (peekTicks zeroTicks : Nat) (body : β) :
    Except Report (FoundBodyData × PrefetchedParts β) :=
  if isEndStream body then .ok (.noBody, ⟨none, none⟩)
  else
    let ready := firstChunk peekTicks body
    let rest := (timeout Peekable.pollPeek zeroTicks ready.2.intoInner).2
    classifyReady ready.1 rest

end Prefetch

/-! ## What the prefetch keeps -/

theorem collectFrames_ok {items : List BodyStreamItem} {frames : List Frame} :
    collectFrames items = .ok frames ↔ items = frames.map .ok := by
  induction items generalizing frames with
  | nil => cases frames <;> simp [collectFrames]
  | cons item items ih =>
    cases item with
    | error err => cases frames <;> simp [collectFrames]
    | ok frame =>
      rcases h : collectFrames items with err | more
      · have none_ok : ∀ rest : List Frame, items ≠ rest.map .ok := fun (rest : List Frame) heq => by
          rw [ih.mpr heq] at h
          cases h
        cases frames <;> simp [collectFrames, h, Except.map, none_ok]
      · have heq := ih.mp h
        cases frames with
        | nil => simp [collectFrames, h, Except.map]
        | cons g rest =>
          simp only [collectFrames, h, Except.map, Except.ok.injEq, List.cons.injEq,
            List.map_cons, and_congr_right_iff]
          rintro rfl
          rw [← ih, h, Except.ok.injEq]

theorem collectFrames_error {items : List BodyStreamItem} {r : Report}
    (h : collectFrames items = .error r) : ∃ err, r = .body err ∧ .error err ∈ items := by
  induction items with
  | nil => cases h
  | cons item items ih =>
    cases item with
    | error err =>
      obtain rfl : Report.body err = r := by simpa [collectFrames] using h
      exact ⟨err, rfl, List.mem_cons_self⟩
    | ok frame =>
      rcases hc : collectFrames items with r' | more
      · obtain rfl : r' = r := by simpa [collectFrames, hc, Except.map] using h
        obtain ⟨err, rfl, hmem⟩ := ih hc
        exact ⟨err, rfl, List.mem_cons_of_mem _ hmem⟩
      · simp [collectFrames, hc, Except.map] at h

/-- How the classification describes the parts. -/
def FoundBodyData.Describes {β : Type} : FoundBodyData → PrefetchedParts β → Prop
  | .noBody, p => p = ⟨none, none⟩
  | .noneRead, p => ∃ rest, p = ⟨none, some rest⟩
  | .partialData c, p => ∃ frames rest, p = ⟨some frames, some rest⟩ ∧
      c = Body.BodyContent.copyFromFrames frames
  | .complete c, p => ∃ frames, p = ⟨some frames, none⟩ ∧
      c = Body.BodyContent.copyFromFrames frames

section Prefetch

variable {β τ : Type} [HttpBody β] [AsyncStream τ BodyStreamItem]

namespace PrefetchedParts

def prefetched (p : PrefetchedParts β) : List BodyStreamItem := (p.frames.getD []).map .ok

def restTrace (p : PrefetchedParts β) : Set (Seen BodyStreamItem) :=
  match p.rest with
  | some rest => trace rest
  | none => ended

/-- The items of the prefetched frames followed by those of the rest. -/
theorem assemble_trace {p : PrefetchedParts β} {wrapBody : RestStream β → Except Report τ}
    (same : ∀ rest wrapped, wrapBody rest = .ok wrapped → trace wrapped = trace rest)
    {boxed : Boxed BodyStreamItem} (h : p.assemble wrapBody = .ok boxed) :
    trace boxed = after p.prefetched p.restTrace := by
  obtain ⟨_ | frames, _ | rest⟩ := p
  · obtain rfl := Except.ok.inj h
    rw [trace_boxed]
    exact trace_iter []
  · rcases hw : wrapBody rest with err | wrapped
    · simp [assemble, hw, Except.map] at h
    · obtain rfl : Boxed.mk wrapped = boxed := by
        simpa [assemble, hw, Except.map] using h
      rw [trace_boxed]
      exact same rest wrapped hw
  · obtain rfl := Except.ok.inj h
    rw [trace_boxed]
    exact trace_iter _
  · rcases hw : wrapBody rest with err | wrapped
    · simp [assemble, hw, Except.map] at h
    · obtain rfl : Boxed.mk (Chain.first (frameStream frames) wrapped) = boxed := by
        simpa [assemble, hw, Except.map] using h
      rw [trace_boxed]
      exact (trace_chain_iter _ wrapped).trans (by rw [same rest wrapped hw]; rfl)

end PrefetchedParts

/-- An error is among the frames that are read ahead. -/
def FailsInPrefetch (peekTicks : Nat) (body : β) : Prop :=
  isEndStream body = false ∧
    ∃ items err, (firstChunk peekTicks body).1 = some (some items) ∧ .error err ∈ items

/-- The two awaits split the body into the chunk read and a peekable rest; if
the chunk's stream said that it ended, the rest is terminated. -/
theorem firstChunk_splits (peekTicks zeroTicks : Nat) (body : β) :
    let ready := firstChunk peekTicks body
    let rest := (timeout Peekable.pollPeek zeroTicks ready.2.intoInner).2
    trace body = after ((ready.1.getD none).getD []) (trace rest) ∧
      (ready.1 = some none → rest.isTerminated = true) := by
  intro ready rest
  have split : ReadyChunks.TimedSplits (Peekable.new body) ready :=
    ReadyChunks.timeout_splits peekTicks readyChunkSize _
  have peek : trace rest = trace ready.2.intoInner :=
    timeout_invariant (P := fun p : RestStream β => trace p = trace ready.2.intoInner)
      (fun p hp => (Peekable.trace_pollPeek p).trans hp) zeroTicks rfl
  have stays : ready.2.intoInner.isTerminated = true → rest.isTerminated = true := fun h =>
    timeout_invariant (P := fun p : RestStream β => p.isTerminated = true)
      (fun _ hp => Peekable.isTerminated_pollPeek hp) zeroTicks h
  rw [← Peekable.trace_new body, peek]
  clear_value ready
  obtain ⟨_ | _ | items, inner⟩ := ready
  · exact ⟨split, fun h => by cases h⟩
  · exact ⟨split.2, fun _ => stays split.1⟩
  · exact ⟨split, fun h => by cases h⟩

theorem copyFromFrames_data (frames : List Frame) :
    (Body.BodyContent.copyFromFrames frames).data = dataBytes frames := by
  have fold : ∀ (buf : Bytes) (parts : List Bytes),
      parts.foldl (· ++ ·) buf = buf ++ parts.flatten := by
    intro buf parts
    induction parts generalizing buf with
    | nil => simp
    | cons part parts ih => simp [ih]
  exact fold [] _

theorem copyFromFrames_trailers (frames : List Frame) :
    (Body.BodyContent.copyFromFrames frames).trailers = (trailersOf frames).head? := by
  simp [Body.BodyContent.copyFromFrames, trailersOf, List.head?_filterMap]

theorem classifyReady_ok {found' : Option (Option (List BodyStreamItem))} {rest : RestStream β}
    {found : FoundBodyData} {parts : PrefetchedParts β}
    (h : classifyReady found' rest = .ok (found, parts)) :
    found.Describes parts ∧
      after ((found'.getD none).getD []) (trace rest) =
        after parts.prefetched parts.restTrace := by
  cases ht : rest.isTerminated with
  | true =>
    have stopped := Peekable.trace_of_isTerminated ht
    rcases found' with _ | _ | items
    · obtain ⟨rfl, rfl⟩ : .noBody = found ∧ ⟨none, none⟩ = parts := by
        simpa [classifyReady, ht] using h
      exact ⟨rfl, stopped⟩
    · obtain ⟨rfl, rfl⟩ : .noBody = found ∧ ⟨none, none⟩ = parts := by
        simpa [classifyReady, ht] using h
      exact ⟨rfl, stopped⟩
    · rcases hc : collectFrames items with r | frames
      · simp [classifyReady, hc, Except.map] at h
      · obtain ⟨rfl, rfl⟩ : .complete (.copyFromFrames frames) = found ∧
            ⟨some frames, none⟩ = parts := by
          simpa [classifyReady, ht, hc, Except.map] using h
        refine ⟨⟨frames, rfl, rfl⟩, ?_⟩
        rw [collectFrames_ok.mp hc, stopped]
        rfl
  | false =>
    rcases found' with _ | _ | items
    · obtain ⟨rfl, rfl⟩ : .noneRead = found ∧ ⟨none, some rest⟩ = parts := by
        simpa [classifyReady, ht] using h
      exact ⟨⟨rest, rfl⟩, rfl⟩
    · simp [classifyReady, ht] at h
    · rcases hc : collectFrames items with r | frames
      · simp [classifyReady, hc, Except.map] at h
      · obtain ⟨rfl, rfl⟩ : .partialData (.copyFromFrames frames) = found ∧
            ⟨some frames, some rest⟩ = parts := by
          simpa [classifyReady, ht, hc, Except.map] using h
        refine ⟨⟨frames, rest, rfl, rfl⟩, ?_⟩
        rw [collectFrames_ok.mp hc]
        rfl

/-- What a successful prefetch returns is the whole body. -/
theorem collectReadyData_ok {peekTicks zeroTicks : Nat} {body : β} {found : FoundBodyData}
    {parts : PrefetchedParts β}
    (h : collectReadyData peekTicks zeroTicks body = .ok (found, parts)) :
    found.Describes parts ∧ trace body = after parts.prefetched parts.restTrace := by
  unfold collectReadyData at h
  split at h
  · rename_i atEnd
    obtain ⟨rfl, rfl⟩ := Prod.mk.inj (Except.ok.inj h)
    have stop : pollNext body = (.ready none, (pollNext body).2) := by
      rw [← HttpBody.end_of_stream body atEnd]
    exact ⟨rfl, trace_end stop⟩
  · obtain ⟨split, -⟩ := firstChunk_splits peekTicks zeroTicks body
    obtain ⟨describes, same⟩ := classifyReady_ok h
    exact ⟨describes, split.trans same⟩

/-- A failed prefetch read an error; the state the source calls invalid, a
stream that yields no chunk and is not terminated, does not come up. -/
theorem collectReadyData_error {peekTicks zeroTicks : Nat} {body : β} {r : Report}
    (h : collectReadyData peekTicks zeroTicks body = .error r) :
    FailsInPrefetch peekTicks body ∧ ∃ err, r = .body err := by
  rw [collectReadyData] at h
  split at h
  · cases h
  · rename_i notEnd
    obtain ⟨-, stops⟩ := firstChunk_splits peekTicks zeroTicks body
    revert h stops
    rcases hf : firstChunk peekTicks body with ⟨_ | _ | items, ready⟩ <;> intro h stops
    · cases ht : (timeout Peekable.pollPeek zeroTicks ready.intoInner).2.isTerminated <;>
        simp [classifyReady, ht] at h
    · simp [classifyReady, stops rfl] at h
    · rcases hc : collectFrames items with r' | frames
      · obtain ⟨err, rfl, hmem⟩ := collectFrames_error hc
        obtain rfl : Report.body err = r := by simpa [classifyReady, hc, Except.map] using h
        exact ⟨⟨by simpa using notEnd, items, err, by rw [hf], hmem⟩, err, rfl⟩
      · simp [classifyReady, hc, Except.map] at h

theorem collectReadyData_fails_iff (peekTicks zeroTicks : Nat) (body : β) :
    (∃ r, collectReadyData peekTicks zeroTicks body = .error r) ↔
      FailsInPrefetch peekTicks body := by
  constructor
  · rintro ⟨r, h⟩
    exact (collectReadyData_error h).1
  · rintro ⟨notEnd, items, err, hf, hmem⟩
    rcases hc : collectFrames items with r | frames
    · exact ⟨r, by simp [collectReadyData, notEnd, classifyReady, hf, hc, Except.map]⟩
    · rw [collectFrames_ok.mp hc] at hmem
      simp at hmem

/-- A body that ends without an error cannot fail in its prefetch. -/
theorem not_failsInPrefetch {body : β} {frames : List Frame}
    (ends : (frames.map .ok, true) ∈ trace body) (peekTicks : Nat) :
    ¬ FailsInPrefetch peekTicks body := by
  rintro ⟨-, items, err, found, member⟩
  obtain ⟨split, -⟩ := firstChunk_splits peekTicks 0 body
  rw [split, found] at ends
  obtain ⟨rest, all, -⟩ := complete_mem_after ends
  have bad : (.error err : BodyStreamItem) ∈ frames.map .ok :=
    all ▸ List.mem_append_left _ member
  simp at bad

/-- The parts of a body that ends without an error: the prefetched frames and
those of the rest, which are determined by the rest alone. -/
theorem prefetch_frames {peekTicks zeroTicks : Nat} {body : β} {found : FoundBodyData}
    {parts : PrefetchedParts β}
    (h : collectReadyData peekTicks zeroTicks body = .ok (found, parts)) {frames : List Frame}
    (ends : (frames.map .ok, true) ∈ trace body) :
    ∃ rest, frames = parts.frames.getD [] ++ rest ∧ (rest.map .ok, true) ∈ parts.restTrace ∧
      ∀ rest' : List Frame, (rest'.map .ok, true) ∈ parts.restTrace → rest' = rest := by
  obtain ⟨-, same⟩ := collectReadyData_ok h
  rw [same] at ends
  obtain ⟨rest, split, seen⟩ := complete_mem_after ends
  obtain ⟨pre, rest', rfl, hpre, rfl⟩ := List.map_eq_append_iff.mp split
  have injective : Function.Injective (.ok : Frame → BodyStreamItem) := fun _ _ => Except.ok.inj
  refine ⟨rest', ?_, seen, fun other hother => injective.list_map ?_⟩
  · rw [injective.list_map hpre]
  · cases hr : parts.rest with
    | some r =>
      simp only [PrefetchedParts.restTrace, hr] at seen hother
      exact complete_unique hother seen
    | none =>
      simp only [PrefetchedParts.restTrace, hr] at seen hother
      rw [(mem_after_ended [] _).mp hother, (mem_after_ended [] _).mp seen]

/-- At most one of the frames is a trailers frame. -/
def AtMostOneTrailers (body : β) : Prop :=
  ∀ seen ∈ trace body, (trailersOf (seen.1.filterMap Except.toOption)).length ≤ 1

theorem filterMap_toOption_ok (frames : List Frame) :
    (frames.map (.ok : Frame → BodyStreamItem)).filterMap Except.toOption = frames := by
  rw [List.filterMap_map]
  exact List.filterMap_some

theorem prefetched_seen {body : β} {frames : List Frame} {T : Set (Seen BodyStreamItem)}
    (h : trace body = after (frames.map .ok) T) (hT : ([], false) ∈ T) :
    (frames.map .ok, false) ∈ trace body := by
  rw [h]
  clear h
  induction frames with
  | nil => exact hT
  | cons frame frames ih => exact Or.inr ⟨_, ih, rfl⟩

/-- Of a body with at most one trailers frame, all the trailers read are reported. -/
theorem copyFromFrames_reported {body : β} (oneTrailers : AtMostOneTrailers body)
    {parts : PrefetchedParts β} (same : trace body = after parts.prefetched parts.restTrace)
    {frames : List Frame} (read : parts.frames = some frames) :
    (Body.BodyContent.copyFromFrames frames).trailers.toList = trailersOf frames := by
  have restNil : ([], false) ∈ parts.restTrace := by
    rw [PrefetchedParts.restTrace]
    split
    · exact nil_mem_trace _
    · exact Or.inl rfl
  have seen : (frames.map .ok, false) ∈ trace body :=
    prefetched_seen (by rw [same, PrefetchedParts.prefetched, read]; rfl) restNil
  have single := oneTrailers _ seen
  rw [filterMap_toOption_ok] at single
  rw [copyFromFrames_trailers]
  match ht : trailersOf frames, single with
  | [], _ => rfl
  | [map], _ => rfl
  | _ :: _ :: _, single => simp at single

/-- The prefetch loses nothing, doubles nothing and reorders nothing, reports
exactly what it read, and calls a body complete or empty only at its end. -/
theorem prefetch_lossless (body : β) (oneTrailers : AtMostOneTrailers body)
    (peekTicks zeroTicks : Nat) :
    collectReadyData peekTicks zeroTicks body ≠ .error .invalidReadyState ∧
    ∀ found parts, collectReadyData peekTicks zeroTicks body = .ok (found, parts) →
      (∀ (τ : Type) [AsyncStream τ BodyStreamItem] (wrapBody : RestStream β → Except Report τ),
        (∀ rest wrapped, wrapBody rest = .ok wrapped → trace wrapped = trace rest) →
        ∀ boxed, parts.assemble wrapBody = .ok boxed → trace boxed = trace body) ∧
      (∀ content, found = .partialData content ∨ found = .complete content →
        ∃ frames, parts.frames = some frames ∧ content.data = dataBytes frames ∧
          content.trailers.toList = trailersOf frames) ∧
      (found = .noBody ∨ found = .noneRead → parts.frames = none) ∧
      (∀ content, found = .noBody ∨ found = .complete content →
        parts.rest = none ∧ trace body = after parts.prefetched ended) := by
  refine ⟨fun h => ?_, fun found parts h => ?_⟩
  · obtain ⟨-, err, herr⟩ := collectReadyData_error h
    cases herr
  · obtain ⟨describes, same⟩ := collectReadyData_ok h
    refine ⟨fun τ _ wrapBody sound boxed hb => ?_, ?_, ?_, ?_⟩
    · rw [PrefetchedParts.assemble_trace sound hb, same]
    · rintro content (rfl | rfl)
      · obtain ⟨frames, rest, rfl, rfl⟩ := describes
        exact ⟨frames, rfl, copyFromFrames_data frames,
          copyFromFrames_reported oneTrailers same rfl⟩
      · obtain ⟨frames, rfl, rfl⟩ := describes
        exact ⟨frames, rfl, copyFromFrames_data frames,
          copyFromFrames_reported oneTrailers same rfl⟩
    · rintro (rfl | rfl)
      · obtain rfl := describes
        rfl
      · obtain ⟨rest, rfl⟩ := describes
        rfl
    · rintro content (rfl | rfl)
      · obtain rfl := describes
        exact ⟨rfl, same⟩
      · obtain ⟨frames, rfl, -⟩ := describes
        exact ⟨rfl, same⟩

private def twoFrames : Script BodyStreamItem :=
  ⟨[.ready (some (.ok (.data [97]))), .pending, .ready (some (.ok (.data [98])))]⟩

theorem prefetch_lossless_twoFrames :
    ∃ parts, collectReadyData 0 0 twoFrames = .ok (.partialData ⟨[97], none⟩, parts) ∧
      ∀ boxed, parts.assemble .ok = .ok boxed → trace boxed = trace twoFrames := by
  have single : AtMostOneTrailers twoFrames := by
    intro seen hseen
    rw [twoFrames, trace_item rfl, trace_pending rfl, trace_item rfl, trace_end rfl] at hseen
    obtain rfl | ⟨_, rfl | ⟨_, rfl | rfl, rfl⟩, rfl⟩ := hseen <;> decide
  refine ⟨_, rfl, ((prefetch_lossless twoFrames single 0 0).2 _ _ rfl).1 _ .ok ?_⟩
  rintro rest _ ⟨⟩
  rfl

end Prefetch

end Protospy
