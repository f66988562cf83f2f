import Protospy.Proxy.StreamIntegrity
import Protospy.Proxy.Transparency

/-!
# What is published about one body

The head of a message is published with the part of its body that was read
ahead; the reporter publishes the rest. Together they are contiguous from the
first byte of the body, and only the last of them can be the end.
-/

namespace Protospy

open Event (BodyContent BodyData InitialBody)
open PollStream

/-- The head that a body comes with. -/
inductive Head where
  | request (parts : RequestParts)
  | response (parts : ResponseParts) (elapsedMs : Int)

namespace Head

def direction : Head → Direction
  | request _ => .request
  | response _ _ => .response

def headers : Head → HeaderMap
  | request parts => parts.headers
  | response parts _ => parts.headers

def event : Head → FoundBodyData → ProxyEvent
  | request parts => .fromRequest parts
  | response parts elapsedMs => fun found => .fromResponse parts found elapsedMs

end Head

theorem trackRequest_eq {β : Type} [HttpBody β] (env : TrackEnv) (request : Request β)
    (orig : RequestParts) : Exchange.trackRequest env request orig =
      track env (Head.request orig).direction (Head.request orig).event request.body := rfl

theorem trackResponse_eq {γ : Type} [HttpBody γ] (env : TrackEnv) (response : Response γ)
    (orig : ResponseParts) (elapsedMs : Int) :
    Exchange.trackResponse env response orig elapsedMs =
      track env (Head.response orig elapsedMs).direction (Head.response orig elapsedMs).event
        response.body := rfl

def Event.InitialBody.body? {H : Type} : InitialBody H → Option (BodyData H)
  | .data body => some body
  | _ => none

/-- The body data that an event carries. -/
def ProxyEvent.body? : ProxyEvent → Option (BodyData Headers)
  | .request _ _ _ _ initial => initial.body?
  | .response _ _ _ _ initial => initial.body?
  | .bodyData body => some body
  | .error _ _ => none

def ProxyEvent.isHead : ProxyEvent → Bool
  | .request .. => true
  | .response .. => true
  | _ => false

theorem ProxyEvent.body?_of_not_head {e : ProxyEvent} (h : e.isHead = false) :
    e.body? = e.bodyData? := by
  cases e <;> first | rfl | cases h

theorem Head.event_body? (head : Head) (found : FoundBodyData) :
    (head.event found).body? = (initialBodyFromFound found).body? := by
  cases head <;> rfl

/-- The events about one tracked body: the head's and those of its reporter. -/
def bodyEvents (tracked : Tracked) (runs : List ReporterRun) : List ProxyEvent :=
  tracked.published ++ runs.flatMap fun r => r.state.published

/-- At most the last of the bodies is the end. -/
def OnlyLastEnds {H : Type} (bodies : List (BodyData H)) : Prop :=
  ∀ before body after, bodies = before ++ body :: after → body.atEnd = true → after = []

theorem onlyLastEnds_of_quiet {H : Type} {bodies : List (BodyData H)}
    (h : ∀ body ∈ bodies, body.atEnd = false) : OnlyLastEnds bodies := by
  intro before body after split ends
  have quiet := h body (split ▸ List.mem_append_right _ List.mem_cons_self)
  simp [quiet] at ends

theorem onlyLastEnds_concat {H : Type} {bodies : List (BodyData H)}
    (h : ∀ body ∈ bodies, body.atEnd = false) (last : BodyData H) :
    OnlyLastEnds (bodies ++ [last]) := by
  intro before body after split ends
  rcases List.eq_nil_or_concat after with rfl | ⟨init, final, rfl⟩
  · rfl
  · rw [List.concat_eq_append, ← List.cons_append, ← List.append_assoc] at split
    have earlier := (List.append_inj' split rfl).1
    have quiet := h body (earlier ▸ List.mem_append_right _ List.mem_cons_self)
    simp [quiet] at ends

theorem onlyLastEnds_singleton {H : Type} (body : BodyData H) : OnlyLastEnds [body] :=
  onlyLastEnds_concat (List.forall_mem_nil _) body

theorem OnlyLastEnds.cons {H : Type} {bodies : List (BodyData H)} {first : BodyData H}
    (h : OnlyLastEnds bodies) (quiet : first.atEnd = false) : OnlyLastEnds (first :: bodies) := by
  intro before body after split ends
  cases before with
  | nil =>
    obtain ⟨rfl, -⟩ : first = body ∧ bodies = after := by simpa using split
    simp [quiet] at ends
  | cons b before =>
    obtain ⟨-, rest⟩ : first = b ∧ bodies = before ++ body :: after := by simpa using split
    exact h before body after rest ends

namespace ReportingSystem

/-- A step publishes at most one event, and never a head. -/
theorem published_step {s t : ReportingSystem} {a : ReportingAction} (st : Steps s a t) :
    t.published = s.published ∨
      ∃ e : ProxyEvent, t.published = s.published ++ [e] ∧ e.isHead = false := by
  cases st with
  | receive event rest listening running queued =>
    cases event with
    | data => exact .inl rfl
    | trailers map => exact .inl rfl
    | error message => cases listening with
      | false => exact .inl rfl
      | true => exact .inr ⟨_, rfl, rfl⟩
    | eof => cases listening with
      | false => exact .inl rfl
      | true => exact .inr ⟨_, rfl, rfl⟩
  | closed listening running empty dropped => cases listening with
    | false => exact .inl rfl
    | true => exact .inr ⟨_, rfl, rfl⟩
  | flush listening running pending => cases listening with
    | false => exact .inl rfl
    | true => exact .inr ⟨_, rfl, rfl⟩
  | _ => exact .inl rfl

theorem published_noHead {direction : Direction} {prev : Nat} {acts : List ReportingAction}
    {s : ReportingSystem} (ran : Machine.run step (createBuffered direction prev) acts = some s) :
    ∀ e ∈ s.published, e.isHead = false := by
  refine Machine.run_invariant (P := fun s : ReportingSystem =>
    ∀ e ∈ s.published, e.isHead = false) (fun s a t h taken => ?_) ?_ ran
  · rcases published_step (steps_of_step taken) with same | ⟨e, more, noHead⟩
    · rwa [same]
    · rw [more]
      simpa [or_imp, forall_and] using ⟨h, noHead⟩
  · exact fun e he => absurd he List.not_mem_nil

theorem published_bodies {direction : Direction} {prev : Nat} {acts : List ReportingAction}
    {s : ReportingSystem} (ran : Machine.run step (createBuffered direction prev) acts = some s) :
    s.published.filterMap ProxyEvent.body? = s.bodies :=
  List.filterMap_congr fun e he => ProxyEvent.body?_of_not_head (published_noHead ran e he)

end ReportingSystem

/-- The reporter's part of the published bodies, in any state it can reach. -/
theorem reporter_bodies {direction : Direction} {prev : Nat} {r : ReporterRun}
    (start : r.start = .createBuffered direction prev) :
    r.state.published.filterMap ProxyEvent.body? = r.state.bodies ∧
      Contiguous prev r.state.bodies ∧ OnlyLastEnds r.state.bodies := by
  have ran := r.ran
  rw [start] at ran
  have sound := ReportingSystem.sound_run ran
  refine ⟨ReportingSystem.published_bodies ran, sound.balanced.contiguous, ?_⟩
  by_cases done : r.state.status = .returned
  · obtain ⟨before, last, split, -, quiet⟩ := sound.terminated.last done
    rw [split]
    exact onlyLastEnds_concat quiet last
  · exact onlyLastEnds_of_quiet (sound.terminated.quiet done)

section Tracked

variable {β : Type} [HttpBody β]

omit [HttpBody β] in
theorem prefetched_dataBytes (frames : List Frame) (rest : Option (RestStream β)) :
    (PrefetchedParts.mk (some frames) rest).dataBytes =
      (Body.BodyContent.copyFromFrames frames).data.length := by
  rw [copyFromFrames_data]
  simp [PrefetchedParts.dataBytes, dataBytes, List.length_flatten]

theorem bodyDataFromContent_startsAt (content : Body.BodyContent) (atEnd : Bool) :
    (bodyDataFromContent content atEnd).payload = content.data ∧
      (bodyDataFromContent content atEnd).StartsAt 0 := by
  have payload : (bodyDataFromContent content atEnd).payload = content.data :=
    BodyChunk.bytes_ofBytes _
  refine ⟨payload, fun c hc => ?_, ?_⟩
  · obtain rfl := Option.some.inj hc
    exact ⟨rfl, by rw [BodyChunk.bytes_ofBytes]⟩
  · rw [payload]
    exact (Nat.zero_add _).symm

/-- Where the body was not fully prefetched, it has one reporter, which counts
from the bytes prefetched. -/
theorem track_cases (env : TrackEnv) (head : Head) (body : β) {runs : List ReporterRun}
    (started : runs.map ReporterRun.start = (track env head.direction head.event body).reporters) :
    (bodyEvents (track env head.direction head.event body) runs = []) ∨
    ∃ found parts, collectReadyData env.peekTicks env.zeroTicks body = .ok (found, parts) ∧
      (track env head.direction head.event body).published = [head.event found] ∧
      (runs = [] ∨ (parts.rest.isSome = true ∧
        ∃ r, runs = [r] ∧ r.start = .createBuffered head.direction parts.dataBytes)) := by
  rcases hc : collectReadyData env.peekTicks env.zeroTicks body with err | ⟨found, parts⟩
  · have none : runs = [] := by simpa [track, hc] using started
    exact .inl (by simp [bodyEvents, track, hc, none])
  · by_cases listening : env.listening = true
    · refine .inr ⟨found, parts, rfl, by simp [track, hc, listening], ?_⟩
      simp only [track, hc, listening, if_true, startedReporters] at started
      split at started
      · rename_i needed
        obtain ⟨r, rfl, start⟩ := List.map_eq_singleton_iff.mp started
        exact .inr ⟨needed.1, r, rfl, start⟩
      · exact .inl (List.map_eq_nil_iff.mp started)
    · have none : runs = [] := by simpa [track, hc, listening] using started
      exact .inl (by simp [bodyEvents, track, hc, listening, none])

theorem bodyEvents_tail (env : TrackEnv) (head : Head) (body : β) {runs : List ReporterRun}
    (started : runs.map ReporterRun.start = (track env head.direction head.event body).reporters) :
    ∀ e ∈ (bodyEvents (track env head.direction head.event body) runs).tail, e.isHead = false := by
  intro e he
  rcases track_cases env head body started with quiet | ⟨found, parts, -, published, reporters⟩
  · simp [quiet] at he
  · simp only [bodyEvents, published, List.singleton_append, List.tail_cons] at he
    rcases reporters with rfl | ⟨-, r, rfl, start⟩
    · cases he
    · have ran := r.ran
      rw [start] at ran
      exact ReportingSystem.published_noHead ran e (by simpa using he)

/-- The bodies that are published: what was found first, and then what the reporters send. -/
theorem bodyEvents_bodies {env : TrackEnv} {head : Head} {body : β} {found : FoundBodyData}
    (published : (track env head.direction head.event body).published = [head.event found])
    (runs : List ReporterRun) :
    (bodyEvents (track env head.direction head.event body) runs).filterMap ProxyEvent.body? =
      (initialBodyFromFound found).body?.toList ++
        runs.flatMap fun r => r.state.published.filterMap ProxyEvent.body? := by
  simp only [bodyEvents, published, List.filterMap_append, List.filterMap_flatMap]
  rw [← head.event_body? found]
  cases h : (head.event found).body? <;> simp [h]

omit [HttpBody β] in
/-- The payload that is published first is the data that was read first. -/
theorem payloads_initialBodyFromFound {found : FoundBodyData} {parts : PrefetchedParts β}
    (describes : found.Describes parts) :
    payloads (initialBodyFromFound found).body?.toList = dataBytes (parts.frames.getD []) := by
  cases found with
  | noBody =>
    obtain rfl := describes
    rfl
  | noneRead =>
    obtain ⟨r, rfl⟩ := describes
    rfl
  | partialData content =>
    obtain ⟨frames, r, rfl, rfl⟩ := describes
    obtain ⟨payload, -⟩ := bodyDataFromContent_startsAt (.copyFromFrames frames) false
    simp [initialBodyFromFound, InitialBody.body?, payload, copyFromFrames_data]
  | complete content =>
    obtain ⟨frames, rfl, rfl⟩ := describes
    obtain ⟨payload, -⟩ := bodyDataFromContent_startsAt (.copyFromFrames frames) true
    simp [initialBodyFromFound, InitialBody.body?, payload, copyFromFrames_data]

/-- The bodies published for one tracked body are contiguous from its first
byte, and only the last can be the end. -/
theorem bodyEvents_contiguous (env : TrackEnv) (head : Head) (body : β) {runs : List ReporterRun}
    (started : runs.map ReporterRun.start = (track env head.direction head.event body).reporters) :
    let bodies := (bodyEvents (track env head.direction head.event body) runs).filterMap
      ProxyEvent.body?
    Contiguous 0 bodies ∧ OnlyLastEnds bodies := by
  intro bodies
  rcases track_cases env head body started with quiet | ⟨found, parts, hc, published, reporters⟩
  · have none : bodies = [] := by simp only [bodies, quiet, List.filterMap_nil]
    rw [none]
    exact ⟨trivial, onlyLastEnds_of_quiet (by simp)⟩
  · have split : bodies = (initialBodyFromFound found).body?.toList ++
        runs.flatMap fun r => r.state.published.filterMap ProxyEvent.body? :=
      bodyEvents_bodies published runs
    obtain ⟨describes, -⟩ := collectReadyData_ok hc
    rw [split]
    rcases reporters with rfl | ⟨hasRest, r, rfl, start⟩
    · cases found with
      | noBody => exact ⟨trivial, onlyLastEnds_of_quiet (by simp [initialBodyFromFound, InitialBody.body?])⟩
      | noneRead => exact ⟨trivial, onlyLastEnds_of_quiet (by simp [initialBodyFromFound, InitialBody.body?])⟩
      | partialData content =>
        exact ⟨⟨(bodyDataFromContent_startsAt content false).2, trivial⟩,
          onlyLastEnds_singleton _⟩
      | complete content =>
        exact ⟨⟨(bodyDataFromContent_startsAt content true).2, trivial⟩,
          onlyLastEnds_singleton _⟩
    · obtain ⟨same, contiguous, ends⟩ := reporter_bodies start
      simp only [List.flatMap_singleton, same]
      cases found with
      | noBody =>
        obtain rfl := describes
        cases hasRest
      | complete content =>
        obtain ⟨frames, rfl, -⟩ := describes
        cases hasRest
      | noneRead =>
        obtain ⟨rest, rfl⟩ := describes
        exact ⟨contiguous, ends⟩
      | partialData content =>
        obtain ⟨frames, rest, rfl, rfl⟩ := describes
        obtain ⟨payload, starts⟩ :=
          bodyDataFromContent_startsAt (Body.BodyContent.copyFromFrames frames) false
        refine ⟨⟨starts, ?_⟩, ends.cons rfl⟩
        rw [Nat.zero_add, payload, ← prefetched_dataBytes frames (some rest)]
        exact contiguous

/-- Every reporter was told of the whole rest of the body and of its end and has
nothing left to receive, and somebody listened all along. -/
structure Finished (env : TrackEnv) (body : β) (runs : List ReporterRun) : Prop where
  heard : ∀ r ∈ runs, ∀ a ∈ r.acts, a.heard = true
  closed : ∀ r ∈ runs, r.state.phase.Closed
  drained : ∀ r ∈ runs, r.state.step (.receive true) = none
  whole : ∀ found parts, collectReadyData env.peekTicks env.zeroTicks body = .ok (found, parts) →
    ∀ r ∈ runs, ((ReportingAction.frames r.acts).map .ok, true) ∈ parts.restTrace

/-- A reporter that was told of the whole rest has published it, and the end last. -/
theorem Finished.reporter {env : TrackEnv} {body : β} {runs : List ReporterRun}
    (finished : Finished env body runs) {found : FoundBodyData} {parts : PrefetchedParts β}
    (hc : collectReadyData env.peekTicks env.zeroTicks body = .ok (found, parts))
    {rest : List Frame}
    (unique : ∀ rest' : List Frame, (rest'.map .ok, true) ∈ parts.restTrace → rest' = rest)
    {r : ReporterRun} (member : r ∈ runs) {direction : Direction} {prev : Nat}
    (start : r.start = .createBuffered direction prev) :
    ∃ before last, r.state.published.filterMap ProxyEvent.body? = before ++ [last] ∧
      last.atEnd = true ∧ payloads (before ++ [last]) = dataBytes rest := by
  have ran := r.ran
  rw [start] at ran
  obtain ⟨-, bytes, before, last, close, atEnd, -⟩ :=
    ReportingSystem.drained_run ran (finished.heard r member) (finished.closed r member)
      (finished.drained r member)
  have all : ReportingAction.frames r.acts = rest :=
    unique _ (finished.whole found parts hc r member)
  rw [all, close] at bytes
  exact ⟨before, last, (ReportingSystem.published_bodies ran).trans close, atEnd, bytes⟩

/-- A body that was read to its end without an error is either reported as
absent and empty, or its published payloads are its data and the last is the end. -/
theorem bodyEvents_complete {env : TrackEnv} {head : Head} {body : β} {runs : List ReporterRun}
    {frames : List Frame} (ends : (frames.map .ok, true) ∈ trace body)
    (listening : env.listening = true) (spawns : env.spawns = true)
    (started : runs.map ReporterRun.start = (track env head.direction head.event body).reporters)
    (finished : Finished env body runs) :
    ∃ found parts, collectReadyData env.peekTicks env.zeroTicks body = .ok (found, parts) ∧
      (track env head.direction head.event body).published = [head.event found] ∧
      ((found = .noBody ∧ frames = [] ∧ runs = []) ∨
        found ≠ .noBody ∧ ∃ before last, (bodyEvents (track env head.direction head.event body) runs).filterMap
            ProxyEvent.body? = before ++ [last] ∧ last.atEnd = true ∧
          payloads (before ++ [last]) = dataBytes frames) := by
  rcases hc : collectReadyData env.peekTicks env.zeroTicks body with err | ⟨found, parts⟩
  · exact absurd ((collectReadyData_fails_iff _ _ body).mp ⟨err, hc⟩)
      (not_failsInPrefetch ends env.peekTicks)
  · have published : (track env head.direction head.event body).published = [head.event found] := by
      simp [track, hc, listening]
    obtain ⟨describes, -⟩ := collectReadyData_ok hc
    obtain ⟨rest, split, seen, unique⟩ := prefetch_frames hc ends
    have bodies := bodyEvents_bodies published runs
    have first := payloads_initialBodyFromFound describes
    refine ⟨found, parts, rfl, published, ?_⟩
    simp only [track, hc, listening, if_true, startedReporters, spawns, and_true] at started
    cases hrest : parts.rest with
    | none =>
      have none : runs = [] := by simpa [hrest] using started
      have empty : rest = [] := by
        refine (unique [] ?_).symm
        simp only [PrefetchedParts.restTrace, hrest]
        exact (mem_after_ended [] []).mpr rfl
      subst none
      cases found with
      | noBody =>
        obtain rfl := describes
        exact .inl ⟨rfl, by simp [split, empty], rfl⟩
      | noneRead =>
        obtain ⟨r, rfl⟩ := describes
        cases hrest
      | partialData content =>
        obtain ⟨frames, r, rfl, -⟩ := describes
        cases hrest
      | complete content =>
        refine .inr ⟨by simp, [], _, by rw [bodies]; rfl, rfl, ?_⟩
        rw [split, empty, List.append_nil]
        exact first
    | some r' =>
      obtain ⟨r, rfl, start⟩ := List.map_eq_singleton_iff.mp
        (by simpa [hrest] using started : runs.map ReporterRun.start = [_])
      obtain ⟨before, last, reporter, atEnd, bytes⟩ :=
        finished.reporter hc unique (List.mem_singleton_self r) start
      simp only [List.flatMap_singleton, reporter, ← List.append_assoc] at bodies
      have present : found ≠ .noBody := by
        rintro rfl
        obtain rfl := describes
        cases hrest
      refine .inr ⟨present, _, last, bodies, atEnd, ?_⟩
      rw [List.append_assoc, payloads_append, bytes, split, dataBytes_append, first]

end Tracked

end Protospy
