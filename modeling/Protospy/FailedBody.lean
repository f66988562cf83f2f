import Protospy.Delivery

/-!
# Bodies that fail

A body fails when its stream yields an error or when it is dropped before its
end. The reporter does not tell either from a clean end: when it comes to the end
of its channel it publishes the rest as the end of the body.
-/

namespace Protospy

open Event (BodyData)
open Machine (run run_takes Takes)

inductive StreamState where
  | live
  | paused
  | complete
  | disconnected
  deriving DecidableEq, Repr

/-- `deriveStreamState` of `live-indicator.tsx`. -/
def deriveStreamState (atEnd isFollowing : Bool) (exchangeError : Option ExchangeError) :
    StreamState :=
  let hasResponseError := exchangeError.any fun err => err.direction = .response
  if hasResponseError && !atEnd then .disconnected
  else if atEnd then .complete
  else if isFollowing then .live
  else .paused

namespace ReportingSystem

def hasEnd (s : ReportingSystem) : Bool := s.bodies.any fun body => body.atEnd

/-- The reporter finds the end of its channel, and somebody listens. -/
def FindsEnd (s : ReportingSystem) (a : ReportingAction) : Prop :=
  a = .receive true ∧
    ((∃ rest, s.channel = .eof :: rest) ∨ s.channel = [] ∧ s.phase = .dropped)

/-- The step publishes an event, which nobody hears. -/
def Unheard (s : ReportingSystem) : ReportingAction → Prop
  | .flush listening => listening = false
  | .receive listening => listening = false ∧ match s.channel with
    | .data :: _ => False
    | .trailers _ :: _ => False
    | _ => True
  | _ => False

theorem sendData_hasEnd (s : ReportingSystem) (atEnd listening : Bool) :
    (s.sendData atEnd listening).hasEnd = (s.hasEnd || atEnd && listening) := by
  cases listening with
  | false => simp [hasEnd, sendData, sendEvent, bodies]
  | true =>
    obtain ⟨body, -, ends, -, -, heq⟩ := s.sendData_heard atEnd
    have more : (s.sendData atEnd true).bodies = s.bodies ++ [body] := by
      rw [heq]
      exact bodyDatas_append _ _
    simp [hasEnd, more, ends]

theorem finish_hasEnd (s : ReportingSystem) (listening : Bool) :
    (s.finish listening).hasEnd = (s.hasEnd || listening) := by
  have sent := s.sendData_hasEnd true listening
  cases listening <;> exact sent

/-- A body is marked as the end exactly where the end of the channel is found. -/
theorem hasEnd_step {s t : ReportingSystem} {a : ReportingAction} (st : Steps s a t) :
    t.hasEnd = true ↔ s.hasEnd = true ∨ s.FindsEnd a := by
  cases st with
  | receive event rest listening running queued =>
    cases event with
    | data => simp [handle, hasEnd, bodies, FindsEnd, queued]
    | trailers map => simp [handle, hasEnd, bodies, FindsEnd, queued]
    | error message =>
      cases listening <;>
        simp [handle, sendEvent, hasEnd, bodies, bodyDatas, ProxyEvent.bodyData?, FindsEnd, queued]
    | eof =>
      have ends := finish_hasEnd { s with channel := rest } listening
      simp only [handle, ends, FindsEnd, queued]
      cases listening <;> simp [hasEnd, bodies]
  | closed listening running empty dropped =>
    rw [finish_hasEnd]
    cases listening <;> simp [FindsEnd, empty, dropped]
  | flush listening running pending =>
    have sent := s.sendData_hasEnd false listening
    have same : (s.flushData listening).hasEnd = (s.sendData false listening).hasEnd := by
      cases listening <;> rfl
    simp [same, sent, FindsEnd]
  | _ => simp [hasEnd, bodies, FindsEnd, ReportingSystem.dispatch, enqueue, closeCollector]

theorem sendData_status (s : ReportingSystem) (atEnd listening : Bool) :
    (s.sendData atEnd listening).status = if listening then s.status else .failed := by
  cases listening <;> rfl

/-- `run` fails exactly where an event is sent to nobody. -/
theorem failed_step {s t : ReportingSystem} {a : ReportingAction} (st : Steps s a t) :
    t.status = .failed ↔ s.status = .failed ∨ s.Unheard a := by
  cases st with
  | receive event rest listening running queued =>
    cases event <;> cases listening <;>
      simp [handle, finish, sendEvent, sendData_status, Unheard, running, queued]
  | closed listening running empty dropped =>
    cases listening <;> simp [finish, sendData_status, Unheard, running, empty]
  | flush listening running pending =>
    cases listening <;> simp [flushData, sendData_status, Unheard, running]
  | _ => simp [Unheard, ReportingSystem.dispatch, enqueue, closeCollector]

theorem hasEnd_run {direction : Direction} {prev : Nat} {acts : List ReportingAction}
    {s : ReportingSystem} (ran : run step (createBuffered direction prev) acts = some s) :
    s.hasEnd = true ↔ Takes step FindsEnd (createBuffered direction prev) acts := by
  have quiet : ¬ (createBuffered direction prev).hasEnd = true := by
    simp [hasEnd, createBuffered, bodies, bodyDatas]
  exact run_takes (P := fun s => s.hasEnd = true) (R := fun _ => True) ran quiet
    (fun _ _ => trivial) fun _ _ _ _ taken => hasEnd_step (steps_of_step taken)

theorem failed_run {direction : Direction} {prev : Nat} {acts : List ReportingAction}
    {s : ReportingSystem} (ran : run step (createBuffered direction prev) acts = some s) :
    s.status = .failed ↔ Takes step Unheard (createBuffered direction prev) acts := by
  have quiet : ¬ (createBuffered direction prev).status = .failed := by simp [createBuffered]
  exact run_takes (P := fun s => s.status = .failed) (R := fun _ => True) ran quiet
    (fun _ _ => trivial) fun _ _ _ _ taken => failed_step (steps_of_step taken)

end ReportingSystem

/-- The end flag of a body in the store after more body data. -/
def storedAtEnd (initial : Option BodyState) (received : List (BodyData Wire.ProxyHeaders)) : Bool :=
  ((received.foldl (fun state body => some (appendBodyData state body)) initial).map
    BodyState.atEnd).getD false

theorem appendBodyData_atEnd (prev : Option BodyState) (body : BodyData Wire.ProxyHeaders) :
    (appendBodyData prev body).atEnd = body.atEnd := by
  dsimp only [appendBodyData]
  split <;> rfl

theorem storedAtEnd_eq {initial : Option BodyState}
    (unfinished : ∀ b, initial = some b → b.atEnd = false)
    (received : List (BodyData Wire.ProxyHeaders)) :
    storedAtEnd initial received = lastAtEnd received := by
  rcases List.eq_nil_or_concat received with rfl | ⟨init, last, rfl⟩
  · cases initial with
    | none => rfl
    | some b => exact unfinished b rfl
  · simp [storedAtEnd, lastAtEnd, appendBodyData_atEnd]

theorem lastAtEnd_eq_any {H : Type} {bodies : List (BodyData H)} (ends : OnlyLastEnds bodies) :
    lastAtEnd bodies = bodies.any fun body => body.atEnd := by
  rcases List.eq_nil_or_concat bodies with rfl | ⟨init, last, rfl⟩
  · rfl
  · rw [List.concat_eq_append] at ends ⊢
    have quiet : init.any (fun body => body.atEnd) = false := by
      rw [List.any_eq_false]
      intro body hbody atEnd
      obtain ⟨before, after, rfl⟩ := List.append_of_mem hbody
      simpa using ends before body (after ++ [last]) (by simp) atEnd
    simp [lastAtEnd, quiet]

theorem deriveStreamState_response (atEnd isFollowing : Bool) (message : String) :
    deriveStreamState atEnd isFollowing (some ⟨.response, message⟩) = .disconnected ↔
      atEnd = false := by
  cases atEnd <;> cases isFollowing <;> simp [deriveStreamState]

namespace ReportingSystem

/-- In every run, in particular one of a body that fails, no body is marked as
the end exactly as long as the reporter has not found the end of its channel with
somebody listening; a client that has seen a response error shows the stream as
disconnected under the same condition. A reporter that has stopped meets it
exactly when nobody listened to one of its events. -/
theorem failed_body_iff {direction : Direction} {prev : Nat} {acts : List ReportingAction}
    {s : ReportingSystem} (ran : run step (createBuffered direction prev) acts = some s)
    {initial : Option BodyState} (unfinished : ∀ b, initial = some b → b.atEnd = false)
    {received : List (BodyData Wire.ProxyHeaders)}
    (all : received.map BodyData.bare = s.bodies.map BodyData.bare) (message : String)
    (isFollowing : Bool) :
    ((∀ body ∈ s.bodies, body.atEnd = false) ↔
        ¬ Takes step FindsEnd (createBuffered direction prev) acts) ∧
      (deriveStreamState (storedAtEnd initial received) isFollowing (some ⟨.response, message⟩) =
          .disconnected ↔ ¬ Takes step FindsEnd (createBuffered direction prev) acts) ∧
      (s.status ≠ .running → (¬ Takes step FindsEnd (createBuffered direction prev) acts ↔
        Takes step Unheard (createBuffered direction prev) acts)) := by
  have terminated := (sound_run ran).terminated
  have only : OnlyLastEnds s.bodies := by
    by_cases done : s.status = .returned
    · obtain ⟨before, last, split, -, quiet⟩ := terminated.last done
      rw [split]
      exact onlyLastEnds_concat quiet last
    · exact onlyLastEnds_of_quiet (terminated.quiet done)
  have quiet : (∀ body ∈ s.bodies, body.atEnd = false) ↔ ¬ s.hasEnd = true := by
    simp [hasEnd]
  rw [← hasEnd_run ran, ← failed_run ran]
  refine ⟨quiet, ?_, fun stopped => ?_⟩
  · rw [deriveStreamState_response, storedAtEnd_eq unfinished, ← lastAtEnd_bare, all,
      lastAtEnd_bare, lastAtEnd_eq_any only]
    exact (Bool.not_eq_true _).to_iff.symm
  · cases status : s.status with
    | running => exact absurd status stopped
    | failed =>
      simp only [iff_true]
      exact quiet.mp (terminated.quiet (by simp [status]))
    | returned =>
      obtain ⟨before, last, split, atEnd, -⟩ := terminated.last status
      simp [hasEnd, split, atEnd]

/-- One byte, an error, and the collector is dropped. -/
def failingRun : List ReportingAction :=
  [.dispatch (some (.ok (.data [97]))), .completeSend, .receive true,
    .dispatch (some (.error (.report none))), .completeSend, .receive true, .drop, .receive true]

theorem failed_body_failingRun : ∃ s,
    run step (createBuffered .response 0) failingRun = some s ∧
      (¬ Takes step FindsEnd (createBuffered .response 0) failingRun ↔
        Takes step Unheard (createBuffered .response 0) failingRun) :=
  ⟨_, rfl, (@failed_body_iff .response 0 failingRun _ rfl none (by simp)
    [⟨some ⟨0, 1, .ofBytes [97]⟩, none, true, 1⟩] rfl "" true).2.2 (by decide)⟩

/-- The failed body is published as finished, and shown as complete. -/
theorem failed_body_complete : ∃ s message,
    run step (createBuffered .response 0) failingRun = some s ∧
      .error .response message ∈ s.published ∧ ¬ (∀ body ∈ s.bodies, body.atEnd = false) ∧
      deriveStreamState (storedAtEnd none [⟨some ⟨0, 1, .ofBytes [97]⟩, none, true, 1⟩]) true
        (some ⟨.response, message⟩) = .complete :=
  ⟨_, _, rfl, List.mem_cons_self, by decide, rfl⟩

end ReportingSystem

end Protospy
