import Protospy.Proxy.Body

/-!
# The reporting body wrapper (`BodyStreamWrapper` in `body.rs`)

Each answer of the source is dispatched to the reporter before it is passed on.
The wrapper holds the answer while the dispatch is in flight. What the reporter
does is a parameter: how long each dispatch stays pending, how it resolves and
which further references to the item it keeps on the way.
-/

namespace Protospy

open PollStream

/-- One call of `dispatch`. After the `n`-th poll of its future there are
`retained n` references to the item besides the wrapper's own. -/
structure Dispatch where
  delay : Nat
  outcome : Except Report Unit
  retained : Nat → Nat
  released : retained (delay + 1) = 0

/-- What the `n`-th call of `dispatch` on the shared reporter does with an item. -/
abbrev FrameReporter := Nat → Option BodyStreamItem → Dispatch

structure DispatchFuture where
  call : Dispatch
  polls : Nat

inductive WrapperPanic where
  | needFuture
  | needItem
  | leakedItemReference
  | resumedAfterCompletion
  deriving DecidableEq, Repr

def DispatchFuture.poll (f : DispatchFuture) :
    Except WrapperPanic (Poll (Except Report Unit) × DispatchFuture) :=
  if f.polls < f.call.delay then .ok (.pending, ⟨f.call, f.polls + 1⟩)
  else if f.polls = f.call.delay then .ok (.ready f.call.outcome, ⟨f.call, f.polls + 1⟩)
  else .error .resumedAfterCompletion

structure WrapperPollState where
  pollResult : Option BodyStreamItem
  dispatchFuture : Option DispatchFuture

/-- Strong count of the `Arc` around the poll result. -/
def WrapperPollState.strongCount (st : WrapperPollState) : Nat :=
  1 + match st.dispatchFuture with
    | some f => f.call.retained f.polls
    | none => 0

/-- `dispatched` records the calls of `dispatch`; the code does not read it. -/
structure BodyStreamWrapper (σ : Type) where
  direction : Direction
  source : σ
  state : Option WrapperPollState
  reporter : Option FrameReporter
  dispatched : List (Option BodyStreamItem)

namespace BodyStreamWrapper

variable {σ : Type} [AsyncStream σ BodyStreamItem]

def new (direction : Direction) (source : σ) (reporter : FrameReporter) :
    BodyStreamWrapper σ :=
  ⟨direction, source, none, some reporter, []⟩

/-- The state after an item was read and its dispatch, if any, was started. -/
def hold (w : BodyStreamWrapper σ) (item : Option BodyStreamItem) (source : σ) :
    BodyStreamWrapper σ where
  direction := w.direction
  source := source
  state := some ⟨item, w.reporter.map fun reporter => ⟨reporter w.dispatched.length item, 0⟩⟩
  reporter := w.reporter
  dispatched := if w.reporter.isSome then w.dispatched ++ [item] else w.dispatched

/-- Poll the source if no item is held. -/
def readSource (w : BodyStreamWrapper σ) : Poll Unit × BodyStreamWrapper σ :=
  match w.state with
  | some _ => (.ready (), w)
  | none => match pollNext w.source with
    | (.pending, source) => (.pending, { w with source := source })
    | (.ready item, source) => (.ready (), w.hold item source)

/-- Poll the dispatch in flight; a failed one removes the reporter. -/
def pollDispatch (w : BodyStreamWrapper σ) :
    Except WrapperPanic (Poll Unit × BodyStreamWrapper σ) :=
  match w.state with
  | none => .error .needFuture
  | some ⟨_, none⟩ => .ok (.ready (), w)
  | some ⟨item, some future⟩ => match future.poll with
    | .error panic => .error panic
    | .ok (.pending, future) => .ok (.pending, { w with state := some ⟨item, some future⟩ })
    | .ok (.ready (.ok _), future) =>
      .ok (.ready (), { w with state := some ⟨item, some future⟩ })
    | .ok (.ready (.error _), future) =>
      .ok (.ready (), { w with state := some ⟨item, some future⟩, reporter := none })

/-- Clear the state and return the item, which nothing else may refer to. -/
def takeItem (w : BodyStreamWrapper σ) :
    Except WrapperPanic (Poll (Option BodyStreamItem) × BodyStreamWrapper σ) :=
  match w.state with
  | none => .error .needItem
  | some st =>
    if st.strongCount = 1 then .ok (.ready st.pollResult, { w with state := none })
    else .error .leakedItemReference

/-- `poll_next`, with the panics of its `expect`s. -/
def tryPollNext (w : BodyStreamWrapper σ) :
    Except WrapperPanic (Poll (Option BodyStreamItem) × BodyStreamWrapper σ) :=
  match w.readSource with
  | (.pending, w) => .ok (.pending, w)
  | (.ready _, w) => match w.pollDispatch with
    | .error panic => .error panic
    | .ok (.pending, w) => .ok (.pending, w)
    | .ok (.ready _, w) => w.takeItem

/-- A wrapper that panicked would never answer. -/
instance : AsyncStream (BodyStreamWrapper σ) BodyStreamItem where
  pollNext w := match w.tryPollNext with
    | .ok answer => answer
    | .error _ => (.pending, w)

theorem pollNext_of_try {w v : BodyStreamWrapper σ} {answer : Poll (Option BodyStreamItem)}
    (h : w.tryPollNext = .ok (answer, v)) : pollNext w = (answer, v) := by
  simp [pollNext, AsyncStream.pollNext, h]

/-! ## One poll -/

/-- An item is held and its dispatch is in flight after `polls` polls. -/
def InFlight (w : BodyStreamWrapper σ) (item : Option BodyStreamItem) (call : Dispatch)
    (polls : Nat) : Prop :=
  w.state = some ⟨item, some ⟨call, polls⟩⟩

/-- The wrapper after a dispatch has resolved and the item was returned. -/
def resolve (w : BodyStreamWrapper σ) (outcome : Except Report Unit) : BodyStreamWrapper σ where
  direction := w.direction
  source := w.source
  state := none
  reporter := match outcome with
    | .ok _ => w.reporter
    | .error _ => none
  dispatched := w.dispatched

theorem try_source_pending {w : BodyStreamWrapper σ} {s : σ} (idle : w.state = none)
    (h : pollNext w.source = (.pending, s)) :
    w.tryPollNext = .ok (.pending, { w with source := s }) := by
  simp [tryPollNext, readSource, idle, h]

/-- Reading an item leads to the poll that follows the start of its dispatch. -/
theorem try_source_ready {w : BodyStreamWrapper σ} {s : σ} {item : Option BodyStreamItem}
    (idle : w.state = none) (h : pollNext w.source = (.ready item, s)) :
    w.tryPollNext = (w.hold item s).tryPollNext := by
  simp [tryPollNext, readSource, idle, h, hold]

theorem try_unreported {w : BodyStreamWrapper σ} {item : Option BodyStreamItem}
    (h : w.state = some ⟨item, none⟩) :
    w.tryPollNext = .ok (.ready item, { w with state := none }) := by
  simp [tryPollNext, readSource, pollDispatch, takeItem, h, WrapperPollState.strongCount]

theorem try_waiting {w : BodyStreamWrapper σ} {item : Option BodyStreamItem} {call : Dispatch}
    {polls : Nat} (h : w.InFlight item call polls) (waiting : polls < call.delay) :
    ∃ v, w.tryPollNext = .ok (.pending, v) ∧ v.InFlight item call (polls + 1) ∧
      v = { w with state := v.state } := by
  unfold InFlight at h
  refine ⟨{ w with state := some ⟨item, some ⟨call, polls + 1⟩⟩ }, ?_, rfl, rfl⟩
  simp [tryPollNext, readSource, pollDispatch, h, DispatchFuture.poll, waiting]

theorem try_resolving {w : BodyStreamWrapper σ} {item : Option BodyStreamItem}
    {call : Dispatch} (h : w.InFlight item call call.delay) :
    w.tryPollNext = .ok (.ready item, w.resolve call.outcome) := by
  rw [InFlight] at h
  rcases ho : call.outcome with err | done <;>
    simp [tryPollNext, readSource, pollDispatch, takeItem, h, DispatchFuture.poll, ho,
      WrapperPollState.strongCount, call.released, resolve]

theorem inFlight_try_ok {w : BodyStreamWrapper σ} {item : Option BodyStreamItem}
    {call : Dispatch} {polls : Nat} (h : w.InFlight item call polls)
    (bound : polls ≤ call.delay) : ∃ answer, w.tryPollNext = .ok answer := by
  rcases Nat.lt_or_eq_of_le bound with waiting | rfl
  · obtain ⟨v, hv, -⟩ := try_waiting h waiting
    exact ⟨_, hv⟩
  · exact ⟨_, try_resolving h⟩

omit [AsyncStream σ BodyStreamItem] in
theorem hold_inFlight {w : BodyStreamWrapper σ} {reporter : FrameReporter}
    (hr : w.reporter = some reporter) (item : Option BodyStreamItem) (s : σ) :
    (w.hold item s).InFlight item (reporter w.dispatched.length item) 0 := by
  simp [InFlight, hold, hr]

omit [AsyncStream σ BodyStreamItem] in
theorem hold_unreported {w : BodyStreamWrapper σ} (hr : w.reporter = none)
    (item : Option BodyStreamItem) (s : σ) : (w.hold item s).state = some ⟨item, none⟩ := by
  simp [hold, hr]

theorem hold_try_ok (w : BodyStreamWrapper σ) (item : Option BodyStreamItem) (s : σ) :
    ∃ answer, (w.hold item s).tryPollNext = .ok answer := by
  cases hr : w.reporter with
  | none => exact ⟨_, try_unreported (hold_unreported hr item s)⟩
  | some reporter => exact inFlight_try_ok (hold_inFlight hr item s) (Nat.zero_le _)

/-! ## Transparency -/

/-- A dispatch in flight delays its item by the polls it still needs. -/
theorem inFlight_stalls {w : BodyStreamWrapper σ} {item : Option BodyStreamItem}
    {call : Dispatch} {polls : Nat} (h : w.InFlight item call polls)
    (bound : polls ≤ call.delay) :
    ∃ m v, Stalls (call.delay - polls) w m ∧ pollNext m = (.ready item, v) ∧
      v.state = none ∧ v.source = w.source := by
  obtain ⟨left, hleft⟩ : ∃ left, call.delay - polls = left := ⟨_, rfl⟩
  rw [hleft]
  induction left generalizing w polls with
  | zero =>
    obtain rfl : polls = call.delay := by omega
    exact ⟨w, w.resolve call.outcome, .zero w, pollNext_of_try (try_resolving h), rfl, rfl⟩
  | succ left ih =>
    obtain ⟨u, hu, hflight, heq⟩ := try_waiting h (by omega)
    obtain ⟨m, v, stall, hm, hstate, hsource⟩ := ih hflight (by omega) (by omega)
    exact ⟨m, v, .succ (pollNext_of_try hu) stall, hm, hstate,
      hsource.trans (by rw [heq])⟩

/-- Once an item is read, the wrapper returns it after finitely many polls. -/
theorem hold_stalls (w : BodyStreamWrapper σ) (item : Option BodyStreamItem) (s : σ) :
    ∃ k m v, Stalls k (w.hold item s) m ∧ pollNext m = (.ready item, v) ∧
      v.state = none ∧ v.source = s := by
  cases hr : w.reporter with
  | none =>
    exact ⟨0, _, _, .zero _, pollNext_of_try (try_unreported (hold_unreported hr item s)),
      rfl, rfl⟩
  | some reporter =>
    obtain ⟨m, v, stall, hm, hstate, hsource⟩ :=
      inFlight_stalls (hold_inFlight hr item s) (Nat.zero_le _)
    exact ⟨_, m, v, stall, hm, hstate, hsource⟩

/-- The wrapper yields the items of its source, each once and in order. -/
theorem trace_idle {w : BodyStreamWrapper σ} (idle : w.state = none) :
    trace w = trace w.source := by
  symm
  refine trace_eq_of_simulation
    (fun s (w : BodyStreamWrapper σ) => w.state = none ∧ w.source = s) ?_ ⟨idle, rfl⟩
  rintro s w ⟨idle, rfl⟩
  have answered : ∀ item t, pollNext w.source = (.ready item, t) →
      ∃ k m v, Stalls k w m ∧ pollNext m = (.ready item, v) ∧
        (v.state = none ∧ v.source = t) := by
    intro item t h
    obtain ⟨k, m, v, stall, hm, hv⟩ := hold_stalls w item t
    have same : pollNext w = pollNext (w.hold item t) := by
      obtain ⟨⟨answer, u⟩, hu⟩ := hold_try_ok w item t
      rw [pollNext_of_try hu, pollNext_of_try ((try_source_ready idle h).trans hu)]
    obtain ⟨m', stall', hm'⟩ := stall.transfer same
    exact ⟨k, m', v, stall', hm'.trans hm, hv⟩
  rcases h : pollNext w.source with ⟨_ | _ | a, t⟩
  · exact ⟨0, _, .succ (pollNext_of_try (try_source_pending idle h)) (.zero _), idle, rfl⟩
  · obtain ⟨k, m, v, stall, hm, -⟩ := answered none t h
    exact ⟨k, m, v, stall, hm⟩
  · exact answered (some a) t h

/-! ## What is dispatched -/

/-- Holds between two polls of a wrapper around `source`. -/
structure Valid (reporter : FrameReporter) (source : σ) (w : BodyStreamWrapper σ) : Prop where
  /-- The source was polled some number of times; what was dispatched is the
  beginning of its answers, and all of them as long as there is a reporter. -/
  reads : ∃ n, w.source = polled n source ∧ w.dispatched <+: answers n source ∧
    (w.reporter.isSome → w.dispatched = answers n source)
  reported : ∀ r, w.reporter = some r → r = reporter
  /-- A held item is the last one dispatched, and its dispatch is not resolved. -/
  held : ∀ st, w.state = some st → w.reporter.isSome ∧ ∃ before call polls,
    w.dispatched = before ++ [st.pollResult] ∧ call = reporter before.length st.pollResult ∧
      st.dispatchFuture = some ⟨call, polls⟩ ∧ polls ≤ call.delay
  /-- Only the last dispatch can have failed, and then the reporter is gone. -/
  failed : ∀ k item err, w.dispatched[k]? = some item → (reporter k item).outcome = .error err →
    w.dispatched.length = k + 1 ∧ (w.state = none → w.reporter = none)
  /-- Nothing but a failed dispatch takes the reporter away. -/
  gone : w.reporter = none → ∃ k item err, w.dispatched[k]? = some item ∧
    (reporter k item).outcome = .error err

theorem new_valid (direction : Direction) (source : σ) (reporter : FrameReporter) :
    Valid reporter source (new direction source reporter) where
  reads := ⟨0, rfl, List.prefix_refl _, fun _ => rfl⟩
  reported := by
    rintro r ⟨⟩
    rfl
  held := by
    rintro st ⟨⟩
  failed := by
    intro k item err h
    simp [new] at h
  gone none := by simp [new] at none

section Step

variable {reporter : FrameReporter} {source : σ} {w : BodyStreamWrapper σ}

theorem valid_source_pending (hw : Valid reporter source w) {s : σ} (idle : w.state = none)
    (h : pollNext w.source = (.pending, s)) :
    Valid reporter source { w with source := s } where
  reads := by
    obtain ⟨n, hsource, hread, hall⟩ := hw.reads
    obtain ⟨hpolled, hanswers⟩ := answers_pending (hsource ▸ h)
    refine ⟨n + 1, hpolled.symm, ?_⟩
    rw [hanswers]
    exact ⟨hread, hall⟩
  reported := hw.reported
  held := by
    intro st hst
    exact absurd (idle.symm.trans hst) (by simp)
  failed := hw.failed
  gone := hw.gone

/-- Without a reporter the item is returned at once and not recorded. -/
theorem valid_unreported (hw : Valid reporter source w) {s : σ} {item : Option BodyStreamItem}
    (h : pollNext w.source = (.ready item, s)) (gone : w.reporter = none) :
    Valid reporter source { w.hold item s with state := none } where
  reads := by
    obtain ⟨n, hsource, hread, -⟩ := hw.reads
    obtain ⟨hpolled, hanswers⟩ := answers_ready (hsource ▸ h)
    refine ⟨n + 1, hpolled.symm, ?_, by simp [hold, gone]⟩
    rw [hanswers]
    simpa [hold, gone] using hread.trans (List.prefix_append _ _)
  reported := hw.reported
  held := by
    rintro st ⟨⟩
  failed := by
    intro k item' err hk herr
    exact ⟨by simpa [hold, gone] using (hw.failed k item' err (by simpa [hold, gone] using hk)
      herr).1, fun _ => gone⟩
  gone _ := by simpa [hold, gone] using hw.gone gone

/-- With a reporter the item joins the record and its dispatch is in flight. -/
theorem valid_hold (hw : Valid reporter source w) {s : σ} {item : Option BodyStreamItem}
    (idle : w.state = none) (h : pollNext w.source = (.ready item, s))
    {r : FrameReporter} (hr : w.reporter = some r) : Valid reporter source (w.hold item s) where
  reads := by
    obtain ⟨n, hsource, -, hall⟩ := hw.reads
    obtain ⟨hpolled, hanswers⟩ := answers_ready (hsource ▸ h)
    refine ⟨n + 1, hpolled.symm, ?_⟩
    rw [hanswers]
    simp [hold, hr, hall (by simp [hr])]
  reported := hw.reported
  held := by
    rintro st ⟨⟩
    obtain rfl := hw.reported r hr
    exact ⟨by simp [hold, hr], w.dispatched, _, 0, by simp [hold, hr], rfl, by simp [hr],
      Nat.zero_le _⟩
  failed := by
    intro k item' err hk herr
    have noneFailed : w.dispatched[k]? ≠ some item' := fun hold => by
      have := (hw.failed k item' err hold herr).2 idle
      simp [hr] at this
    rcases Nat.lt_trichotomy k w.dispatched.length with lt | rfl | gt
    · exact absurd (by simpa [hold, hr, List.getElem?_append_left lt] using hk) noneFailed
    · exact ⟨by simp [hold, hr], fun hstate => by simp [hold] at hstate⟩
    · have : (w.dispatched ++ [item]).length ≤ k := by simp; omega
      simp [hold, hr, List.getElem?_eq_none this] at hk
  gone none := by simp [hold, hr] at none

theorem valid_waiting (hw : Valid reporter source w) {item : Option BodyStreamItem}
    {call : Dispatch} {polls : Nat} (h : w.InFlight item call polls)
    (waiting : polls < call.delay) {v : BodyStreamWrapper σ}
    (hflight : v.InFlight item call (polls + 1)) (hv : v = { w with state := v.state }) :
    Valid reporter source v := by
  obtain ⟨hsome, before, call', polls', hbefore, hcall, hfuture, -⟩ := hw.held _ h
  obtain ⟨rfl, rfl⟩ : call = call' ∧ polls = polls' := by simpa using hfuture
  rw [hv]
  refine ⟨hw.reads, hw.reported, ?_, ?_, hw.gone⟩
  · intro st hst
    obtain rfl := Option.some.inj (hflight.symm.trans hst)
    exact ⟨hsome, before, call, polls + 1, hbefore, hcall, rfl, waiting⟩
  · intro k item' err hk herr
    refine ⟨(hw.failed k item' err hk herr).1, fun hstate => ?_⟩
    exact absurd (hflight.symm.trans hstate) (by simp)

theorem valid_resolve (hw : Valid reporter source w) {item : Option BodyStreamItem}
    {call : Dispatch} (h : w.InFlight item call call.delay) :
    Valid reporter source (w.resolve call.outcome) := by
  obtain ⟨hsome, before, call', polls', hbefore, hcall, hfuture, -⟩ := hw.held _ h
  obtain ⟨rfl, -⟩ : call = call' ∧ call.delay = polls' := by simpa using hfuture
  obtain ⟨n, hsource, hread, hall⟩ := hw.reads
  rcases ho : call.outcome with err | done
  · refine ⟨⟨n, hsource, hread, fun hr => by simp [resolve] at hr⟩,
      fun r hr => by simp [resolve] at hr, fun st hst => by simp [resolve] at hst, ?_, fun _ => ?_⟩
    · intro k item' err' hk herr
      exact ⟨(hw.failed k item' err' hk herr).1, fun _ => rfl⟩
    · refine ⟨before.length, item, err, ?_, hcall ▸ ho⟩
      change w.dispatched[before.length]? = some item
      rw [hbefore, List.getElem?_concat_length]
  · refine ⟨⟨n, hsource, hread, hall⟩, hw.reported, fun st hst => by simp [resolve] at hst, ?_,
      hw.gone⟩
    intro k item' err' hk herr
    have hlength := (hw.failed k item' err' hk herr).1
    have hlast : k = before.length := by
      simp only [hbefore, List.length_append, List.length_singleton] at hlength
      omega
    subst hlast
    obtain rfl : item = item' := by
      change w.dispatched[before.length]? = some item' at hk
      simpa [hbefore] using hk
    rw [← hcall, ho] at herr
    cases herr

end Step

theorem pollNext_valid {reporter : FrameReporter} {source : σ} {w : BodyStreamWrapper σ}
    (hw : Valid reporter source w) :
    (∃ answer, w.tryPollNext = .ok answer) ∧ Valid reporter source (pollNext w).2 := by
  cases hstate : w.state with
  | some st =>
    obtain ⟨-, before, call, polls, -, -, hfuture, bound⟩ := hw.held st hstate
    have flight : w.InFlight st.pollResult call polls := by
      rw [InFlight, hstate, ← hfuture]
    refine ⟨inFlight_try_ok flight bound, ?_⟩
    rcases Nat.lt_or_eq_of_le bound with waiting | rfl
    · obtain ⟨v, hv, hflight, heq⟩ := try_waiting flight waiting
      rw [pollNext_of_try hv]
      exact valid_waiting hw flight waiting hflight heq
    · rw [pollNext_of_try (try_resolving flight)]
      exact valid_resolve hw flight
  | none =>
    rcases h : pollNext w.source with ⟨_ | item, s⟩
    · have hv := try_source_pending hstate h
      refine ⟨⟨_, hv⟩, ?_⟩
      rw [pollNext_of_try hv]
      exact valid_source_pending hw hstate h
    · have hv := try_source_ready hstate h
      cases hr : w.reporter with
      | none =>
        have hv' := hv.trans (try_unreported (hold_unreported hr item s))
        refine ⟨⟨_, hv'⟩, ?_⟩
        rw [pollNext_of_try hv']
        exact valid_unreported hw h hr
      | some r =>
        have held := valid_hold hw hstate h hr
        have flight := hold_inFlight hr item s
        rcases Nat.eq_zero_or_pos (r w.dispatched.length item).delay with now | later
        · have hnow : (w.hold item s).InFlight item (r w.dispatched.length item)
              (r w.dispatched.length item).delay := by rwa [now]
          have hv' := hv.trans (try_resolving hnow)
          refine ⟨⟨_, hv'⟩, ?_⟩
          rw [pollNext_of_try hv']
          exact valid_resolve held hnow
        · obtain ⟨v, hv', hflight, heq⟩ := try_waiting flight later
          refine ⟨⟨_, hv.trans hv'⟩, ?_⟩
          rw [pollNext_of_try (hv.trans hv')]
          exact valid_waiting held flight later hflight heq

theorem polled_valid (direction : Direction) (source : σ) (reporter : FrameReporter) (n : Nat) :
    Valid reporter source (polled n (new direction source reporter)) := by
  induction n with
  | zero => exact new_valid direction source reporter
  | succ n ih => exact (pollNext_valid ih).2

/-- The wrapper passes its source on unchanged and never panics; it dispatches
the answers in order, each at most once and all of them as long as it has its
reporter, which only a failed dispatch takes away, and none after that. -/
theorem wrapper_transparent (direction : Direction) (source : σ) (reporter : FrameReporter) :
    trace (new direction source reporter) = trace source ∧
    ∀ n, let w := polled n (new direction source reporter)
      (∃ answer, w.tryPollNext = .ok answer) ∧
      (∃ m, w.source = polled m source ∧ w.dispatched <+: answers m source ∧
        (w.reporter.isSome → w.dispatched = answers m source)) ∧
      (w.reporter = none → ∃ k item err, w.dispatched[k]? = some item ∧
        (reporter k item).outcome = .error err) ∧
      (∀ k item err, w.dispatched[k]? = some item →
        (reporter k item).outcome = .error err → w.dispatched.length = k + 1) := by
  refine ⟨trace_idle rfl, fun n => ?_⟩
  have valid := polled_valid direction source reporter n
  exact ⟨(pollNext_valid valid).1, valid.reads, valid.gone,
    fun k item err hk herr => (valid.failed k item err hk herr).1⟩

end BodyStreamWrapper

end Protospy
