import Protospy.FailedBody
import Protospy.Lib.Machine
import Protospy.Ui.SseChunks
import Protospy.Ui.Store

/-!
# The view of an event stream (`stream-view.tsx`, `useStreamFollow.ts`)

The view follows the events of the selected exchange. The user may freeze it, scroll away and
come back, while messages about this and other exchanges arrive.
-/

namespace Protospy

open Event (BodyData InitialBody)
open Wire (ProxyHeaders)

namespace Ui

/-- The view is mounted for one exchange: another one gets a view of its own. -/
structure StreamView where
  store : StoreState
  id : Nat
  frozen : Option (List SSEEvent)
  isFollowing : Bool

inductive StreamAction where
  | receive (msg : Wire.EventMessage)
  | cacheSize (exchangeId : Nat) (direction : Direction) (decodedBytes : Nat)
  | togglePlay
  | scroll (distFromBottom : Int)
  | jumpToLatest

namespace StreamView

def mount (store : StoreState) (id : Nat) : StreamView := ⟨store, id, none, true⟩

variable (s : StreamView)

def body? : Option BodyState := s.store.store.body s.id .response

def error? : Option ExchangeError := (s.store.store.exchanges s.id).bind Exchange.error

def events : List SSEEvent := ((s.body?.bind BodyState.sseState).map SSEStreamState.events).getD []

def derived : StreamState :=
  deriveStreamState ((s.body?.map BodyState.atEnd).getD true) s.isFollowing s.error?

def terminal : Bool := s.derived = .complete ∨ s.derived = .disconnected

/-- A stream that has ended cannot be paused. -/
def paused : Bool := s.frozen.isSome && !s.terminal

def shownEvents : List SSEEvent :=
  match s.frozen with
  | some frozen => if s.terminal then s.events else frozen
  | none => s.events

def liveState : StreamState := if s.paused then .paused else s.derived

def showJump : Bool := s.frozen.isNone && s.derived = .paused

/-- The buttons are there for a stream that has not ended, or that was scrolled away from. -/
def step : StreamAction → Option StreamView
  | .receive msg => some { s with store := s.store.step (.applyEvent msg) }
  | .cacheSize exchangeId direction decodedBytes =>
    some { s with store := s.store.step (.setBodyDecodedBytes exchangeId direction decodedBytes) }
  | .togglePlay =>
    if s.terminal then none
    else some { s with frozen := if s.frozen.isSome then none else some s.events }
  | .scroll distFromBottom => some { s with isFollowing := distFromBottom < 40 }
  | .jumpToLatest => if s.showJump then some { s with isFollowing := true } else none

end StreamView

/-! ## The events of a stream -/

/-- The state of a stream that was fed the chunks. -/
def fed (chunks : List BodyChunk) : SSEStreamState :=
  feedChunks maxSseEvents (chunks.map chunkToText)

/-- All events of the text that the chunks carry. -/
def eventsOf (chunks : List BodyChunk) : List SSEEvent :=
  (feedChunk createSSEStreamState (chunks.map chunkToText).flatten).events

/-- What the store keeps of the events. -/
def retained (events : List SSEEvent) : List SSEEvent := events.drop (events.length - maxSseEvents)

theorem events_fed (chunks : List BodyChunk) : (fed chunks).events = retained (eventsOf chunks) := by
  rw [fed, feedChunks_flatten, applyRetention_eq, retained, eventsOf]

theorem eventsOf_prefix (chunks more : List BodyChunk) :
    eventsOf chunks <+: eventsOf (chunks ++ more) := by
  rw [eventsOf, eventsOf, List.map_append, List.flatten_append, ← feedChunk_append, feedChunk_eq]
  exact List.prefix_append _ _

/-! ## The chunks of the response -/

/-- What an action brings of the response of the exchange. -/
def chunksFor (id : Nat) : StreamAction → List BodyChunk
  | .receive msg => match BodyReport.ofMessage? id .response msg with
    | some (.data body) => body.payload?.toList
    | _ => []
  | _ => []

/-- The response of the exchange begins again. -/
def Restarts (id : Nat) : StreamAction → Prop
  | .receive msg => ∃ headers initial,
      BodyReport.ofMessage? id .response msg = some (.head headers initial)
  | _ => False

theorem body_setBodyDecodedBytes_sseState (store : Store) (exchangeId : Nat) (direction : Direction)
    (n id : Nat) :
    ((store.setBodyDecodedBytes exchangeId direction n).body id .response).bind BodyState.sseState =
      (store.body id .response).bind BodyState.sseState := by
  rcases setBodyDecodedBytes_cases store exchangeId direction n with
    same | ⟨ex, body, seen, found, changed⟩
  · rw [same]
  · rw [changed, Store.body, Store.body, Store.put]
    dsimp only
    by_cases here : id = exchangeId
    · subst here
      rw [Function.update_self, seen, Option.bind_some, Option.bind_some]
      cases direction with
      | request => rfl
      | response =>
        rw [found]
        rfl
    · rw [Function.update_of_ne here]

/-! ## Streams in the store -/

def sseStateOf (body : Option BodyState) : Option SSEStreamState := body.bind BodyState.sseState

/-- What is stored of an event stream was fed to it in chunks. -/
def Streamed (body : Option BodyState) : Prop :=
  ∀ state, sseStateOf body = some state → ∃ chunks, state = fed chunks

theorem sseStateOf_appendBodyData {prev : Option BodyState} (body : BodyData ProxyHeaders)
    {chunks : List BodyChunk} (before : sseStateOf prev = some (fed chunks)) :
    sseStateOf (some (appendBodyData prev body)) = some (fed (chunks ++ body.payload?.toList)) := by
  obtain ⟨state, rfl, found⟩ := Option.bind_eq_some_iff.mp before
  have appended := feedPayload_feedChunks chunks body.payload?
  rw [sseStateOf, Option.bind_some, appendBodyData, Option.getD_some, found]
  exact congrArg some appended

theorem sseStateOf_initial {initial : InitialBody ProxyHeaders} {headers : ProxyHeaders}
    {state : SSEStreamState} (found : sseStateOf (initialBodyToState initial headers) = some state) :
    ∃ chunks, state = fed chunks := by
  cases initial with
  | noBody => cases found
  | notRead =>
    rw [initialBodyToState] at found
    obtain ⟨-, same⟩ := Option.ite_none_right_eq_some.mp found
    exact ⟨[], (Option.some.inj same).symm⟩
  | data body =>
    rw [initialBodyToState] at found
    split at found
    · have first := feedPayload_feedChunks [] body.payload?
      exact ⟨_, (Option.some.inj found).symm.trans first⟩
    · cases found

theorem Streamed.step {prev : Option BodyState} (streamed : Streamed prev) (report : BodyReport) :
    Streamed (report.step prev) := by
  intro state found
  cases report with
  | head headers initial => exact sseStateOf_initial found
  | data body =>
    cases before : sseStateOf prev with
    | some earlier =>
      obtain ⟨chunks, rfl⟩ := streamed earlier before
      rw [BodyReport.step, sseStateOf_appendBodyData body before] at found
      exact ⟨_, (Option.some.inj found).symm⟩
    | none =>
      have raw : (prev.getD .seed).sseState = none := by
        cases prev with
        | none => rfl
        | some b => exact before
      rw [BodyReport.step, sseStateOf, Option.bind_some, appendBodyData, raw] at found
      cases found

theorem streamed_run (actions : List StoreAction) (id : Nat) :
    Streamed ((StoreState.run actions).store.body id .response) := by
  induction actions using List.reverseRecOn with
  | nil => exact fun state found => by cases found
  | append_singleton actions action ih =>
    have wf := (StoreState.invariant_run actions).wellFormed
    have last : StoreState.run (actions ++ [action]) = (StoreState.run actions).step action :=
      List.foldl_append
    rw [last]
    cases action with
    | setSelectedId id => exact ih
    | setBodyDecodedBytes exchangeId direction n =>
      intro state found
      rw [sseStateOf, StoreState.step, body_setBodyDecodedBytes_sseState] at found
      exact ih state found
    | applyEvent msg =>
      have evicts := StoreState.evicts_apply _ wf msg
      have applied : Streamed ((apply (StoreState.run actions).store msg).body id .response) := by
        rw [apply_body]
        cases BodyReport.ofMessage? id .response msg with
        | none => exact ih
        | some report => exact ih.step report
      rw [evicts.1]
      by_cases kept : id ∈ ((StoreState.run actions).step (.applyEvent msg)).store.ids
      · intro state found
        refine applied state ?_
        rw [Store.body, Store.restrict] at found
        dsimp only at found
        rwa [if_pos kept] at found
      · intro state found
        rw [Store.body, Store.restrict] at found
        dsimp only at found
        rw [if_neg kept] at found
        cases found

/-! ## What the view shows in every run -/

def isToggle : StreamAction → Bool
  | .togglePlay => true
  | _ => false

/-- The chunks that the actions of a run bring. -/
def chunksOfRun (id : Nat) (before : List BodyChunk) (acts : List StreamAction) : List BodyChunk :=
  before ++ acts.flatMap (chunksFor id)

theorem chunksOfRun_concat (id : Nat) (before : List BodyChunk) (acts : List StreamAction)
    (a : StreamAction) :
    chunksOfRun id before (acts ++ [a]) = chunksOfRun id before acts ++ chunksFor id a := by
  rw [chunksOfRun, chunksOfRun, List.flatMap_append, List.flatMap_singleton, List.append_assoc]

/-- The list is that of the last time that the view was frozen. -/
def FrozenAt (id : Nat) (before : List BodyChunk) (acts : List StreamAction)
    (shown : List SSEEvent) : Prop :=
  ∃ done rest, acts = done ++ .togglePlay :: rest ∧ rest.any isToggle = false ∧
    shown = retained (eventsOf (chunksOfRun id before done))

theorem FrozenAt.later {id : Nat} {before : List BodyChunk} {acts : List StreamAction}
    {shown : List SSEEvent} (frozen : FrozenAt id before acts shown) {a : StreamAction}
    (other : isToggle a = false) : FrozenAt id before (acts ++ [a]) shown := by
  obtain ⟨done, rest, rfl, none, same⟩ := frozen
  refine ⟨done, rest ++ [a], by rw [List.append_assoc, List.cons_append], ?_, same⟩
  rw [List.any_append, none, List.any_cons, other]
  rfl

namespace StreamView

/-- What holds of a view after the actions of a run. -/
structure Follows (id : Nat) (before : List BodyChunk) (acts : List StreamAction)
    (s : StreamView) : Prop where
  mounted : s.id = id
  selected : s.store.selectedId = some id
  invariant : s.store.Invariant
  stream : sseStateOf s.body? = some (fed (chunksOfRun id before acts))
  frozen : ∀ shown, s.frozen = some shown → FrozenAt id before acts shown
  toggled : s.frozen.isSome = decide (acts.countP isToggle % 2 = 1)

variable {id : Nat} {before : List BodyChunk} {acts : List StreamAction} {s t : StreamView}

theorem Follows.events (follows : s.Follows id before acts) :
    s.events = retained (eventsOf (chunksOfRun id before acts)) := by
  have stream := follows.stream
  rw [sseStateOf] at stream
  rw [StreamView.events, stream, ← events_fed]
  rfl

/-- An action that leaves the button alone. -/
theorem Follows.of_quiet (follows : s.Follows id before acts) {a : StreamAction}
    (quiet : isToggle a = false) (mounted : t.id = s.id)
    (selected : t.store.selectedId = s.store.selectedId) (invariant : t.store.Invariant)
    (frozen : t.frozen = s.frozen)
    (stream : sseStateOf t.body? = some (fed (chunksOfRun id before acts ++ chunksFor id a))) :
    t.Follows id before (acts ++ [a]) where
  mounted := mounted.trans follows.mounted
  selected := selected.trans follows.selected
  invariant := invariant
  stream := by rw [chunksOfRun_concat, stream]
  frozen shown here := (follows.frozen shown (frozen ▸ here)).later quiet
  toggled := by
    rw [frozen, follows.toggled, List.countP_append, List.countP_singleton, quiet]
    rfl

theorem Follows.step (follows : s.Follows id before acts) {a : StreamAction}
    (same : ¬ Restarts id a) (taken : s.step a = some t) : t.Follows id before (acts ++ [a]) := by
  have still {body : Option BodyState} (stream : sseStateOf body = some (fed (chunksOfRun id before acts))) :
      sseStateOf body = some (fed (chunksOfRun id before acts ++ [])) := by
    rw [List.append_nil, stream]
  cases a with
  | receive msg =>
    obtain rfl := Option.some.inj taken
    refine follows.of_quiet rfl rfl rfl (follows.invariant.step (.applyEvent msg)) rfl ?_
    have evicts := s.store.evicts_apply follows.invariant.wellFormed msg
    have held := evicts_selected evicts (follows.invariant.wellFormed.apply msg) follows.selected
    have body : (s.store.step (.applyEvent msg)).store.body id .response =
        (apply s.store.store msg).body id .response := by rw [Store.body, Store.body, held]
    have stream := follows.stream
    rw [body?, follows.mounted] at stream ⊢
    rw [body, apply_body]
    cases report : BodyReport.ofMessage? id .response msg with
    | none =>
      rw [chunksFor, report]
      exact still stream
    | some report' =>
      cases report' with
      | head headers initial => exact absurd ⟨headers, initial, report⟩ same
      | data body =>
        rw [chunksFor, report]
        exact sseStateOf_appendBodyData body stream
  | cacheSize exchangeId direction n =>
    obtain rfl := Option.some.inj taken
    refine follows.of_quiet rfl rfl rfl
      (follows.invariant.step (.setBodyDecodedBytes exchangeId direction n)) rfl ?_
    have stream := follows.stream
    rw [body?, sseStateOf] at stream ⊢
    refine still (Eq.trans ?_ stream)
    exact body_setBodyDecodedBytes_sseState s.store.store exchangeId direction n s.id
  | togglePlay =>
    obtain ⟨-, same⟩ := Option.ite_none_left_eq_some.mp taken
    obtain rfl := Option.some.inj same
    refine ⟨follows.mounted, follows.selected, follows.invariant, ?_, fun shown here => ?_, ?_⟩
    · rw [chunksOfRun_concat]
      exact still follows.stream
    · refine ⟨acts, [], rfl, rfl, ?_⟩
      dsimp only at here
      split at here
      · cases here
      · rw [← Option.some.inj here, follows.events]
    · have one : [StreamAction.togglePlay].countP isToggle = 1 := rfl
      have flips : decide ((acts.countP isToggle + 1) % 2 = 1) =
          !decide (acts.countP isToggle % 2 = 1) := by
        rw [← decide_not, decide_eq_decide]
        omega
      rw [List.countP_append, one, flips, ← follows.toggled]
      cases s.frozen <;> rfl
  | scroll distance =>
    obtain rfl := Option.some.inj taken
    exact follows.of_quiet rfl rfl rfl follows.invariant rfl (still follows.stream)
  | jumpToLatest =>
    obtain ⟨-, same⟩ := Option.ite_none_right_eq_some.mp taken
    obtain rfl := Option.some.inj same
    exact follows.of_quiet rfl rfl rfl follows.invariant rfl (still follows.stream)

theorem Follows.mount {actions : List StoreAction}
    (selected : (StoreState.run actions).selectedId = some id)
    (stream : sseStateOf ((StoreState.run actions).store.body id .response) = some (fed before)) :
    (mount (StoreState.run actions) id).Follows id before [] where
  mounted := rfl
  selected := selected
  invariant := StoreState.invariant_run actions
  stream := by rw [chunksOfRun, List.flatMap_nil, List.append_nil]; exact stream
  frozen shown here := by cases here
  toggled := rfl

/-- What the view shows of a stream: all that is kept of it while it plays and when it has
ended, and what was kept of it when it was last frozen otherwise. -/
structure ShowsStream (id : Nat) (before : List BodyChunk) (acts : List StreamAction)
    (s : StreamView) : Prop where
  numbered : (eventsOf (chunksOfRun id before acts)).map SSEEvent.index =
    List.range' 0 (eventsOf (chunksOfRun id before acts)).length
  playing : s.paused = false →
    s.shownEvents = retained (eventsOf (chunksOfRun id before acts))
  paused : s.paused = true → acts.countP isToggle % 2 = 1 ∧
    ∃ done rest, acts = done ++ .togglePlay :: rest ∧ rest.any isToggle = false ∧
      s.shownEvents = retained (eventsOf (chunksOfRun id before done)) ∧
      eventsOf (chunksOfRun id before done) <+: eventsOf (chunksOfRun id before acts)
  ended : s.terminal = true → s.shownEvents = retained (eventsOf (chunksOfRun id before acts))
  jumps : s.showJump = true → s.liveState = .paused ∧
    s.shownEvents = retained (eventsOf (chunksOfRun id before acts))

theorem shownEvents_playing (plays : s.paused = false) : s.shownEvents = s.events := by
  rw [shownEvents]
  cases frozen : s.frozen with
  | none => rfl
  | some shown =>
    rw [paused, frozen, Option.isSome_some, Bool.true_and, Bool.not_eq_false'] at plays
    exact if_pos plays

theorem Follows.shows (follows : s.Follows id before acts) : s.ShowsStream id before acts where
  numbered := (feedChunk_create _).2
  playing plays := (shownEvents_playing plays).trans follows.events
  paused frozen := by
    obtain ⟨some, live⟩ := Bool.and_eq_true_iff.mp frozen
    obtain ⟨shown, here⟩ := Option.isSome_iff_exists.mp some
    obtain ⟨done, rest, split, none, same⟩ := follows.frozen shown here
    refine ⟨of_decide_eq_true (follows.toggled.symm.trans some), done, rest, split, none, ?_, ?_⟩
    · rw [shownEvents, here, ← same]
      exact if_neg (by simpa using live)
    · rw [split, chunksOfRun, chunksOfRun, List.flatMap_append, ← List.append_assoc]
      exact eventsOf_prefix _ _
  ended stopped := by
    have plays : s.paused = false := by rw [StreamView.paused, stopped, Bool.not_true, Bool.and_false]
    exact (shownEvents_playing plays).trans follows.events
  jumps shown := by
    obtain ⟨thawed, away⟩ := Bool.and_eq_true_iff.mp shown
    have plays : s.paused = false := by
      rw [StreamView.paused, Option.isNone_iff_eq_none.mp thawed]
      rfl
    refine ⟨?_, (shownEvents_playing plays).trans follows.events⟩
    rw [liveState, plays, if_neg Bool.false_ne_true]
    exact of_decide_eq_true away

/-- Whatever arrives and whatever the user does: the view shows the events of one stream, and a
frozen view shows what there was when it was frozen. -/
theorem stream_shown {actions : List StoreAction} {id : Nat}
    (selected : (StoreState.run actions).selectedId = some id)
    (streams : (sseStateOf ((StoreState.run actions).store.body id .response)).isSome = true) :
    ∃ before, sseStateOf ((StoreState.run actions).store.body id .response) = some (fed before) ∧
      ∀ acts s, (∀ a ∈ acts, ¬ Restarts id a) →
        Machine.run step (mount (StoreState.run actions) id) acts = some s →
        s.ShowsStream id before acts := by
  obtain ⟨state, held⟩ := Option.isSome_iff_exists.mp streams
  obtain ⟨before, rfl⟩ := streamed_run actions id state held
  refine ⟨before, held, fun acts s same reached => Follows.shows ?_⟩
  refine Machine.run_history (P := fun acts (s : StreamView) =>
    (∀ a ∈ acts, ¬ Restarts id a) → s.Follows id before acts)
    (fun _ => .mount selected held) (fun acts m a t _ before taken same => ?_) reached same
  exact (before fun b member => same b (List.mem_append_left _ member)).step
    (same a (List.mem_append_right _ List.mem_cons_self)) taken

section Example

private def firstEvent : Bytes := utf8Encode "data: a\n\n".toList

private def openedStream : List StoreAction :=
  [.setSelectedId (some 7), .applyEvent (streamHead firstEvent false)]

private def frozenActs : List StreamAction :=
  [.togglePlay, .receive (streamRest firstEvent firstEvent), .cacheSize 7 .request 0]

private def streamExchange : Exchange :=
  (Exchange.fresh 7 "").update .response (streamHead firstEvent false).event

theorem openedStream_exchange :
    (StoreState.run openedStream).store.exchanges 7 = some streamExchange := by
  have wf : (StoreState.run [.setSelectedId (some 7)]).store.WellFormed :=
    (StoreState.invariant_run _).wellFormed
  have evicts := StoreState.evicts_apply (StoreState.run [.setSelectedId (some 7)]) wf
    (streamHead firstEvent false)
  exact evicts_selected evicts (wf.apply _) rfl

theorem openedStream_live : (mount (StoreState.run openedStream) 7).terminal = false := by
  have held := openedStream_exchange
  simp only [terminal, derived, body?, error?, mount, Store.body, held, Option.bind_some]
  decide +kernel

/-- The end of the stream comes while it is frozen. -/
theorem stream_shown_frozen : ∃ before s,
    Machine.run step (mount (StoreState.run openedStream) 7) frozenActs = some s ∧
      s.frozen.isSome = true ∧ s.ShowsStream 7 before frozenActs := by
  have streams : (sseStateOf ((StoreState.run openedStream).store.body 7 .response)).isSome = true := by
    rw [Store.body, openedStream_exchange]
    decide +kernel
  obtain ⟨before, -, shows⟩ := @stream_shown openedStream 7 rfl streams
  have same : ∀ a ∈ frozenActs, ¬ Restarts 7 a := by
    simp [frozenActs, Restarts, BodyReport.ofMessage?, streamRest]
  have start : (mount (StoreState.run openedStream) 7).step .togglePlay =
      some { mount (StoreState.run openedStream) 7 with
        frozen := some (mount (StoreState.run openedStream) 7).events } := by
    rw [step, openedStream_live]
    rfl
  obtain ⟨s, ran, frozen⟩ : ∃ s, Machine.run step (mount (StoreState.run openedStream) 7) frozenActs =
      some s ∧ s.frozen.isSome = true := by
    rw [frozenActs, Machine.run_cons, start]
    exact ⟨_, rfl, rfl⟩
  exact ⟨before, s, ran, frozen, shows frozenActs s same ran⟩

end Example

end StreamView

end Ui

end Protospy
