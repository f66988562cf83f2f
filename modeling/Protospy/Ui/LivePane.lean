import Protospy.Ui.BodyDecoding

/-!
# The pane beside the store (`state/store.ts`, `hooks/useDecodeBody.ts`)

The pane of one body of the selected exchange while messages about any exchange come in. A
message about the body makes another object of it, and so does a size that the pane writes.
-/

namespace Protospy

/-- The body without the size that a pane wrote to it. -/
def BodyState.unsized (b : BodyState) : BodyState := { b with decodedBytes := none }

namespace BodyReport

theorem step_unsized (prev : Option BodyState) (report : BodyReport) :
    (report.step prev).map BodyState.unsized = report.step (prev.map BodyState.unsized) := by
  cases report with
  | head headers initial =>
    cases initial with
    | noBody | notRead => rfl
    | data body =>
      rw [step, step, initialBodyToState]
      split <;> rfl
  | data body =>
    cases prev with
    | none => rfl
    | some b =>
      rw [step, step, Option.map_some, Option.map_some, appendBodyData, appendBodyData]
      cases sse : b.sseState <;> simp [BodyState.unsized, sse]

theorem foldl_step_unsized (reports : List BodyReport) (start : Option BodyState) :
    (reports.foldl step start).map BodyState.unsized =
      reports.foldl step (start.map BodyState.unsized) := by
  induction reports generalizing start with
  | nil => rfl
  | cons report reports ih => rw [List.foldl_cons, ih, step_unsized, List.foldl_cons]

end BodyReport

namespace Ui

/-! ## The body of the selected exchange -/

/-- The body after some messages. -/
def bodyAfter (id : Nat) (direction : Direction) (start : Option BodyState)
    (msgs : List Wire.EventMessage) : Option BodyState :=
  (msgs.filterMap (BodyReport.ofMessage? id direction)).foldl BodyReport.step start

theorem bodyAfter_append (id : Nat) (direction : Direction) (start : Option BodyState)
    (msgs more : List Wire.EventMessage) :
    bodyAfter id direction start (msgs ++ more) =
      bodyAfter id direction (bodyAfter id direction start msgs) more := by
  rw [bodyAfter, List.filterMap_append, List.foldl_append]
  rfl

theorem bodyAfter_unsized (id : Nat) (direction : Direction) (start : Option BodyState)
    (msgs : List Wire.EventMessage) :
    (bodyAfter id direction start msgs).map BodyState.unsized =
      bodyAfter id direction (start.map BodyState.unsized) msgs :=
  BodyReport.foldl_step_unsized _ _

theorem bodyAfter_other {id : Nat} {direction : Direction} {msg : Wire.EventMessage}
    (silent : BodyReport.ofMessage? id direction msg = none) (start : Option BodyState) :
    bodyAfter id direction start [msg] = start := by
  rw [bodyAfter, List.filterMap_cons, silent]
  rfl

/-- No message evicts the body of the selected exchange. -/
theorem StoreState.body_applyEvent {s : StoreState} (wf : s.store.WellFormed) {id : Nat}
    (selected : s.selectedId = some id) (msg : Wire.EventMessage) (direction : Direction) :
    (s.step (.applyEvent msg)).store.body id direction =
      bodyAfter id direction (s.store.body id direction) [msg] := by
  rw [Store.body, evicts_selected (s.evicts_apply wf msg) (wf.apply msg) selected, ← Store.body]
  exact foldl_apply_body s.store [msg] id direction

/-- A size that is written elsewhere does not change the body. -/
theorem Store.body_setBodyDecodedBytes_of_ne (store : Store) {id other : Nat}
    {direction side : Direction} (differ : ¬(other = id ∧ side = direction)) (n : Nat) :
    (store.setBodyDecodedBytes other side n).body id direction = store.body id direction := by
  rcases setBodyDecodedBytes_cases store other side n with same | ⟨ex, body, seen, found, changed⟩
  · rw [same]
  · rw [changed, Store.body, Store.body, Store.put]
    dsimp only
    by_cases here : id = other
    · subst here
      rw [Function.update_self, seen, Option.bind_some, Option.bind_some]
      cases direction <;> cases side <;> first | rfl | exact absurd ⟨rfl, rfl⟩ differ
    · rw [Function.update_of_ne here]

/-! ## The pane and the store -/

variable {V R L : Type}

/-- The store, and the pane of one body of the selected exchange. -/
structure LivePane (V R L : Type) where
  state : StoreState
  pane : Decoding V R L

/-- `writeElsewhere` is the write of the pane of another body. -/
inductive LiveAction (V R L : Type) where
  | receive (msg : Wire.EventMessage)
  | writeElsewhere (exchangeId : Nat) (direction : Direction) (decodedBytes : Nat)
  | render
  | runEffect
  | settle (i : Nat) (workers : Codecs V R L)

def LiveAction.message? : LiveAction V R L → Option Wire.EventMessage
  | receive msg => some msg
  | _ => none

/-- The actions of the pane itself. -/
def LiveAction.isInternal : LiveAction V R L → Bool
  | render | runEffect | settle _ _ => true
  | _ => false

/-- The messages that were received. -/
def messages (acts : List (LiveAction V R L)) : List Wire.EventMessage :=
  acts.filterMap LiveAction.message?

theorem messages_concat (acts : List (LiveAction V R L)) (a : LiveAction V R L) :
    messages (acts ++ [a]) = messages acts ++ a.message?.toList := by
  rw [messages, List.filterMap_append]
  cases told : a.message? <;> simp [messages, told]

variable (decompress : Bytes → Text → Option Bytes) (caching : Bool)

/-- The size that the end of a decoding writes to the store. -/
def Decoding.written? (s : Decoding V R L) (i : Nat) (workers : Codecs V R L) : Option Nat :=
  s.tasks[i]?.bind fun task =>
    if task.cancelled || !caching then none
    else (Codecs.decodeBody { workers with decompress } task.object.body).bind DecodeResult.decodedBytes

namespace LivePane

variable (id : Nat) (direction : Direction)

def mount (state : StoreState) : LivePane V R L :=
  ⟨state, .mount (state.store.body id direction)⟩

def step (s : LivePane V R L) : LiveAction V R L → Option (LivePane V R L)
  | .receive msg =>
    let state := s.state.step (.applyEvent msg)
    if (BodyReport.ofMessage? id direction msg).isSome then
      (s.pane.step decompress caching (.update (state.store.body id direction))).map (⟨state, ·⟩)
    else some ⟨state, s.pane⟩
  | .writeElsewhere exchangeId side n =>
    if exchangeId = id ∧ side = direction then none
    else some ⟨s.state.step (.setBodyDecodedBytes exchangeId side n), s.pane⟩
  | .render => (s.pane.step decompress caching .render).map (⟨s.state, ·⟩)
  | .runEffect => (s.pane.step decompress caching .runEffect).map (⟨s.state, ·⟩)
  | .settle i workers =>
    let state := match s.pane.written? decompress caching i workers with
      | some n => s.state.step (.setBodyDecodedBytes id direction n)
      | none => s.state
    (s.pane.step decompress caching (.settle i workers)).map (⟨state, ·⟩)

end LivePane

/-! ## What the pane holds -/

namespace Decoding

variable {decompress : Bytes → Text → Option Bytes} {caching : Bool} {s t : Decoding V R L}

theorem body_writeDecodedBytes (s : Decoding V R L) (n : Nat) :
    (s.writeDecodedBytes n).slot.map BodyObject.body =
      (s.slot.map BodyObject.body).map fun b => { b with decodedBytes := some n } := by
  rw [writeDecodedBytes]
  cases held : s.slot with
  | none =>
    dsimp only
    rw [held]
    rfl
  | some object =>
    by_cases known : object.body.decodedBytes = some n
    · dsimp only
      rw [if_pos known, held, Option.map_some, Option.map_some, ← known]
    · dsimp only
      rw [if_neg known]
      rfl

theorem kept_of_step {a : DecodingAction V R L} (taken : s.step decompress caching a = some t)
    (own : a = .render ∨ a = .runEffect) : t.slot = s.slot := by
  cases steps_of_step taken with
  | render | runEffect => rfl
  | update | dropped | finished => simp at own

/-- The end of a decoding writes the size to the body of the pane, and nothing else. -/
theorem body_settle {i : Nat} {workers : Codecs V R L}
    (taken : s.step decompress caching (.settle i workers) = some t) :
    t.slot.map BodyObject.body = match s.written? decompress caching i workers with
      | some n => (s.slot.map BodyObject.body).map fun b => { b with decodedBytes := some n }
      | none => s.slot.map BodyObject.body := by
  obtain ⟨task, found, rfl⟩ := Option.map_eq_some_iff.mp taken
  rw [written?, found, Option.bind_some]
  dsimp only
  cases task.cancelled with
  | true => rfl
  | false =>
    rw [if_neg Bool.false_ne_true, finish, Bool.false_or]
    cases Codecs.decodeBody { workers with decompress } task.object.body with
    | none => cases caching <;> rfl
    | some r =>
      dsimp only
      rw [Option.bind_some]
      cases r.decodedBytes with
      | none => cases caching <;> rfl
      | some n => cases caching with
        | false => rfl
        | true => exact body_writeDecodedBytes _ n

end Decoding

namespace LivePane

variable {decompress caching} {id : Nat} {direction : Direction}

/-- What holds after some actions in which the pane was mounted with `start`: the pane and the
store have the same body, up to the size it is what the messages make of it, and the pane holds
nothing but what the store has had. -/
structure Tracks (decompress : Bytes → Text → Option Bytes) (caching : Bool) (id : Nat)
    (direction : Direction) (start : Option BodyState) (acts : List (LiveAction V R L))
    (s : LivePane V R L) : Prop where
  selected : s.state.selectedId = some id
  wellFormed : s.state.store.WellFormed
  mirrors : s.pane.slot.map BodyObject.body = s.state.store.body id direction
  folded : (s.state.store.body id direction).map BodyState.unsized =
    (bodyAfter id direction start (messages acts)).map BodyState.unsized
  held : ∀ object, s.pane.Holds object → ∃ earlier, earlier <+: messages acts ∧
    (bodyAfter id direction start earlier).map BodyState.unsized = some object.body.unsized
  ran : ∃ panes, Machine.run (Decoding.step decompress caching) (.mount start) panes = some s.pane ∧
    ∀ i workers, .settle i workers ∈ panes → .settle i workers ∈ acts

/-- A step of the pane keeps what it holds, but for what the store has now. -/
theorem Tracks.of_pane {start : Option BodyState} {acts : List (LiveAction V R L)}
    {s t : LivePane V R L} (tracks : s.Tracks decompress caching id direction start acts)
    {a : LiveAction V R L} {b : DecodingAction V R L} (taken : s.pane.step decompress caching b = some t.pane)
    (selected : t.state.selectedId = some id) (wellFormed : t.state.store.WellFormed)
    (mirrors : t.pane.slot.map BodyObject.body = t.state.store.body id direction)
    (folded : (t.state.store.body id direction).map BodyState.unsized =
      (bodyAfter id direction start (messages (acts ++ [a]))).map BodyState.unsized)
    (settles : ∀ i workers, b = .settle i workers → a = .settle i workers) :
    t.Tracks decompress caching id direction start (acts ++ [a]) := by
  have more : messages acts <+: messages (acts ++ [a]) := by
    rw [messages_concat]
    exact List.prefix_append _ _
  refine ⟨selected, wellFormed, mirrors, folded, fun object held => ?_, ?_⟩
  · rcases Decoding.holds_of_steps (Decoding.steps_of_step taken) held with before | ⟨-, -, slot⟩
    · obtain ⟨earlier, sub, same⟩ := tracks.held object before
      exact ⟨earlier, sub.trans more, same⟩
    · refine ⟨_, List.prefix_refl _, ?_⟩
      rw [← folded, ← mirrors, slot]
      rfl
  · obtain ⟨panes, ran, settled⟩ := tracks.ran
    refine ⟨panes ++ [b], Machine.run_concat_some.mpr ⟨s.pane, ran, taken⟩, fun i workers member => ?_⟩
    rcases List.mem_append.mp member with old | new
    · exact List.mem_append_left _ (settled i workers old)
    · refine List.mem_append_right _ (List.mem_singleton.mpr ?_)
      exact (settles i workers (List.mem_singleton.mp new).symm).symm

/-- What is not about the body leaves the pane alone. -/
theorem Tracks.of_store {start : Option BodyState} {acts : List (LiveAction V R L)}
    {s t : LivePane V R L} (tracks : s.Tracks decompress caching id direction start acts)
    {a : LiveAction V R L} (pane : t.pane = s.pane) (selected : t.state.selectedId = some id)
    (wellFormed : t.state.store.WellFormed)
    (same : t.state.store.body id direction = s.state.store.body id direction)
    (silent : ∀ msg, a.message? = some msg → BodyReport.ofMessage? id direction msg = none) :
    t.Tracks decompress caching id direction start (acts ++ [a]) := by
  have after : bodyAfter id direction start (messages (acts ++ [a])) =
      bodyAfter id direction start (messages acts) := by
    rw [messages_concat, bodyAfter_append]
    cases told : a.message? with
    | none => rfl
    | some msg => exact bodyAfter_other (silent msg told) _
  refine ⟨selected, wellFormed, ?_, ?_, fun object held => ?_, ?_⟩
  · rw [pane, same]
    exact tracks.mirrors
  · rw [same, after]
    exact tracks.folded
  · rw [pane] at held
    obtain ⟨earlier, sub, here⟩ := tracks.held object held
    rw [messages_concat]
    exact ⟨earlier, sub.trans (List.prefix_append _ _), here⟩
  · obtain ⟨panes, ran, settled⟩ := tracks.ran
    rw [pane]
    exact ⟨panes, ran, fun i workers member => List.mem_append_left _ (settled i workers member)⟩

theorem wellFormed_setBodyDecodedBytes {store : Store} (wf : store.WellFormed) (other : Nat)
    (side : Direction) (n : Nat) : (store.setBodyDecodedBytes other side n).WellFormed := by
  rcases setBodyDecodedBytes_cases store other side n with same | ⟨ex, body, seen, found, changed⟩
  · rw [same]
    exact wf
  · rw [changed]
    exact wf.put ((ex.setBody_id _ _).trans (wf.keyed other ex seen))

theorem Tracks.receive {start : Option BodyState} {acts : List (LiveAction V R L)}
    {s t : LivePane V R L} (tracks : s.Tracks decompress caching id direction start acts)
    {msg : Wire.EventMessage} (taken : s.step decompress caching id direction (.receive msg) = some t) :
    t.Tracks decompress caching id direction start (acts ++ [.receive msg]) := by
  have body := StoreState.body_applyEvent tracks.wellFormed tracks.selected msg direction
  have wf := (tracks.wellFormed.apply msg).evict s.state.selectedId
  rw [LivePane.step] at taken
  cases about : BodyReport.ofMessage? id direction msg with
  | none =>
    rw [about, Option.isSome_none, if_neg Bool.false_ne_true] at taken
    obtain rfl := Option.some.inj taken
    refine tracks.of_store rfl tracks.selected wf ?_ fun other told => ?_
    · exact body.trans (bodyAfter_other about _)
    · exact Option.some.inj told ▸ about
  | some report =>
    rw [about, Option.isSome_some, if_pos rfl] at taken
    obtain ⟨pane, updated, rfl⟩ := Option.map_eq_some_iff.mp taken
    refine tracks.of_pane updated tracks.selected wf ?_ ?_ (by rintro i workers ⟨⟩)
    · obtain rfl := Option.some.inj updated
      dsimp only
      rw [Option.map_map, Function.comp_def, Option.map_id']
    · dsimp only
      rw [body, bodyAfter_unsized, tracks.folded, ← bodyAfter_unsized, ← bodyAfter_append,
        messages_concat]
      rfl

/-- Renders and effects change nothing in the store. -/
theorem Tracks.turn {start : Option BodyState} {acts : List (LiveAction V R L)}
    {s : LivePane V R L} (tracks : s.Tracks decompress caching id direction start acts)
    {a : LiveAction V R L} (silent : a.message? = none) {b : DecodingAction V R L}
    (own : b = .render ∨ b = .runEffect) {pane : Decoding V R L}
    (taken : s.pane.step decompress caching b = some pane) :
    LivePane.Tracks decompress caching id direction start (acts ++ [a]) ⟨s.state, pane⟩ := by
  refine tracks.of_pane taken tracks.selected tracks.wellFormed ?_ ?_ fun i workers same => ?_
  · rw [Decoding.kept_of_step taken own]
    exact tracks.mirrors
  · rw [messages_concat, silent, Option.toList_none, List.append_nil]
    exact tracks.folded
  · rcases own with rfl | rfl <;> cases same

theorem Tracks.settle {start : Option BodyState} {acts : List (LiveAction V R L)}
    {s t : LivePane V R L} (tracks : s.Tracks decompress caching id direction start acts) {i : Nat}
    {workers : Codecs V R L}
    (taken : s.step decompress caching id direction (.settle i workers) = some t) :
    t.Tracks decompress caching id direction start (acts ++ [.settle i workers]) := by
  obtain ⟨pane, ended, rfl⟩ := Option.map_eq_some_iff.mp taken
  have body := Decoding.body_settle ended
  have quiet : messages (acts ++ [LiveAction.settle i workers]) = messages acts := by
    rw [messages_concat]
    exact List.append_nil _
  cases size : s.pane.written? decompress caching i workers with
  | none =>
    rw [size] at body
    refine tracks.of_pane ended tracks.selected tracks.wellFormed (body.trans tracks.mirrors) ?_ ?_
    · rw [quiet]
      exact tracks.folded
    · rintro j others ⟨⟩
      rfl
  | some n =>
    rw [size] at body
    have stored := Store.body_setBodyDecodedBytes s.state.store id direction n
    refine tracks.of_pane ended tracks.selected ?_ ?_ ?_ ?_
    · exact wellFormed_setBodyDecodedBytes tracks.wellFormed id direction n
    · exact body.trans ((congrArg _ tracks.mirrors).trans stored.symm)
    · rw [quiet, ← tracks.folded]
      dsimp only [StoreState.step]
      rw [stored, Option.map_map]
      rfl
    · rintro j others ⟨⟩
      rfl

theorem Tracks.step {start : Option BodyState} {acts : List (LiveAction V R L)}
    {s t : LivePane V R L} (tracks : s.Tracks decompress caching id direction start acts)
    {a : LiveAction V R L} (taken : s.step decompress caching id direction a = some t) :
    t.Tracks decompress caching id direction start (acts ++ [a]) := by
  cases a with
  | receive msg => exact tracks.receive taken
  | writeElsewhere exchangeId side n =>
    rw [LivePane.step] at taken
    split at taken
    · cases taken
    · rename_i differ
      obtain rfl := Option.some.inj taken
      refine tracks.of_store rfl tracks.selected ?_ ?_ (by rintro msg ⟨⟩)
      · exact wellFormed_setBodyDecodedBytes tracks.wellFormed exchangeId side n
      · exact Store.body_setBodyDecodedBytes_of_ne _ differ n
  | render =>
    obtain ⟨pane, rendered, rfl⟩ := Option.map_eq_some_iff.mp taken
    exact tracks.turn rfl (.inl rfl) rendered
  | runEffect =>
    obtain ⟨pane, ran, rfl⟩ := Option.map_eq_some_iff.mp taken
    exact tracks.turn rfl (.inr rfl) ran
  | settle i workers => exact tracks.settle taken

theorem tracks_mount {state : StoreState} (wf : state.store.WellFormed)
    (selected : state.selectedId = some id) :
    (mount id direction state : LivePane V R L).Tracks decompress caching id direction
      (state.store.body id direction) [] := by
  refine ⟨selected, wf, ?_, rfl, fun object held => ⟨[], List.prefix_refl _, ?_⟩, [], rfl, ?_⟩
  · rw [mount, Decoding.mount, Option.map_map, Function.comp_def, Option.map_id']
  · have here : (state.store.body id direction).map (⟨0, ·⟩) = some object := by
      cases held with
      | slot _ here | rendered _ here => exact here
      | effect _ here => cases here
      | task _ here => cases here
      | entry _ here => cases here
    obtain ⟨body, found, rfl⟩ := Option.map_eq_some_iff.mp here
    rw [bodyAfter, found]
    rfl
  · intro i workers member
    cases member

/-- In every run the pane is one that decodes bodies the store has had. -/
theorem tracks_of_run {state : StoreState} (wf : state.store.WellFormed)
    (selected : state.selectedId = some id) {acts : List (LiveAction V R L)} {s : LivePane V R L}
    (reached : Machine.run (step decompress caching id direction) (mount id direction state) acts =
      some s) :
    s.Tracks decompress caching id direction (state.store.body id direction) acts :=
  Machine.run_history (P := fun acts (s : LivePane V R L) =>
    s.Tracks decompress caching id direction (state.store.body id direction) acts)
    (tracks_mount wf selected) (fun _ _ _ _ _ tracks taken => tracks.step taken) reached

/-- Where the pane has nothing left to do, what it decodes has nothing left to do. -/
theorem pane_stopped {s : LivePane V R L}
    (stopped : ∀ a : LiveAction V R L, a.isInternal = true →
      s.step decompress caching id direction a = none) :
    ∀ a : DecodingAction V R L, a.isInternal = true → s.pane.step decompress caching a = none := by
  intro a internal
  cases a with
  | update body => cases internal
  | render => exact Option.map_eq_none_iff.mp (stopped .render rfl)
  | runEffect => exact Option.map_eq_none_iff.mp (stopped .runEffect rfl)
  | settle i workers => exact Option.map_eq_none_iff.mp (stopped (.settle i workers) rfl)

end LivePane

end Ui

end Protospy
