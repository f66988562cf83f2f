import Protospy.Lib.Numerals
import Protospy.Lib.Splitter
import Protospy.Main

/-!
# The files of the recorder (`monitor.rs`)

All recorders write to one folder. A file name gives the exchange, the kind of the event and,
for body data, its number.
-/

namespace Protospy

inductive FileKind where
  | request
  | response
  | data (direction : Direction) (seq : Nat)
  | error (direction : Direction)
  deriving DecidableEq

def FileKind.base : FileKind → String
  | .request => "request"
  | .response => "response"
  | .data direction seq => direction.toText ++ "-data-" ++ toString seq
  | .error direction => direction.toText ++ "-error"

def fileName (id : Nat) (kind : FileKind) : String :=
  "e" ++ toString id ++ "-" ++ kind.base ++ ".json"

theorem dash_not_mem_toDigits (n : Nat) : '-' ∉ Nat.toDigits 10 n := by
  intro member
  have digit := Nat.isDigit_of_mem_toDigits (by omega) (by omega) member
  cases digit

theorem Direction.toText_toList (direction : Direction) : direction.toText.toList =
    match direction with
    | .request => ['R', 'e', 'q', 'u', 'e', 's', 't']
    | .response => ['R', 'e', 's', 'p', 'o', 'n', 's', 'e'] := by
  cases direction <;> rfl

theorem FileKind.base_toList (kind : FileKind) : kind.base.toList =
    match kind with
    | .request => ['r', 'e', 'q', 'u', 'e', 's', 't']
    | .response => ['r', 'e', 's', 'p', 'o', 'n', 's', 'e']
    | .data direction seq =>
      direction.toText.toList ++ ('-' :: 'd' :: 'a' :: 't' :: 'a' :: '-' :: Nat.toDigits 10 seq)
    | .error direction => direction.toText.toList ++ ['-', 'e', 'r', 'r', 'o', 'r'] := by
  cases kind with
  | data direction seq =>
    rw [base, String.toList_append, String.toList_append, Nat.toString_eq_repr, Nat.toList_repr,
      List.append_assoc]
    rfl
  | error direction =>
    rw [base, String.toList_append]
    rfl
  | _ => rfl

theorem FileKind.base_injective {kind kind' : FileKind} (h : kind.base = kind'.base) :
    kind = kind' := by
  have chars := congrArg String.toList h
  rw [base_toList, base_toList] at chars
  rcases kind with _ | _ | ⟨_ | _, seq⟩ | (_ | _) <;>
    rcases kind' with _ | _ | ⟨_ | _, seq'⟩ | (_ | _) <;>
    simp [Direction.toText_toList] at chars ⊢
  all_goals exact Numerals.toDigits_injective (by omega) (by omega) chars

/-- A name tells the exchange and the kind. -/
theorem fileName_injective {id id' : Nat} {kind kind' : FileKind}
    (h : fileName id kind = fileName id' kind') : id = id' ∧ kind = kind' := by
  have chars := congrArg String.toList h
  simp only [fileName, String.toList_append, Nat.toString_eq_repr, Nat.toList_repr,
    List.append_assoc, List.append_cancel_left_eq] at chars
  obtain ⟨digits, rest⟩ := eq_of_separated (dash_not_mem_toDigits id) (dash_not_mem_toDigits id') chars
  refine ⟨Numerals.toDigits_injective (by omega) (by omega) digits, FileKind.base_injective (String.toList_inj.mp ?_)⟩
  exact List.append_cancel_right rest

/-! ## One recorder -/

def EventMessage.isDataOf (id : Nat) (direction : Direction) (msg : EventMessage) : Bool :=
  match msg.event with
  | .bodyData _ => decide (id = msg.exchange.exchangeId ∧ direction = msg.direction)
  | _ => false

def EventMessage.fileKind (seq : Nat) (msg : EventMessage) : FileKind :=
  match msg.event with
  | .request .. => .request
  | .response .. => .response
  | .bodyData _ => .data msg.direction seq
  | .error .. => .error msg.direction

/-- The kind of the file for a message, after those before it. -/
def kindAfter (before : List EventMessage) (msg : EventMessage) : FileKind :=
  msg.fileKind (before.countP (EventMessage.isDataOf msg.exchange.exchangeId msg.direction) + 1)

/-- The writer has written a file for each of the messages, in order. -/
structure Recorded (msgs : List EventMessage) (w : Writer) : Prop where
  length : w.files.length = msgs.length
  each : ∀ i msg, msgs[i]? = some msg → ∃ wire, msg.serialize = .ok wire ∧
    w.files[i]? = some (fileName msg.exchange.exchangeId (kindAfter (msgs.take i) msg), wire)
  counters : ∀ id direction,
    w.frameCounters id direction = msgs.countP (EventMessage.isDataOf id direction)

theorem Writer.eventFilename_spec (w : Writer) (msg : EventMessage) :
    (w.eventFilename msg).1 = fileName msg.exchange.exchangeId
        (msg.fileKind (w.frameCounters msg.exchange.exchangeId msg.direction + 1)) ∧
      (w.eventFilename msg).2.files = w.files ∧
      ∀ id direction, (w.eventFilename msg).2.frameCounters id direction =
        w.frameCounters id direction + if msg.isDataOf id direction then 1 else 0 := by
  obtain ⟨exchange, side, event⟩ := msg
  cases event with
  | bodyData body =>
    refine ⟨rfl, rfl, fun id direction => ?_⟩
    by_cases here : id = exchange.exchangeId ∧ direction = side
    · obtain ⟨rfl, rfl⟩ := here
      simp [eventFilename, dataSeq, EventMessage.isDataOf]
    · simp [eventFilename, dataSeq, EventMessage.isDataOf, here]
  | _ => exact ⟨rfl, rfl, fun _ _ => rfl⟩

theorem Writer.body_ok {w w' : Writer} {written : Bool} {msg : EventMessage}
    (h : w.body written msg = .ok w') :
    ∃ wire, msg.serialize = .ok wire ∧
      w'.files = w.files ++ [((w.eventFilename msg).1, wire)] ∧
      w'.frameCounters = (w.eventFilename msg).2.frameCounters := by
  have same := (w.eventFilename_spec msg).2.1
  rw [body] at h
  cases serialized : msg.serialize with
  | error err => simp [render, serialized, Except.mapError, bind, Except.bind] at h
  | ok wire =>
    cases written with
    | false => simp [render, serialized, Except.mapError, bind, Except.bind] at h
    | true =>
      simp only [render, serialized, Except.mapError, bind, Except.bind, if_true,
        Except.ok.injEq] at h
      rw [← h]
      exact ⟨wire, rfl, by rw [same], rfl⟩

theorem recorded_new : Recorded [] .new := by
  refine ⟨rfl, fun i msg here => ?_, fun _ _ => rfl⟩
  rw [List.getElem?_nil] at here
  cases here

theorem Recorded.concat {msgs : List EventMessage} {w w' : Writer} {written : Bool}
    {msg : EventMessage} (ok : Recorded msgs w) (h : w.body written msg = .ok w') :
    Recorded (msgs ++ [msg]) w' := by
  obtain ⟨name, -, counters⟩ := w.eventFilename_spec msg
  obtain ⟨wire, serialized, files, counted⟩ := Writer.body_ok h
  refine ⟨?_, fun i m here => ?_, fun id direction => ?_⟩
  · rw [files, List.length_append, List.length_append, ok.length]
    rfl
  · rcases Nat.lt_trichotomy i msgs.length with earlier | rfl | later
    · rw [List.getElem?_append_left earlier] at here
      obtain ⟨wire', serialized', found⟩ := ok.each i m here
      refine ⟨wire', serialized', ?_⟩
      rw [files, List.getElem?_append_left (ok.length ▸ earlier),
        List.take_append_of_le_length (Nat.le_of_lt earlier)]
      exact found
    · rw [List.getElem?_concat_length] at here
      obtain rfl := Option.some.inj here
      refine ⟨wire, serialized, ?_⟩
      rw [files, ← ok.length, List.getElem?_concat_length, name, ok.length, List.take_left,
        kindAfter, ok.counters]
    · rw [List.getElem?_eq_none (by rw [List.length_append, List.length_singleton]; omega)] at here
      cases here
  · rw [counted, counters, ok.counters, List.countP_append, List.countP_singleton]

theorem isDataOf_of_kind {before : List EventMessage} {msg : EventMessage} {direction : Direction}
    {seq : Nat} (h : kindAfter before msg = .data direction seq) :
    direction = msg.direction ∧
      seq = before.countP (EventMessage.isDataOf msg.exchange.exchangeId msg.direction) + 1 ∧
      msg.isDataOf msg.exchange.exchangeId msg.direction = true := by
  obtain ⟨exchange, side, event⟩ := msg
  cases event with
  | bodyData body =>
    obtain ⟨rfl, rfl⟩ := FileKind.data.inj h
    exact ⟨rfl, rfl, decide_eq_true ⟨rfl, rfl⟩⟩
  | _ => cases h

/-- A file with body data is written once. -/
theorem data_written_once {msgs : List EventMessage} {i j : Nat} {msg msg' : EventMessage}
    {direction : Direction} {seq : Nat} (here : msgs[i]? = some msg) (there : msgs[j]? = some msg')
    (same : msg.exchange.exchangeId = msg'.exchange.exchangeId)
    (kind : kindAfter (msgs.take i) msg = .data direction seq)
    (kind' : kindAfter (msgs.take j) msg' = .data direction seq) : i = j := by
  have later : ∀ {i j : Nat} {msg msg' : EventMessage}, i < j → msgs[i]? = some msg →
      msgs[j]? = some msg' → msg.exchange.exchangeId = msg'.exchange.exchangeId →
      kindAfter (msgs.take i) msg = .data direction seq →
      kindAfter (msgs.take j) msg' ≠ .data direction seq := by
    intro i j msg msg' before here there same kind kind'
    obtain ⟨side, count, data⟩ := isDataOf_of_kind kind
    obtain ⟨side', count', -⟩ := isDataOf_of_kind kind'
    rw [← same, ← side', side] at count'
    -- the earlier message is one of those counted for the later one
    have more : ((msgs.take i) ++ [msg]).countP
        (EventMessage.isDataOf msg.exchange.exchangeId msg.direction) ≤ (msgs.take j).countP
          (EventMessage.isDataOf msg.exchange.exchangeId msg.direction) := by
      have grown : msgs.take i ++ [msg] = msgs.take (i + 1) := by
        rw [List.take_add_one, here, Option.toList_some]
      rw [grown]
      exact (List.take_sublist_take_left before).countP_le
    rw [List.countP_append, List.countP_singleton, if_pos data] at more
    omega
  rcases Nat.lt_trichotomy i j with before | rfl | after
  · exact absurd kind' (later before here there same kind)
  · rfl
  · exact absurd kind (later after there here same.symm kind')

/-! ## The recorders of a process -/

/-- The recorder has written the first messages of its service, and while it runs it reads the
next one. -/
def ServiceEntry.Recording (e : ServiceEntry) : Prop :=
  ∃ o n, e.recorder = some o ∧ n ≤ e.publisher.sent.length ∧
    Recorded (e.publisher.sent.take n) o.state ∧ (o.task.isRunning = true → o.position = n)

theorem ServiceEntry.recording_of_same {e e' : ServiceEntry} (h : e.Recording)
    (recorder : e'.recorder = e.recorder) (publisher : e'.publisher = e.publisher) :
    e'.Recording := by
  rw [Recording, recorder, publisher]
  exact h

theorem ServiceEntry.recording_record {e e' : ServiceEntry} {written : Bool} (h : e.Recording)
    (taken : e.step (.record written) = some e') : e'.Recording := by
  obtain ⟨o, n, recorder, reached, recorded, running⟩ := h
  obtain ⟨o', found, taken⟩ := Option.bind_eq_some_iff.mp taken
  obtain rfl := Option.some.inj (recorder.symm.trans found)
  obtain ⟨o', turned, rfl⟩ := Option.map_eq_some_iff.mp taken
  rw [Observer.turn] at turned
  split at turned
  · cases turned
  · rename_i runs
    obtain ⟨⟨received, position⟩, got, turned⟩ := Option.map_eq_some_iff.mp turned
    cases received with
    | lagged missed =>
      obtain rfl := turned
      exact ⟨_, n, rfl, reached, recorded, fun stopped => by cases stopped⟩
    | message msg =>
      obtain ⟨-, next, rfl⟩ := (Broadcast.Channel.recv_message_iff _ _ _ _).mp got
      rw [running (by rw [runs]; rfl)] at next
      obtain ⟨bound, -⟩ := List.getElem?_eq_some_iff.mp next
      cases wrote : o.state.body written msg with
      | error err =>
        simp only [wrote] at turned
        obtain rfl := turned
        exact ⟨_, n, rfl, reached, recorded, fun stopped => by cases stopped⟩
      | ok state =>
        simp only [wrote] at turned
        obtain rfl := turned
        refine ⟨_, n + 1, rfl, bound, ?_, fun _ => by rw [running (by rw [runs]; rfl)]⟩
        dsimp only
        rw [List.take_add_one, next, Option.toList_some]
        exact recorded.concat wrote

theorem ServiceEntry.recording_step {e e' : ServiceEntry} {a : ServiceAction} (h : e.Recording)
    (taken : e.step a = some e') : e'.Recording := by
  cases a with
  | record written => exact recording_record h taken
  | publish msg =>
    rw [step] at taken
    split at taken
    · obtain rfl := Option.some.inj taken
      exact h
    · obtain rfl := Option.some.inj taken
      obtain ⟨o, n, recorder, reached, recorded, running⟩ := h
      refine ⟨o, n, recorder, ?_, ?_, running⟩
      · exact reached.trans (by simp [Broadcast.Channel.send])
      · dsimp only [Broadcast.Channel.send]
        rwa [List.take_append_of_le_length reached]
  | accept peer spawns =>
    rw [step] at taken
    split at taken
    · split at taken <;> obtain rfl := Option.some.inj taken <;>
        exact recording_of_same h rfl rfl
    · cases taken
  | bind ok =>
    simp only [step, Option.ite_none_right_eq_some, Option.some.injEq] at taken
    obtain ⟨-, rfl⟩ := taken
    cases ok <;> exact recording_of_same h rfl rfl
  | acceptFails | connectionEnds _ _ | unsubscribe =>
    simp only [step, Option.ite_none_right_eq_some, Option.some.injEq] at taken
    obtain ⟨-, rfl⟩ := taken
    exact recording_of_same h rfl rfl
  | subscribe =>
    obtain rfl := Option.some.inj taken
    exact recording_of_same h rfl rfl
  | log written =>
    obtain ⟨o, -, taken⟩ := Option.bind_eq_some_iff.mp taken
    obtain ⟨o', -, rfl⟩ := Option.map_eq_some_iff.mp taken
    exact recording_of_same h rfl rfl

theorem Process.recording_run {config : Config} {p q : Process} {acts : List Action}
    (started : start config = some p) (recording : config.recordExamples = true)
    (ran : Machine.run step p acts = some q) : ∀ e ∈ q.services, e.Recording := by
  refine Machine.run_invariant (P := fun p : Process => ∀ e ∈ p.services, e.Recording)
    (fun p a p' all taken => ?_) ?_ ran
  · cases a with
    | service index action =>
      obtain ⟨e, e', here, turned, rfl⟩ := step_service taken
      intro other member
      rcases List.mem_or_eq_of_mem_set member with old | rfl
      · exact all other old
      · exact ServiceEntry.recording_step (all e (List.mem_of_getElem? here)) turned
    | joinNext index task =>
      obtain ⟨e, err, -, -, rfl⟩ := step_joinNext taken
      exact all
    | signal =>
      simp only [step, step_exit taken, Option.some.injEq] at taken
      obtain rfl := taken
      exact all
  · rw [start] at started
    split at started
    · cases started
    · obtain rfl := Option.some.inj started
      intro e member
      obtain ⟨service, -, rfl⟩ := List.mem_map.mp member
      exact ⟨⟨0, .new, .running⟩, 0, if_pos recording, Nat.zero_le _, recorded_new, fun _ => rfl⟩

/-- The `i`-th file that the recorder of a service has written, and its message. -/
def Process.Writes (p : Process) (index i : Nat) (msg : EventMessage)
    (file : String × Wire.EventMessage) : Prop :=
  ∃ e o, p.services[index]? = some e ∧ e.recorder = some o ∧ e.publisher.sent[i]? = some msg ∧
    o.state.files[i]? = some file

/-- Two heads or two errors of one side of one exchange. -/
def SameFile (msg msg' : EventMessage) : Prop :=
  msg.exchange.exchangeId = msg'.exchange.exchangeId ∧ msg.fileKind 0 = msg'.fileKind 0 ∧
    ∀ direction, msg.fileKind 0 ≠ .data direction 0

theorem fileKind_of_kind {before : List EventMessage} {msg : EventMessage} {kind : FileKind}
    (h : kindAfter before msg = kind) (plain : ∀ direction seq, kind ≠ .data direction seq) :
    msg.fileKind 0 = kind := by
  obtain ⟨exchange, side, event⟩ := msg
  cases event with
  | bodyData body => exact absurd h.symm (plain _ _)
  | _ => exact h

theorem Process.writes_named {p : Process} (all : ∀ e ∈ p.services, e.Recording) {index i : Nat}
    {msg : EventMessage} {file : String × Wire.EventMessage} (h : p.Writes index i msg file) :
    ∃ e, p.services[index]? = some e ∧ e.publisher.sent[i]? = some msg ∧
      file.1 = fileName msg.exchange.exchangeId (kindAfter (e.publisher.sent.take i) msg) ∧
      msg.serialize = .ok file.2 := by
  obtain ⟨e, o, here, recorder, sent, found⟩ := h
  obtain ⟨o', n, same, reached, recorded, -⟩ := all e (List.mem_of_getElem? here)
  obtain rfl := Option.some.inj (recorder.symm.trans same)
  obtain ⟨bound, -⟩ := List.getElem?_eq_some_iff.mp found
  have early : i < n := by
    have length := recorded.length
    rw [List.length_take] at length
    omega
  obtain ⟨wire, serialized, written⟩ := recorded.each i msg (by
    rw [List.getElem?_take_of_lt early, sent])
  obtain rfl := Option.some.inj (found.symm.trans written)
  refine ⟨e, here, sent, ?_, serialized⟩
  dsimp only
  rw [List.take_take, Nat.min_eq_left (Nat.le_of_lt early)]

section Example

private def recordingConfig : Config :=
  ⟨[⟨⟨⟨some "http", "store", "/"⟩, rfl, by decide⟩⟩, ⟨⟨⟨some "http", "search", "/"⟩, rfl, by decide⟩⟩],
    false, true⟩

private def endOf (exchangeId : Nat) : EventMessage :=
  ⟨⟨exchangeId, ""⟩, .request, .bodyData ⟨none, none, true, 0⟩⟩

private def threeWrites : List Action :=
  [.service 0 (.publish (endOf 1)), .service 1 (.publish (endOf 2)), .service 0 (.publish (endOf 1)),
    .service 0 (.record true), .service 1 (.record true), .service 0 (.record true)]

private def startedPair : Process := ⟨recordingConfig.proxy.map (ServiceEntry.start recordingConfig), none⟩

private def writtenPair : Process := (Machine.run Process.step startedPair threeWrites).getD startedPair

private theorem sent_writtenPair {a : Nat} {e : ServiceEntry} (here : writtenPair.services[a]? = some e) :
    ∀ msg ∈ e.publisher.sent, msg.exchange.exchangeId = a + 1 := by
  have sent : writtenPair.services.map (fun e => e.publisher.sent) =
      [[endOf 1, endOf 1], [endOf 2]] := rfl
  have own : [[endOf 1, endOf 1], [endOf 2]][a]? = some e.publisher.sent := by
    rw [← sent, List.getElem?_map, here]
    rfl
  match a with
  | 0 | 1 =>
    rw [← Option.some.inj own]
    simp [endOf]
  | _ + 2 => cases own

end Example

end Protospy
