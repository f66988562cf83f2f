import Protospy.Lib.Machine
import Protospy.Ui.DecodeBody
import Protospy.Ui.JsonWorker
import Protospy.Ui.Markup

/-!
# Jobs of the workers (`body/json-parse.ts`, `body/markup-format.ts`)

Each of the two modules keeps one worker, a counter of jobs and a table of the jobs that
wait for a reply. The worker is made for the first job and again after an error.
-/

namespace Protospy

/-- An error and the class that it is made of. -/
structure JsError where
  name : String
  message : String
  deriving DecidableEq, Repr

inductive Settlement (Result : Type) where
  | resolved (result : Result)
  | rejected (error : JsError)

/-- A message of a worker: `status` is `ok` or `error`. -/
structure OutMessage (Payload : Type) where
  jobId : Nat
  body : Except String Payload

/-- What one module does with a message and with an error, where it differs from the other. -/
structure WorkerClient (Payload Result : Type) where
  toResult : Payload → Result
  failure : String → JsError
  fatalMessage : String

/-- A job, the worker it was posted to and the promise of the call. -/
structure PostedJob (Request : Type) where
  worker : Nat
  jobId : Nat
  promise : Nat
  request : Request

/-- The variables of a module. Workers and promises are numbered as they are made, and
ids are kept as numbers. The jobs that were posted and the calls of `resolve` and
`reject` are recorded. -/
structure Jobs (Request Result : Type) where
  worker : Option Nat
  jobCounter : Nat
  pending : List (Nat × Nat)
  workers : Nat
  promises : Nat
  posted : List (PostedJob Request)
  settled : List (Nat × Settlement Result)

/-- Whether the constructor of the worker or `postMessage` throws. -/
inductive Submission where
  | succeeds
  | workerThrows (error : JsError)
  | postThrows (error : JsError)

inductive JobAction (Request Payload : Type) where
  | submit (request : Request) (submission : Submission)
  | reply (worker : Nat) (message : OutMessage Payload)
  | error (worker : Nat) (message : Option String)

variable {Request Payload Result : Type}

namespace Jobs

def start : Jobs Request Result := ⟨none, 0, [], 0, 0, [], []⟩

def settle (s : Jobs Request Result) (promise : Nat) (settlement : Settlement Result) :
    Jobs Request Result :=
  { s with settled := s.settled ++ [(promise, settlement)] }

def delete (s : Jobs Request Result) (jobId : Nat) : Jobs Request Result :=
  { s with pending := s.pending.filter fun entry => entry.1 ≠ jobId }

/-- The current worker, or a new one. Only the constructor can throw. -/
def getWorker (s : Jobs Request Result) (submission : Submission) :
    Except JsError (Nat × Jobs Request Result) :=
  match s.worker with
  | some worker => .ok (worker, s)
  | none => match submission with
    | .workerThrows e => .error e
    | .succeeds | .postThrows _ => .ok (s.workers, { s with worker := some s.workers, workers := s.workers + 1 })

def runJob (s : Jobs Request Result) (request : Request) (submission : Submission) :
    Jobs Request Result :=
  let jobId := s.jobCounter
  let promise := s.promises
  let s := { s with jobCounter := s.jobCounter + 1, promises := s.promises + 1 }
  match s.getWorker submission with
  | .error e => s.settle promise (.rejected e)
  | .ok (worker, s) =>
    let s := { s with pending := s.pending ++ [(jobId, promise)] }
    match submission with
    | .postThrows e => (s.delete jobId).settle promise (.rejected e)
    | .succeeds | .workerThrows _ => { s with posted := s.posted ++ [⟨worker, jobId, promise, request⟩] }

/-- The listener for messages. A message for no pending job is dropped. -/
def onMessage (client : WorkerClient Payload Result) (s : Jobs Request Result)
    (message : OutMessage Payload) : Jobs Request Result :=
  match s.pending.find? fun entry => entry.1 = message.jobId with
  | none => s
  | some (_, promise) => match message.body with
    | .ok payload => (s.delete message.jobId).settle promise (.resolved (client.toResult payload))
    | .error text => (s.delete message.jobId).settle promise (.rejected (client.failure text))

/-- The listener for errors. It does not ask which worker the error is of. -/
def onError (client : WorkerClient Payload Result) (s : Jobs Request Result)
    (message : Option String) : Jobs Request Result :=
  let e : JsError := ⟨"Error", message.getD client.fatalMessage⟩
  { s with
    worker := none
    pending := []
    settled := s.settled ++ s.pending.map fun entry => (entry.2, .rejected e) }

/-- Events come from workers that were made. The constructor is only called for a new worker. -/
def step (client : WorkerClient Payload Result) (s : Jobs Request Result) :
    JobAction Request Payload → Option (Jobs Request Result)
  | .submit request (.workerThrows e) =>
    if s.worker = none then some (s.runJob request (.workerThrows e)) else none
  | .submit request submission => some (s.runJob request submission)
  | .reply worker message => if worker < s.workers then some (s.onMessage client message) else none
  | .error worker message => if worker < s.workers then some (s.onError client message) else none

end Jobs

/-! ## The two modules -/

structure JsonRequest where
  text : Text
  mode : ParseMode
  deriving DecidableEq, Repr

structure JsonPayload (V R : Type) where
  mode : ParseMode
  parsed : Option V
  documents : Option (List V)
  prettyText : Text
  rows : List R
  defaultExpandedIds : List Nat
  truncated : Bool

def JsonParse.client (V R : Type) : WorkerClient (JsonPayload V R) (JsonParseResult V R) where
  toResult message :=
    ⟨message.parsed, message.documents, message.prettyText, message.rows,
      message.defaultExpandedIds, message.truncated⟩
  failure message := ⟨"SyntaxError", message⟩
  fatalMessage := "JSON parse worker error"

structure MarkupRequest where
  text : Text
  kind : MarkupKind
  deriving DecidableEq

structure MarkupPayload where
  lines : List MarkupLine
  formattedText : Text

def MarkupFormat.client : WorkerClient MarkupPayload (MarkupFormatResult MarkupLine) where
  toResult message := ⟨message.lines, message.formattedText⟩
  failure message := ⟨"Error", message⟩
  fatalMessage := "markup format worker error"

/-! ## What every run keeps -/

namespace Jobs

def IsSettled (s : Jobs Request Result) (promise : Nat) : Prop := promise ∈ s.settled.map Prod.fst

def PostedTo (s : Jobs Request Result) (worker promise : Nat) : Prop :=
  ∃ job ∈ s.posted, job.promise = promise ∧ job.worker = worker

/-- The jobs that wait were all posted to the current worker, and no settled job waits. -/
structure Inv (s : Jobs Request Result) : Prop where
  newest : ∀ worker, s.worker = some worker → worker + 1 = s.workers
  current : ∀ entry ∈ s.pending, ∃ job ∈ s.posted,
    s.worker = some job.worker ∧ job.jobId = entry.1 ∧ job.promise = entry.2
  pending_lt : ∀ entry ∈ s.pending, entry.1 < s.jobCounter ∧ entry.2 < s.promises
  posted_lt : ∀ job ∈ s.posted, job.promise < s.promises
  settled_lt : ∀ promise, s.IsSettled promise → promise < s.promises
  distinct : (s.pending.map Prod.fst).Nodup ∧ (s.pending.map Prod.snd).Nodup
  once : (s.settled.map Prod.fst).Nodup
  apart : ∀ entry ∈ s.pending, ¬ s.IsSettled entry.2
  waits : ∀ job ∈ s.posted, job.promise ∈ s.pending.map Prod.snd ∨ s.IsSettled job.promise

theorem inv_start : (start : Jobs Request Result).Inv := by
  constructor <;> simp [start, IsSettled]

theorem isSettled_settle {s : Jobs Request Result} {promise p : Nat}
    {settlement : Settlement Result} :
    (s.settle promise settlement).IsSettled p ↔ s.IsSettled p ∨ p = promise := by
  rw [IsSettled, IsSettled, settle, List.map_append, List.mem_append, List.map_singleton,
    List.mem_singleton]

/-- A promise that is settled for the first time keeps the settled ones distinct. -/
theorem Inv.nodup_settle {s : Jobs Request Result} (inv : s.Inv) {promise : Nat}
    (unsettled : ¬ s.IsSettled promise) (settlement : Settlement Result) :
    ((s.settle promise settlement).settled.map Prod.fst).Nodup := by
  rw [settle, List.map_append, List.map_singleton, ← List.concat_eq_append]
  exact List.Nodup.concat unsettled inv.once

theorem nodup_map_concat {f : Nat × Nat → Nat} {entries : List (Nat × Nat)} {entry : Nat × Nat}
    (distinct : (entries.map f).Nodup) (below : ∀ e ∈ entries, f e < f entry) :
    ((entries ++ [entry]).map f).Nodup := by
  have fresh : f entry ∉ entries.map f := by
    intro member
    obtain ⟨e, inside, same⟩ := List.mem_map.mp member
    exact absurd (below e inside) (same ▸ Nat.lt_irrefl _)
  rw [List.map_append, List.map_singleton, ← List.concat_eq_append]
  exact List.Nodup.concat fresh distinct

/-- Where no worker is there, no job waits. -/
theorem Inv.pending_nil {s : Jobs Request Result} (inv : s.Inv) (none : s.worker = none) :
    s.pending = [] := by
  refine List.eq_nil_iff_forall_not_mem.mpr fun entry member => ?_
  obtain ⟨job, -, current, -⟩ := inv.current entry member
  rw [none] at current
  cases current

theorem Inv.getWorker {s s' : Jobs Request Result} (inv : s.Inv) {submission : Submission}
    {worker : Nat} (made : s.getWorker submission = .ok (worker, s')) :
    s'.Inv ∧ s'.worker = some worker ∧ s'.settled = s.settled ∧ s'.jobCounter = s.jobCounter ∧
      s'.promises = s.promises := by
  rw [Jobs.getWorker.eq_def] at made
  cases current : s.worker with
  | some w =>
    rw [current] at made
    obtain ⟨rfl, rfl⟩ := Prod.mk.inj (Except.ok.inj made)
    exact ⟨inv, current, rfl, rfl, rfl⟩
  | none =>
    have idle := inv.pending_nil current
    have new : ({ s with worker := some s.workers, workers := s.workers + 1 } :
        Jobs Request Result).Inv :=
      { inv with
        newest := fun w same => by rw [← Option.some.inj same]
        current := fun entry member => by rw [idle] at member; cases member }
    rw [current] at made
    cases submission with
    | workerThrows e => cases made
    | succeeds =>
      obtain ⟨rfl, rfl⟩ := Prod.mk.inj (Except.ok.inj made)
      exact ⟨new, rfl, rfl, rfl, rfl⟩
    | postThrows e =>
      obtain ⟨rfl, rfl⟩ := Prod.mk.inj (Except.ok.inj made)
      exact ⟨new, rfl, rfl, rfl, rfl⟩

/-- Take the next id and make the next promise. -/
def next (s : Jobs Request Result) : Jobs Request Result :=
  { s with jobCounter := s.jobCounter + 1, promises := s.promises + 1 }

theorem runJob_eq (s : Jobs Request Result) (request : Request) (submission : Submission) :
    s.runJob request submission =
      match s.getWorker submission with
      | .error e => s.next.settle s.promises (.rejected e)
      | .ok (worker, s') =>
        let waiting := { s'.next with pending := s'.pending ++ [(s.jobCounter, s.promises)] }
        match submission with
        | .postThrows e => (waiting.delete s.jobCounter).settle s.promises (.rejected e)
        | .succeeds | .workerThrows _ => { waiting with
            posted := s'.posted ++ [⟨worker, s.jobCounter, s.promises, request⟩] } := by
  cases s with
  | mk worker => cases worker <;> cases submission <;> rfl

/-- A call whose job is not posted. -/
theorem Inv.reject {s : Jobs Request Result} (inv : s.Inv) (e : JsError) :
    (s.next.settle s.promises (.rejected e)).Inv := by
  have fresh : ¬ s.IsSettled s.promises := fun settled =>
    absurd (inv.settled_lt _ settled) (Nat.lt_irrefl _)
  constructor
  case newest => exact inv.newest
  case current => exact inv.current
  case pending_lt =>
    intro entry member
    have := inv.pending_lt entry member
    exact ⟨Nat.lt_succ_of_lt this.1, Nat.lt_succ_of_lt this.2⟩
  case posted_lt => exact fun job member => Nat.lt_succ_of_lt (inv.posted_lt job member)
  case settled_lt =>
    intro promise settled
    rcases isSettled_settle.mp settled with old | rfl
    · exact Nat.lt_succ_of_lt (inv.settled_lt promise old)
    · exact Nat.lt_succ_self _
  case distinct => exact inv.distinct
  case once => exact inv.nodup_settle fresh (.rejected e)
  case apart =>
    intro entry member settled
    rcases isSettled_settle.mp settled with old | same
    · exact inv.apart entry member old
    · have := (inv.pending_lt entry member).2
      omega
  case waits =>
    intro job member
    rcases inv.waits job member with waiting | settled
    · exact .inl waiting
    · exact .inr (isSettled_settle.mpr (.inl settled))

/-- The jobs that waited keep on waiting for another. -/
theorem Inv.post {s : Jobs Request Result} (inv : s.Inv) {worker : Nat}
    (current : s.worker = some worker) (request : Request) :
    ({ s.next with
        pending := s.pending ++ [(s.jobCounter, s.promises)]
        posted := s.posted ++ [⟨worker, s.jobCounter, s.promises, request⟩] } :
      Jobs Request Result).Inv := by
  constructor
  case newest => exact inv.newest
  case current =>
    intro entry member
    rcases List.mem_append.mp member with old | new
    · obtain ⟨job, inside, same⟩ := inv.current entry old
      exact ⟨job, List.mem_append_left _ inside, same⟩
    · rw [List.mem_singleton.mp new]
      exact ⟨_, List.mem_append_right _ List.mem_cons_self, current, rfl, rfl⟩
  case pending_lt =>
    intro entry member
    rcases List.mem_append.mp member with old | new
    · have := inv.pending_lt entry old
      exact ⟨Nat.lt_succ_of_lt this.1, Nat.lt_succ_of_lt this.2⟩
    · rw [List.mem_singleton.mp new]
      exact ⟨Nat.lt_succ_self _, Nat.lt_succ_self _⟩
  case posted_lt =>
    intro job member
    rcases List.mem_append.mp member with old | new
    · exact Nat.lt_succ_of_lt (inv.posted_lt job old)
    · rw [List.mem_singleton.mp new]
      exact Nat.lt_succ_self _
  case settled_lt => exact fun promise settled => Nat.lt_succ_of_lt (inv.settled_lt promise settled)
  case distinct =>
    exact ⟨nodup_map_concat inv.distinct.1 fun entry member => (inv.pending_lt entry member).1,
      nodup_map_concat inv.distinct.2 fun entry member => (inv.pending_lt entry member).2⟩
  case once => exact inv.once
  case apart =>
    intro entry member settled
    rcases List.mem_append.mp member with old | new
    · exact inv.apart entry old settled
    · rw [List.mem_singleton.mp new] at settled
      exact absurd (inv.settled_lt _ settled) (Nat.lt_irrefl _)
  case waits =>
    intro job member
    rcases List.mem_append.mp member with old | new
    · rcases inv.waits job old with waiting | settled
      · rw [List.map_append]
        exact .inl (List.mem_append_left _ waiting)
      · exact .inr settled
    · rw [List.mem_singleton.mp new, List.map_append]
      exact .inl (List.mem_append_right _ List.mem_cons_self)

theorem Inv.runJob {s : Jobs Request Result} (inv : s.Inv) (request : Request)
    (submission : Submission) : (s.runJob request submission).Inv := by
  rw [runJob_eq]
  cases made : s.getWorker submission with
  | error e => exact inv.reject e
  | ok made' =>
    obtain ⟨worker, s'⟩ := made'
    obtain ⟨inv', current, -, counter, promises⟩ := inv.getWorker made
    rw [← counter, ← promises]
    have unsent : (s'.pending ++ [(s'.jobCounter, s'.promises)]).filter
        (fun entry => entry.1 ≠ s'.jobCounter) = s'.pending := by
      rw [List.filter_append, List.filter_eq_self.mpr]
      · simp
      · intro entry member
        have := (inv'.pending_lt entry member).1
        simp only [ne_eq, decide_eq_true_eq]
        omega
    cases submission with
    | postThrows e =>
      have same := inv'.reject e
      simp only [delete, unsent]
      exact same
    | succeeds => exact inv'.post current request
    | workerThrows e => exact inv'.post current request

/-- What the listener for messages does: the job with the id of the message is taken out
and settled. -/
theorem onMessage_cases (client : WorkerClient Payload Result) (s : Jobs Request Result)
    (message : OutMessage Payload) :
    s.onMessage client message = s ∨
    ∃ promise settlement, (message.jobId, promise) ∈ s.pending ∧
      s.onMessage client message = (s.delete message.jobId).settle promise settlement ∧
      ∀ result, settlement = .resolved result →
        ∃ payload, message.body = .ok payload ∧ result = client.toResult payload := by
  rw [onMessage]
  cases found : s.pending.find? (fun entry => entry.1 = message.jobId) with
  | none => exact .inl rfl
  | some entry =>
    obtain ⟨jobId, promise⟩ := entry
    have member := List.mem_of_find?_eq_some found
    have same : jobId = message.jobId := by simpa using List.find?_some found
    rw [same] at member
    cases body : message.body with
    | error text => exact .inr ⟨promise, _, member, rfl, fun result no => by cases no⟩
    | ok payload =>
      refine .inr ⟨promise, _, member, rfl, fun result yes => ⟨payload, rfl, ?_⟩⟩
      cases yes
      rfl

/-- A job that waits is taken out and settled. -/
theorem Inv.finish {s : Jobs Request Result} (inv : s.Inv) {jobId promise : Nat}
    (member : (jobId, promise) ∈ s.pending) (settlement : Settlement Result) :
    ((s.delete jobId).settle promise settlement).Inv := by
  have kept : ∀ entry ∈ (s.delete jobId).pending, entry ∈ s.pending ∧ entry.1 ≠ jobId := by
    intro entry inside
    obtain ⟨inside, other⟩ := List.mem_filter.mp inside
    exact ⟨inside, of_decide_eq_true other⟩
  have other : ∀ entry ∈ (s.delete jobId).pending, entry.2 ≠ promise := by
    intro entry inside same
    have first := List.inj_on_of_nodup_map inv.distinct.2 (kept entry inside).1 member same
    exact (kept entry inside).2 (congrArg Prod.fst first)
  constructor
  case newest => exact inv.newest
  case current => exact fun entry inside => inv.current entry (kept entry inside).1
  case pending_lt => exact fun entry inside => inv.pending_lt entry (kept entry inside).1
  case posted_lt => exact inv.posted_lt
  case settled_lt =>
    intro p settled
    rcases isSettled_settle.mp settled with old | rfl
    · exact inv.settled_lt p old
    · exact (inv.pending_lt _ member).2
  case distinct =>
    have part := List.filter_sublist (p := fun entry : Nat × Nat => entry.1 ≠ jobId) (l := s.pending)
    exact ⟨inv.distinct.1.sublist (part.map _), inv.distinct.2.sublist (part.map _)⟩
  case once => exact inv.nodup_settle (inv.apart _ member) settlement
  case apart =>
    intro entry inside settled
    rcases isSettled_settle.mp settled with old | same
    · exact inv.apart entry (kept entry inside).1 old
    · exact other entry inside same
  case waits =>
    intro job posted
    by_cases mine : job.promise = promise
    · exact .inr (isSettled_settle.mpr (.inr mine))
    · rcases inv.waits job posted with waiting | settled
      · obtain ⟨entry, inside, same⟩ := List.mem_map.mp waiting
        refine .inl (List.mem_map.mpr ⟨entry, List.mem_filter.mpr ⟨inside, decide_eq_true ?_⟩, same⟩)
        intro id
        have first := List.inj_on_of_nodup_map inv.distinct.1 inside member id
        exact mine (same ▸ congrArg Prod.snd first)
      · exact .inr (isSettled_settle.mpr (.inl settled))

theorem Inv.onMessage {s : Jobs Request Result} (inv : s.Inv)
    (client : WorkerClient Payload Result) (message : OutMessage Payload) :
    (s.onMessage client message).Inv := by
  rcases onMessage_cases client s message with same | ⟨promise, settlement, member, same, -⟩
  · rw [same]
    exact inv
  · rw [same]
    exact inv.finish member settlement

theorem isSettled_onError {client : WorkerClient Payload Result} {s : Jobs Request Result}
    {message : Option String} {p : Nat} :
    (s.onError client message).IsSettled p ↔ s.IsSettled p ∨ p ∈ s.pending.map Prod.snd := by
  rw [IsSettled, IsSettled, onError, List.map_append, List.mem_append, List.map_map]
  rfl

theorem Inv.onError {s : Jobs Request Result} (inv : s.Inv)
    (client : WorkerClient Payload Result) (message : Option String) :
    (s.onError client message).Inv := by
  constructor
  · intro worker current
    cases current
  · intro entry member
    cases member
  · intro entry member
    cases member
  · exact inv.posted_lt
  · intro p settled
    rcases isSettled_onError.mp settled with old | waiting
    · exact inv.settled_lt p old
    · obtain ⟨entry, member, rfl⟩ := List.mem_map.mp waiting
      exact (inv.pending_lt entry member).2
  · exact ⟨List.nodup_nil, List.nodup_nil⟩
  · have both : (s.settled.map Prod.fst ++ s.pending.map Prod.snd).Nodup := by
      rw [List.nodup_append]
      refine ⟨inv.once, inv.distinct.2, fun a old b waiting same => ?_⟩
      obtain ⟨entry, member, rfl⟩ := List.mem_map.mp waiting
      exact inv.apart entry member (same ▸ old)
    simpa [Jobs.onError, Function.comp_def] using both
  · intro entry member
    cases member
  · intro job posted
    rcases inv.waits job posted with waiting | settled
    · exact .inr (isSettled_onError.mpr (.inr waiting))
    · exact .inr (isSettled_onError.mpr (.inl settled))

theorem step_submit {client : WorkerClient Payload Result} {s t : Jobs Request Result}
    {request : Request} {submission : Submission}
    (taken : s.step client (.submit request submission) = some t) :
    t = s.runJob request submission := by
  cases submission with
  | workerThrows e =>
    rw [step] at taken
    split at taken
    · exact (Option.some.inj taken).symm
    · cases taken
  | succeeds => exact (Option.some.inj taken).symm
  | postThrows e => exact (Option.some.inj taken).symm

theorem Inv.step {client : WorkerClient Payload Result} {s t : Jobs Request Result} (inv : s.Inv)
    {a : JobAction Request Payload} (taken : s.step client a = some t) : t.Inv := by
  cases a with
  | submit request submission =>
    rw [step_submit taken]
    exact inv.runJob request submission
  | reply worker message =>
    rw [Jobs.step] at taken
    split at taken
    · rw [← Option.some.inj taken]
      exact inv.onMessage client message
    · cases taken
  | error worker message =>
    rw [Jobs.step] at taken
    split at taken
    · rw [← Option.some.inj taken]
      exact inv.onError client message
    · cases taken

/-! ## Routing -/

theorem inv_of_run {client : WorkerClient Payload Result}
    {acts : List (JobAction Request Payload)} {s : Jobs Request Result}
    (reached : Machine.run (Jobs.step client) start acts = some s) : s.Inv :=
  Machine.run_invariant (fun _ _ _ inv taken => inv.step taken) inv_start reached

/-- What should hold of a step: a promise is resolved by the reply with the id of its
job, and an error of a worker concerns the jobs of that worker only. -/
structure StepRouted (client : WorkerClient Payload Result) (s : Jobs Request Result)
    (a : JobAction Request Payload) (t : Jobs Request Result) : Prop where
  resolved : ∀ promise result, (promise, .resolved result) ∈ t.settled →
    (promise, .resolved result) ∈ s.settled ∨
    ∃ worker message payload, a = .reply worker message ∧ message.body = .ok payload ∧
      result = client.toResult payload ∧
      ∃ job ∈ s.posted, job.promise = promise ∧ job.jobId = message.jobId
  rejected : ∀ worker message, a = .error worker message → ∀ promise, ¬ s.IsSettled promise →
    ((∃ e, (promise, .rejected e) ∈ t.settled) ↔ s.PostedTo worker promise)
  keeps : ∀ worker message newer, a = .error worker message → worker < newer →
    s.worker = some newer → t.worker = some newer

/-- An error of a worker comes while another worker is the current one. -/
def ErrorOfOther (s : Jobs Request Result) (a : JobAction Request Payload) : Prop :=
  ∃ worker message other, a = .error worker message ∧ s.worker = some other ∧ other ≠ worker

theorem settled_runJob {s : Jobs Request Result} (inv : s.Inv) (request : Request)
    (submission : Submission) :
    (s.runJob request submission).settled = s.settled ∨
    ∃ e, (s.runJob request submission).settled = s.settled ++ [(s.promises, .rejected e)] := by
  rw [runJob_eq]
  cases made : s.getWorker submission with
  | error e => exact .inr ⟨e, rfl⟩
  | ok made' =>
    obtain ⟨-, -, settled, -⟩ := inv.getWorker made
    rw [← settled]
    cases submission with
    | postThrows e => exact .inr ⟨e, rfl⟩
    | succeeds => exact .inl rfl
    | workerThrows e => exact .inl rfl

theorem mem_settle_iff {s : Jobs Request Result} {promise p : Nat}
    {settlement x : Settlement Result} :
    (p, x) ∈ (s.settle promise settlement).settled ↔
      (p, x) ∈ s.settled ∨ p = promise ∧ x = settlement := by
  rw [settle, List.mem_append, List.mem_singleton, Prod.mk.injEq]

/-- Whatever the step, a promise is resolved by the reply with the id of its job. -/
theorem Inv.resolved {client : WorkerClient Payload Result} {s t : Jobs Request Result}
    (inv : s.Inv) {a : JobAction Request Payload} (taken : s.step client a = some t)
    {promise : Nat} {result : Result} (member : (promise, .resolved result) ∈ t.settled) :
    (promise, .resolved result) ∈ s.settled ∨
    ∃ worker message payload, a = .reply worker message ∧ message.body = .ok payload ∧
      result = client.toResult payload ∧
      ∃ job ∈ s.posted, job.promise = promise ∧ job.jobId = message.jobId := by
  cases a with
  | submit request submission =>
    left
    rw [step_submit taken] at member
    rcases settled_runJob inv request submission with same | ⟨e, same⟩
    · rwa [same] at member
    · rw [same, List.mem_append, List.mem_singleton] at member
      exact member.resolve_right fun new => by cases new
  | reply worker message =>
    rw [Jobs.step] at taken
    split at taken
    · rw [← Option.some.inj taken] at member
      rcases onMessage_cases client s message with same | ⟨p, settlement, waiting, same, from_⟩
      · rw [same] at member
        exact .inl member
      · rw [same, mem_settle_iff] at member
        rcases member with old | ⟨rfl, new⟩
        · exact .inl old
        · obtain ⟨payload, body, value⟩ := from_ result new.symm
          obtain ⟨job, posted, -, id, mine⟩ := inv.current _ waiting
          exact .inr ⟨worker, message, payload, rfl, body, value, job, posted, mine, id⟩
    · cases taken
  | error worker message =>
    left
    rw [Jobs.step] at taken
    split at taken
    · rw [← Option.some.inj taken, Jobs.onError, List.mem_append] at member
      refine member.resolve_right fun new => ?_
      obtain ⟨entry, -, same⟩ := List.mem_map.mp new
      cases same
    · cases taken

theorem rejected_onError {client : WorkerClient Payload Result} {s : Jobs Request Result}
    {message : Option String} {promise : Nat} (unsettled : ¬ s.IsSettled promise) :
    (∃ e, (promise, .rejected e) ∈ (s.onError client message).settled) ↔
      promise ∈ s.pending.map Prod.snd := by
  constructor
  · rintro ⟨e, member⟩
    exact (isSettled_onError.mp (List.mem_map_of_mem member)).resolve_left unsettled
  · intro waiting
    obtain ⟨entry, member, rfl⟩ := List.mem_map.mp waiting
    exact ⟨_, List.mem_append_right _ (List.mem_map.mpr ⟨entry, member, rfl⟩)⟩

/-- A step goes wrong exactly when it is an error of a worker that is not the current one,
while there is a current one. -/
theorem Inv.stepRouted_iff {client : WorkerClient Payload Result} {s t : Jobs Request Result}
    (inv : s.Inv) {a : JobAction Request Payload} (taken : s.step client a = some t) :
    StepRouted client s a t ↔ ¬ ErrorOfOther s a := by
  constructor
  · rintro routed ⟨worker, message, other, rfl, current, different⟩
    rw [Jobs.step] at taken
    split at taken
    · rename_i made
      have newest := inv.newest other current
      have kept := routed.keeps worker message other rfl (by omega) current
      rw [← Option.some.inj taken] at kept
      cases kept
    · cases taken
  · intro mine
    refine ⟨fun _ _ member => inv.resolved taken member, ?_, ?_⟩
    · rintro worker message rfl promise unsettled
      rw [Jobs.step] at taken
      split at taken
      · rw [← Option.some.inj taken, rejected_onError unsettled]
        constructor
        · intro waiting
          obtain ⟨entry, member, rfl⟩ := List.mem_map.mp waiting
          obtain ⟨job, posted, current, -, same⟩ := inv.current entry member
          refine ⟨job, posted, same, ?_⟩
          by_contra other
          exact mine ⟨worker, message, job.worker, rfl, current, other⟩
        · rintro ⟨job, posted, rfl, -⟩
          exact (inv.waits job posted).resolve_right unsettled
      · cases taken
    · rintro worker message newer rfl older current
      exact absurd ⟨worker, message, newer, rfl, current, by omega⟩ mine

end Jobs

/-- Each promise is settled at most once, and each step is routed well, in exactly the
runs in which no error of a worker comes while another worker is the current one. -/
theorem jobs_routed_iff (client : WorkerClient Payload Result)
    {acts : List (JobAction Request Payload)} {s : Jobs Request Result}
    (reached : Machine.run (Jobs.step client) Jobs.start acts = some s) :
    ((s.settled.map Prod.fst).Nodup ∧
      Machine.EachStep (Jobs.step client) (Jobs.StepRouted client) Jobs.start acts) ↔
    ¬ Machine.Takes (Jobs.step client) Jobs.ErrorOfOther Jobs.start acts := by
  have steps := Machine.eachStep_iff reached (P := Jobs.StepRouted client)
    (Q := Jobs.ErrorOfOther) fun before m a t hm taken => (Jobs.inv_of_run hm).stepRouted_iff taken
  rw [steps]
  exact and_iff_right (Jobs.inv_of_run reached).once

/-- Two jobs, the second on a new worker after the first worker failed, and the first
worker fails again. -/
def lateError (request : Request) : List (JobAction Request Payload) :=
  [.submit request .succeeds, .error 0 none, .submit request .succeeds, .error 0 none]

/-- The second job is rejected and its worker is dropped. -/
theorem lateError_misrouted (client : WorkerClient Payload Result) (request : Request) :
    ¬ Machine.EachStep (Jobs.step client) (Jobs.StepRouted client) Jobs.start
      (lateError request) := by
  intro each
  have last := each [.submit request .succeeds, .error 0 none, .submit request .succeeds]
    (.error 0 none) [] _ _ rfl rfl rfl
  cases last.keeps 0 none 1 rfl (by decide) rfl

theorem jobs_misrouted :
    ¬ Machine.EachStep (Jobs.step (JsonParse.client Nat Nat))
      (Jobs.StepRouted (JsonParse.client Nat Nat)) Jobs.start
      (lateError ⟨"{}".toList, ParseMode.json⟩ : List (JobAction JsonRequest (JsonPayload Nat Nat))) ∧
    ¬ Machine.EachStep (Jobs.step MarkupFormat.client) (Jobs.StepRouted MarkupFormat.client)
      Jobs.start
      (lateError ⟨"<a>".toList, MarkupKind.html⟩ : List (JobAction MarkupRequest MarkupPayload)) :=
  ⟨lateError_misrouted _ _, lateError_misrouted _ _⟩

/-- A job and its reply, then the error of the worker that is the current one. -/
def repliedJob : List (JobAction MarkupRequest MarkupPayload) :=
  [.submit ⟨"<a>".toList, .html⟩ .succeeds, .reply 0 ⟨0, .ok ⟨[], []⟩⟩, .error 0 none]

theorem jobs_routed_iff_repliedJob : ∃ s,
    Machine.run (Jobs.step MarkupFormat.client) Jobs.start repliedJob = some s ∧
    (((s.settled.map Prod.fst).Nodup ∧
      Machine.EachStep (Jobs.step MarkupFormat.client) (Jobs.StepRouted MarkupFormat.client)
        Jobs.start repliedJob) ↔
    ¬ Machine.Takes (Jobs.step MarkupFormat.client) Jobs.ErrorOfOther Jobs.start repliedJob) :=
  ⟨_, rfl, jobs_routed_iff MarkupFormat.client rfl⟩

end Protospy
