import Protospy.Lib.Machine
import Protospy.Proxy.Exchange
import Protospy.Proxy.Monitor

/-!
# The tasks of the process (`main.rs`, `service.rs`)

`main` puts the accept loop of every service and the observers of every service
into one task set and waits for a signal or for the first task of the set to
end. A run starts where it waits. Connections are tasks of their own, which
nobody joins. An action is one turn of one of the loops, and carries what the
operating system answers in that turn.
-/

namespace Protospy

open Machine (run run_takes Takes)

/-- The part of the configuration that decides which tasks there are. -/
structure Config where
  proxy : List Service
  printMessages : Bool
  recordExamples : Bool

/-- `bound` once the accept loop has its listener; `clients` are the event
streams of the web server. -/
structure ServiceEntry where
  service : Service
  bound : Bool
  accepting : Task
  connections : List ConnInfo
  publisher : Publisher
  clients : Nat
  logger : Option (Observer Logger)
  recorder : Option (Observer Writer)

inductive ServiceAction where
  | bind (ok : Bool)
  | accept (peer : Option IpAddr) (spawns : Bool)
  | acceptFails
  | connectionEnds (index : Nat) (error : Option HyperError)
  | publish (msg : EventMessage)
  | subscribe
  | unsubscribe
  | log (written : Bool)
  | record (written : Bool)

/-- `peer` is what `peer_addr` gives for the accepted socket. -/
def Service.handleConnection (service : Service) (peer : Option IpAddr) (spawns : Bool) :
    Except TaskError ConnInfo :=
  match peer with
  | none => .error .peerAddr
  | some client =>
    if spawns then
      .ok ⟨service.target.uri.scheme.get service.target.hasScheme, client⟩
    else .error .spawn

namespace ServiceEntry

def start (config : Config) (service : Service) : ServiceEntry where
  service := service
  bound := false
  accepting := .running
  connections := []
  publisher := .new
  clients := 0
  logger := if config.printMessages then some ⟨Publisher.new.subscribe, ⟨[]⟩, .running⟩ else none
  recorder :=
    if config.recordExamples then some ⟨Publisher.new.subscribe, .new, .running⟩ else none

/-- The receivers of the channel; an observer that has ended has dropped its own. -/
def listenerCount (e : ServiceEntry) : Nat :=
  e.clients + (if e.logger.any (·.task.isRunning) then 1 else 0) +
    if e.recorder.any (·.task.isRunning) then 1 else 0

def step (e : ServiceEntry) : ServiceAction → Option ServiceEntry
  | .bind ok =>
    if e.accepting.isRunning ∧ ¬ e.bound then
      some (if ok then { e with bound := true } else { e with accepting := .ended .bind })
    else none
  | .accept peer spawns =>
    if e.accepting.isRunning ∧ e.bound then
      match e.service.handleConnection peer spawns with
      | .ok conn => some { e with connections := e.connections ++ [conn] }
      | .error err => some { e with accepting := .ended err }
    else none
  | .acceptFails =>
    if e.accepting.isRunning ∧ e.bound then some { e with accepting := .ended .accept } else none
  -- the result of a connection is logged and goes nowhere else
  | .connectionEnds index _ =>
    if index < e.connections.length then
      some { e with connections := e.connections.eraseIdx index }
    else none
  -- sending to nobody fails and keeps nothing
  | .publish msg =>
    if e.listenerCount = 0 then some e else some { e with publisher := e.publisher.send msg }
  | .subscribe => some { e with clients := e.clients + 1 }
  | .unsubscribe => if 0 < e.clients then some { e with clients := e.clients - 1 } else none
  | .log written => e.logger.bind fun o =>
    (o.turn (fun l => l.body written) e.publisher).map fun o => { e with logger := some o }
  | .record written => e.recorder.bind fun o =>
    (o.turn (fun w => w.body written) e.publisher).map fun o => { e with recorder := some o }

end ServiceEntry

/-- The three kinds of task in the task set. -/
inductive TaskName where
  | service
  | logger
  | recorder

/-- The error with which a task has ended. -/
def ServiceEntry.ended (e : ServiceEntry) : TaskName → Option TaskError
  | .service => e.accepting.error?
  | .logger => e.logger.bind (·.task.error?)
  | .recorder => e.recorder.bind (·.task.error?)

/-- `exit` is what `main` returned; until then it waits. -/
structure Process where
  services : List ServiceEntry
  exit : Option (Except TaskError Unit)

/-- `joinNext` and `signal` are the branches of the `select!` in `main`. -/
inductive Action where
  | service (index : Nat) (action : ServiceAction)
  | joinNext (index : Nat) (task : TaskName)
  | signal

namespace Process

def start (config : Config) : Option Process :=
  if config.proxy.isEmpty then none
  else some ⟨config.proxy.map (ServiceEntry.start config), none⟩

/-- When `main` has returned, the runtime is gone and with it every task. -/
def step (p : Process) (a : Action) : Option Process :=
  match p.exit with
  | some _ => none
  | none => match a with
    | .service index action => (p.services[index]?).bind fun e =>
      (e.step action).map fun e => { p with services := p.services.set index e }
    | .joinNext index task => (p.services[index]?).bind fun e =>
      (e.ended task).map fun err => { p with exit := some (.error err) }
    | .signal => some { p with exit := some (.ok ()) }

end Process

/-! ## One service -/

/-- The listener fails: to be bound, or to accept. -/
def ServiceAction.IsListenerFailure : ServiceAction → Prop
  | .bind ok => ok = false
  | .acceptFails => True
  | _ => False

namespace ServiceEntry

/-- Every task of the service is running. -/
def Up (e : ServiceEntry) : Prop :=
  e.accepting.isRunning = true ∧ (∀ o ∈ e.logger, o.task.isRunning = true) ∧
    ∀ o ∈ e.recorder, o.task.isRunning = true

/-- The steps that end a task although the listener works. -/
def Fatal (e : ServiceEntry) : ServiceAction → Prop
  | .accept peer spawns => peer = none ∨ spawns = false
  | .log written => ∃ o ∈ e.logger, o.Fails e.publisher written
  | .record written => ∃ o ∈ e.recorder, o.Fails e.publisher written
  | _ => False

theorem handleConnection_isSome (service : Service) (peer : Option IpAddr) (spawns : Bool) :
    (service.handleConnection peer spawns).toOption.isSome = true ↔
      ¬ (peer = none ∨ spawns = false) := by
  cases peer <;> cases spawns <;> simp [Service.handleConnection, Except.toOption]

theorem up_start (config : Config) (service : Service) : (start config service).Up := by
  refine ⟨rfl, ?_, ?_⟩
  · intro o ho
    by_cases prints : config.printMessages <;> simp [start, prints] at ho
    rw [← ho]
    rfl
  · intro o ho
    by_cases records : config.recordExamples <;> simp [start, records] at ho
    rw [← ho]
    rfl

theorem up_accept {e e' : ServiceEntry} {peer : Option IpAddr} {spawns : Bool}
    (h : e.step (.accept peer spawns) = some e') :
    e'.Up ↔ e.Up ∧ ¬ (peer = none ∨ spawns = false) := by
  rw [← handleConnection_isSome e.service]
  simp only [step] at h
  split at h
  · rename_i guard
    split at h
    · rename_i conn hc
      obtain rfl := Option.some.inj h
      simp [Up, hc, Except.toOption]
    · rename_i err hc
      obtain rfl := Option.some.inj h
      simp [Up, hc, Except.toOption, Task.isRunning]
  · cases h

/-- Exactly the listener's failures and the fatal steps end a task. -/
theorem up_step {e e' : ServiceEntry} {a : ServiceAction} (h : e.step a = some e') :
    e'.Up ↔ e.Up ∧ ¬ (a.IsListenerFailure ∨ e.Fatal a) := by
  cases a with
  | bind ok =>
    simp only [step, Option.ite_none_right_eq_some, Option.some.injEq] at h
    obtain ⟨-, rfl⟩ := h
    cases ok <;> simp [Up, ServiceAction.IsListenerFailure, Fatal, Task.isRunning]
  | accept peer spawns => simpa [ServiceAction.IsListenerFailure, Fatal] using up_accept h
  | acceptFails =>
    simp only [step, Option.ite_none_right_eq_some, Option.some.injEq] at h
    obtain ⟨-, rfl⟩ := h
    simp [Up, ServiceAction.IsListenerFailure, Task.isRunning]
  | connectionEnds index error =>
    simp only [step, Option.ite_none_right_eq_some, Option.some.injEq] at h
    obtain ⟨-, rfl⟩ := h
    simp [Up, ServiceAction.IsListenerFailure, Fatal]
  | publish msg =>
    have tasks : e'.Up ↔ e.Up := by
      simp only [step] at h
      split at h <;> obtain rfl := Option.some.inj h <;> rfl
    simp [tasks, ServiceAction.IsListenerFailure, Fatal]
  | subscribe =>
    obtain rfl := Option.some.inj h
    simp [Up, ServiceAction.IsListenerFailure, Fatal]
  | unsubscribe =>
    simp only [step, Option.ite_none_right_eq_some, Option.some.injEq] at h
    obtain ⟨-, rfl⟩ := h
    simp [Up, ServiceAction.IsListenerFailure, Fatal]
  | log written =>
    obtain ⟨o, ho, h⟩ := Option.bind_eq_some_iff.mp h
    obtain ⟨o', turned, rfl⟩ := Option.map_eq_some_iff.mp h
    have running := Observer.turn_running_iff (Logger.body_isSome written) turned
    simp only [Up, ServiceAction.IsListenerFailure, Fatal, ho, Option.mem_def, Option.some.injEq,
      forall_eq', exists_eq_left', false_or, running]
    tauto
  | record written =>
    obtain ⟨o, ho, h⟩ := Option.bind_eq_some_iff.mp h
    obtain ⟨o', turned, rfl⟩ := Option.map_eq_some_iff.mp h
    have running := Observer.turn_running_iff (Writer.body_isSome written) turned
    simp only [Up, ServiceAction.IsListenerFailure, Fatal, ho, Option.mem_def, Option.some.injEq,
      forall_eq', exists_eq_left', false_or, running]
    tauto

theorem up_iff (e : ServiceEntry) : e.Up ↔ ∀ task, e.ended task = none := by
  have accepting : ∀ t : Task, t.isRunning = true ↔ t.error? = none := by
    intro t
    cases t <;> simp [Task.isRunning, Task.error?]
  constructor
  · rintro ⟨accepts, logs, records⟩ task
    cases task with
    | service => exact (accepting _).mp accepts
    | logger => exact Option.bind_eq_none_iff.mpr fun o ho => (accepting _).mp (logs o ho)
    | recorder => exact Option.bind_eq_none_iff.mpr fun o ho => (accepting _).mp (records o ho)
  · intro none
    exact ⟨(accepting _).mpr (none .service),
      fun o ho => (accepting _).mpr (Option.bind_eq_none_iff.mp (none .logger) o ho),
      fun o ho => (accepting _).mpr (Option.bind_eq_none_iff.mp (none .recorder) o ho)⟩

end ServiceEntry

/-! ## The process -/

/-- The actions the process is meant to end by. -/
def Action.StopsProxy : Action → Prop
  | .service _ action => action.IsListenerFailure
  | .joinNext _ _ => False
  | .signal => True

namespace Process

/-- `main` waits and every accept loop runs. -/
def Accepts (p : Process) : Prop :=
  p.exit.isNone = true ∧ ∀ e ∈ p.services, e.accepting.isRunning = true

def Fatal (p : Process) : Action → Prop
  | .service index action => ∃ e, p.services[index]? = some e ∧ e.Fatal action
  | _ => False

/-- `main` waits and every task of its set runs. -/
def Up (p : Process) : Prop := p.exit.isNone = true ∧ ∀ e ∈ p.services, e.Up

theorem up_start {config : Config} {p : Process} (h : start config = some p) : p.Up := by
  rw [start] at h
  split at h
  · cases h
  · obtain rfl := Option.some.inj h
    refine ⟨rfl, fun e he => ?_⟩
    obtain ⟨service, -, rfl⟩ := List.mem_map.mp he
    exact ServiceEntry.up_start config service

theorem step_exit {p p' : Process} {a : Action} (h : p.step a = some p') : p.exit = none := by
  unfold step at h
  split at h
  · cases h
  · assumption

theorem step_service {p p' : Process} {index : Nat} {action : ServiceAction}
    (h : p.step (.service index action) = some p') :
    ∃ e e', p.services[index]? = some e ∧ e.step action = some e' ∧
      p' = ⟨p.services.set index e', none⟩ := by
  simp only [step, step_exit h] at h
  obtain ⟨e, he, h⟩ := Option.bind_eq_some_iff.mp h
  obtain ⟨e', turned, rfl⟩ := Option.map_eq_some_iff.mp h
  exact ⟨e, e', he, turned, rfl⟩

theorem step_joinNext {p p' : Process} {index : Nat} {task : TaskName}
    (h : p.step (.joinNext index task) = some p') :
    ∃ e err, p.services[index]? = some e ∧ e.ended task = some err ∧
      p' = { p with exit := some (.error err) } := by
  simp only [step, step_exit h] at h
  obtain ⟨e, he, h⟩ := Option.bind_eq_some_iff.mp h
  obtain ⟨err, failed, rfl⟩ := Option.map_eq_some_iff.mp h
  exact ⟨e, err, he, failed, rfl⟩

/-- The tasks all run exactly when no turn so far has ended one. -/
theorem up_step {p p' : Process} {a : Action} (h : p.step a = some p') :
    p'.Up ↔ p.Up ∧ ¬ (a.StopsProxy ∨ p.Fatal a) := by
  have waits := step_exit h
  cases a with
  | service index action =>
    obtain ⟨e, e', he, turned, rfl⟩ := step_service h
    have each := ServiceEntry.up_step turned
    obtain ⟨inside, hget⟩ := List.getElem?_eq_some_iff.mp he
    have fatal : p.Fatal (.service index action) ↔ e.Fatal action := by simp [Fatal, he]
    simp only [Up, waits, Option.isNone_none, true_and, Action.StopsProxy, fatal]
    constructor
    · intro ups
      have here := each.mp (ups e' (List.mem_set inside e'))
      refine ⟨fun other hother => ?_, here.2⟩
      obtain ⟨k, bound, rfl⟩ := List.mem_iff_getElem.mp hother
      by_cases same : index = k
      · subst same
        exact hget ▸ here.1
      · exact ups _ (List.mem_iff_getElem.mpr ⟨k, by simpa using bound, by simp [same]⟩)
    · rintro ⟨ups, fine⟩ other hother
      rcases List.mem_or_eq_of_mem_set hother with old | rfl
      · exact ups other old
      · exact each.mpr ⟨ups e (List.mem_of_getElem? he), fine⟩
  | joinNext index task =>
    obtain ⟨e, err, he, failed, rfl⟩ := step_joinNext h
    have down : ¬ e.Up := by
      rw [ServiceEntry.up_iff]
      intro running
      simp [running task] at failed
    have gone : ¬ Up { p with exit := some (.error err) } := fun up => by cases up.1
    exact iff_of_false gone fun both => down (both.1.2 e (List.mem_of_getElem? he))
  | signal =>
    simp only [step, waits, Option.some.injEq] at h
    simp [← h, Up, Action.StopsProxy]

/-- All tasks run exactly when the process accepts and `main` has none to join. -/
theorem up_iff (p : Process) :
    p.Up ↔ p.Accepts ∧ ∀ index task, p.step (.joinNext index task) = none := by
  constructor
  · intro up
    refine ⟨⟨up.1, fun e he => (up.2 e he).1⟩, fun index task => ?_⟩
    rw [Option.eq_none_iff_forall_ne_some]
    intro p' h
    obtain ⟨e, err, he, failed, -⟩ := step_joinNext h
    have running := (ServiceEntry.up_iff e).mp (up.2 e (List.mem_of_getElem? he)) task
    simp [running] at failed
  · rintro ⟨⟨waits, -⟩, refused⟩
    refine ⟨waits, fun e he => (ServiceEntry.up_iff e).mpr fun task => ?_⟩
    obtain ⟨index, bound, rfl⟩ := List.mem_iff_getElem.mp he
    have none := refused index task
    simpa [step, Option.isNone_iff_eq_none.mp waits, bound] using none

/-- As long as the listeners work and nobody stops it, the process accepts and
`main` has nothing to join exactly when no step was fatal; joining ends it. -/
theorem keeps_serving_iff {config : Config} {p t : Process} {acts : List Action}
    (started : start config = some p) (ran : run step p acts = some t)
    (undisturbed : ∀ a ∈ acts, ¬ a.StopsProxy) :
    ((t.Accepts ∧ ∀ index task, t.step (.joinNext index task) = none) ↔
        ¬ Takes step Fatal p acts) ∧
      ∀ index task t', t.step (.joinNext index task) = some t' → ¬ t'.Accepts := by
  have up := up_start started
  constructor
  · rw [← up_iff, ← not_iff_not, not_not]
    refine run_takes (P := fun p => ¬ p.Up) ran (not_not.mpr up) undisturbed ?_
    intro m a m' kept taken
    rw [up_step taken, not_and_or, not_not]
    simp [kept]
  · intro index task t' joined
    obtain ⟨e, err, -, -, rfl⟩ := step_joinNext joined
    simp [Accepts]

section Reset

private def apiTarget : Target := ⟨⟨some "https", "api", "/"⟩, rfl, by decide⟩

private def logged : Config := ⟨[⟨apiTarget⟩], true, false⟩

private def hello : EventMessage := ⟨⟨1, ""⟩, .request, .error .request "reset"⟩

private def printing : List Action :=
  [.service 0 (.bind true), .service 0 (.accept (some (.v4 ![127, 0, 0, 1])) true),
    .service 0 (.publish hello), .service 0 (.log true),
    .service 0 (.connectionEnds 0 (some ⟨"connection reset"⟩))]

/-- A client resets its connection after a message was printed. -/
theorem keeps_serving_printing :
    ∃ p t, start logged = some p ∧ run step p printing = some t ∧
      ((t.Accepts ∧ ∀ index task, t.step (.joinNext index task) = none) ↔
        ¬ Takes step Fatal p printing) := by
  refine ⟨_, _, rfl, rfl, (@keeps_serving_iff logged _ _ printing rfl rfl ?_).1⟩
  intro a ha
  simp only [printing, List.mem_cons, List.not_mem_nil, or_false] at ha
  rcases ha with rfl | rfl | rfl | rfl | rfl <;>
    simp [Action.StopsProxy, ServiceAction.IsListenerFailure]

private def resetEarly : List Action :=
  [.service 0 (.bind true), .service 0 (.accept none true), .joinNext 0 .service]

/-- A client that is gone before its connection is handled ends the process. -/
theorem keeps_serving_reset :
    (∀ a ∈ resetEarly, ¬ a.StopsProxy) ∧
      ∃ p t, start logged = some p ∧ run step p resetEarly = some t ∧
        t.exit = some (.error .peerAddr) ∧ ¬ t.Accepts := by
  refine ⟨?_, _, _, rfl, rfl, rfl, fun accepts => ?_⟩
  · intro a ha
    simp only [resetEarly, List.mem_cons, List.not_mem_nil, or_false] at ha
    rcases ha with rfl | rfl | rfl <;> simp [Action.StopsProxy, ServiceAction.IsListenerFailure]
  · cases accepts.1

end Reset

end Process

end Protospy
