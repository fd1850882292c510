import Borsa.Streaming.Controller
import Borsa.Streaming.SessionTask

/-!
# The task of a controller

`System` composes a supervisor with starts and sessions that are only names. Here they are the tasks
the controller really spawns: a start runs until its provider answers, the answer waits in a channel
until the controller receives it, a session is a `SessionTask`, and its end waits in another channel.
`session_tasks` remembers for each provider the session that was spawned last and holds its stop
signal; `perform` carries out the actions of a turn in order and stops where the source returns or
starts to wait.

What the controller sees of the stream around it are the `Signals`; they change from step to step.
A provider's stream is taken to stop once its handle asks it to.
-/

namespace Borsa

variable {K E : Type}

/-- Where the task of a controller is. -/
inductive ControllerPlace where
  /-- At its `select!`. -/
  | looping
  /-- In `AwaitAll`, waiting for its sessions. -/
  | awaiting
  /-- It has returned or was cancelled, and everything it held is dropped. -/
  | gone
  deriving DecidableEq

/-- A controller with everything it has spawned. -/
structure Controller (K E : Type) where
  sup : Supervisor K E
  /-- The starts that have not been answered. -/
  starting : List (Nat × List Symbol)
  /-- The answers not yet received: the provider's stream, or its error. -/
  answers : List (Nat × List Symbol × Option BorsaError)
  /-- The ends of sessions not yet received. -/
  sessionEnds : List (Nat × List Symbol)
  /-- Every session ever spawned, oldest first. -/
  tasks : List SessionTask
  /-- `session_tasks`: where in `tasks` the last session of each provider is. -/
  sessionTasks : Nat → Option Nat
  /-- `monotonic_gates`. -/
  gates : Nat → MonotonicGate
  /-- What was sent on `initial_notify`. -/
  report : Option (Except BorsaError Unit)
  /-- `JoinHandle::abort` was called. -/
  aborted : Bool
  place : ControllerPlace

namespace Controller

/-- The stop signals of these providers' sessions are sent, or their senders dropped. -/
def stopSessions (c : Controller K E) (sel : Nat → Bool) : Controller K E :=
  { c with
    tasks := c.tasks.mapIdx fun j t =>
      if sel t.id && c.sessionTasks t.id == some j then { t with sessionStop := true } else t }

/-- `SessionManager::spawn` and `session_tasks.insert`. An entry that is overwritten drops the stop
signal of its session. -/
def spawn (c : Controller K E) (id : Nat) (symbols : List Symbol) : Controller K E :=
  { c with
    tasks := (c.stopSessions (· == id)).tasks ++ [.new id symbols]
    sessionTasks := Function.update c.sessionTasks id (some c.tasks.length) }

/-- The task is over: what it held is dropped, the stop signals of its sessions among it. -/
def leave (c : Controller K E) : Controller K E :=
  { c.stopSessions (fun _ => true) with
    answers := []
    sessionEnds := []
    sessionTasks := fun _ => none
    place := .gone }

/-- Carries out the actions of a turn. -/
def perform (c : Controller K E) : List (Action K E) → Controller K E
  | [] => c
  | .requestStart id instruments :: rest =>
    perform { c with starting := c.starting ++ [(id, symbolsOf instruments)] } rest
  | .stopAll :: rest => perform (c.stopSessions fun _ => true) rest
  -- The source awaits the sessions here and returns.
  | .awaitAll :: _ => { c with place := .awaiting }
  | .notifyInitial _ result :: rest =>
    let c := { c with report := some result }
    match c.sup.phase with
    | .terminated => c.leave
    | _ => perform c rest
  | .scheduleBackoffTick _ :: rest => perform c rest
  | .preemptSessions providerIds :: rest =>
    perform (c.stopSessions fun id => providerIds.contains id) rest

/-- The arm of the `select!` that gives the event. -/
def receive (c : Controller K E) (e : Event) : Controller K E :=
  match e with
  | .providerStartSucceeded id symbols =>
    { c with answers := c.answers.tail }.spawn id symbols
  | .providerStartFailed .. => { c with answers := c.answers.tail }
  | .sessionEnded .. => { c with sessionEnds := c.sessionEnds.tail }
  | .backoffTick | .downstreamClosed | .shutdown => c

/-- One turn of the loop. -/
def turn (c : Controller K E) (e : Event) : Controller K E :=
  perform { c.receive e with sup := (c.sup.handle e).1 } (c.sup.handle e).2

/-- The events the `select!` can give. The timer may have elapsed at any time. -/
def Ready (c : Controller K E) (sig : Signals) : Event → Prop
  | .providerStartSucceeded id symbols => c.answers.head? = some (id, symbols, none)
  | .providerStartFailed id error => ∃ symbols, c.answers.head? = some (id, symbols, some error)
  | .sessionEnded id symbols => c.sessionEnds.head? = some (id, symbols)
  | .backoffTick => True
  | .downstreamClosed => sig.receiverDropped = true
  | .shutdown => sig.stopped = true ∨ sig.senderDropped = true

/-- The task of a start completes: its answer is sent to the controller, or dropped with the stream
in it when the controller is gone. -/
def answer (params : KindSupervisorParams K E) (c : Controller K E) (id : Nat)
    (symbols : List Symbol) (raised : Option BorsaError) : Controller K E :=
  let error := raised.map (tagErr ((params.providers[id]?.map (·.name)).getD ""))
  { c with
    starting := c.starting.erase (id, symbols)
    answers := if c.place = .gone then c.answers else c.answers ++ [(id, symbols, error)] }

/-- The task `j` is replaced. -/
def setTask (c : Controller K E) (j : Nat) (t : SessionTask) : Controller K E :=
  { c with tasks := c.tasks.set j t }

/-- The gate of provider `id` is replaced. -/
def setGate (c : Controller K E) (id : Nat) (gate : MonotonicGate) : Controller K E :=
  { c with gates := Function.update c.gates id gate }

/-- A session ended: the controller is told, unless it is gone or the session does not tell. -/
def tell (c : Controller K E) (t : SessionTask) (notify : Bool) : Controller K E :=
  { c with
    sessionEnds :=
      if notify = true ∧ c.place ≠ .gone then c.sessionEnds ++ [(t.id, t.symbols)]
      else c.sessionEnds }

/-- What a session of the controller is spawned with. -/
def sessionParams (params : KindSupervisorParams K E) (enforceMonotonic : Bool)
    (t : SessionTask) : SessionParams where
  sessionIndex := t.id
  allowed := params.providerAllow[t.id]?
  enforceMonotonic
  sessionSymbols := t.symbols

/-- A controller as it enters its loop; without providers it reports an error and returns. -/
def launch (params : KindSupervisorParams K E) : Controller K E :=
  let c : Controller K E :=
    { sup := (System.kick params).1
      starting := launched (System.kick params).2
      answers := []
      sessionEnds := []
      tasks := []
      sessionTasks := fun _ => none
      gates := fun _ => .new
      report := none
      aborted := false
      place := .looping }
  if params.providers.isEmpty then
    { c with
      starting := []
      report := params.initialNotify.map fun _ =>
        .error (collapseStreamErrors params.kind.capability [])
      place := .gone }
  else c

end Controller

/-- What can happen to a controller and its tasks. -/
inductive ControllerLabel where
  /-- A provider answers a start, with its stream or with an error. -/
  | answered (id : Nat) (symbols : List Symbol) (raised : Option BorsaError)
  /-- The controller takes a turn. -/
  | turn (e : Event)
  /-- All the awaited sessions have completed. -/
  | awaited
  | abort
  | cancelled
  /-- A provider sends updates to the session `j`. -/
  | arrive (j : Nat) (updates : List Update)
  /-- A provider ends the stream of the session `j`. -/
  | close (j : Nat)
  | poll (j : Nat) (now : Nat)
  | send (j : Nat)
  | finish (j : Nat)
  /-- The reaper of the gate of provider `id` runs. -/
  | reap (id : Nat) (now : Nat)

/-- One step of a controller and its tasks. The last argument is what is sent to the consumer, with
the provider whose session sent it. -/
inductive Controller.Step (params : KindSupervisorParams K E) (enforceMonotonic : Bool)
    (sig : Signals) :
    Controller K E → ControllerLabel → Controller K E → Option (Nat × Update) → Prop
  | answered {c : Controller K E} {id : Nat} {symbols : List Symbol} {raised : Option BorsaError}
      (h : (id, symbols) ∈ c.starting) :
      Step params enforceMonotonic sig c (.answered id symbols raised)
        (c.answer params id symbols raised) none
  | turn {c : Controller K E} {e : Event} (hp : c.place = .looping) (he : c.Ready sig e) :
      Step params enforceMonotonic sig c (.turn e) (c.turn e) none
  | awaited {c : Controller K E} (hp : c.place = .awaiting)
      (h : ∀ (id j : Nat) (t : SessionTask), c.sessionTasks id = some j → c.tasks[j]? = some t →
        t.Done) :
      Step params enforceMonotonic sig c .awaited c.leave none
  | abort {c : Controller K E} :
      Step params enforceMonotonic sig c .abort { c with aborted := true } none
  | cancelled {c : Controller K E} (ha : c.aborted = true) (hp : c.place ≠ .gone) :
      Step params enforceMonotonic sig c .cancelled c.leave none
  | arrive {c : Controller K E} {j : Nat} {t : SessionTask} {updates : List Update}
      (ht : c.tasks[j]? = some t) (hc : t.upstreamClosed = false) :
      Step params enforceMonotonic sig c (.arrive j updates)
        (c.setTask j { t with queue := t.queue ++ updates }) none
  | close {c : Controller K E} {j : Nat} {t : SessionTask} (ht : c.tasks[j]? = some t) :
      Step params enforceMonotonic sig c (.close j) (c.setTask j { t with upstreamClosed := true })
        none
  | poll {c : Controller K E} {j now : Nat} {t t' : SessionTask} {gate : MonotonicGate}
      (ht : c.tasks[j]? = some t)
      (h : t.poll (sessionParams params enforceMonotonic t) sig now (c.gates t.id) =
        some (t', gate)) :
      Step params enforceMonotonic sig c (.poll j now) ((c.setTask j t').setGate t.id gate) none
  | send {c : Controller K E} {j : Nat} {t t' : SessionTask} {sent : Option Update}
      (ht : c.tasks[j]? = some t) (h : t.send sig = some (t', sent)) :
      Step params enforceMonotonic sig c (.send j) (c.setTask j t') (sent.map fun u => (t.id, u))
  | finish {c : Controller K E} {j : Nat} {t t' : SessionTask} {gate : MonotonicGate}
      {notify : Bool} (ht : c.tasks[j]? = some t)
      (h : t.finish (sessionParams params enforceMonotonic t) (c.gates t.id) =
        some (t', gate, notify)) :
      Step params enforceMonotonic sig c (.finish j)
        (((c.setTask j t').setGate t.id gate).tell t notify) none
  | reap {c : Controller K E} {id now : Nat} :
      Step params enforceMonotonic sig c (.reap id now) (c.setGate id ((c.gates id).reap now)) none

/-- A step whatever the controller sees of the stream. -/
def Controller.Moves (params : KindSupervisorParams K E) (enforceMonotonic : Bool)
    (c : Controller K E) (label : ControllerLabel) (c' : Controller K E) : Prop :=
  ∃ sig sent, Step params enforceMonotonic sig c label c' sent

/-- Some run from the launch of the controller leads here. -/
def Controller.Reached (params : KindSupervisorParams K E) (enforceMonotonic : Bool)
    (c : Controller K E) : Prop :=
  ∃ tr, LTS.Path (Moves params enforceMonotonic) (launch params) tr c

end Borsa
