import Borsa.Streaming.ControllerRefines
import Borsa.Streaming.Plan

/-!
# The whole stream

What `stream_updates_with_backoff` leaves running: the controllers it spawned with their tasks, the
bounded channel to the consumer, the stop broadcast, and the task that owns them (`Owner`). The owner
first awaits the outcome of every startup; then it waits until it is told to stop or nobody receives
any more, sends `true` on the stop broadcast and waits for the controllers. The caller holds the
`StreamHandle` and the receiver and may stop, abort or drop the first and read from or drop the
second at any time, or drop the call of `stream_*` itself before it returns.

An update in the channel is recorded with the controller and the provider it came from; the code
sends only the update.
-/

namespace Borsa

variable {K E : Type}

/-- `mpsc::channel::<T>(1024)`. -/
def channelCapacity : Nat := 1024

/-- An update on its way to the consumer. -/
structure Sent where
  controller : Nat
  provider : Nat
  update : Update
  deriving DecidableEq

/-- The task that owns the stream. -/
inductive Owner where
  /-- `stream_updates_with_backoff` awaits the startups in order: how many it has awaited, and what
  they came to. -/
  | initializing (awaited successKinds : Nat) (initErrors : List BorsaError)
  /-- It returned an error. -/
  | failed (error : BorsaError)
  /-- The caller dropped the call before it returned. -/
  | abandoned
  /-- The stream is up: the owner waits to be stopped. -/
  | selecting
  /-- The stop has been broadcast: the owner waits for the controllers. -/
  | joining
  | finished
  /-- The owner's task was aborted. -/
  | cancelled

/-- The caller has got the handle and the receiver. -/
def Owner.Opened : Owner → Prop
  | .initializing .. | .failed _ | .abandoned => False
  | .selecting | .joining | .finished | .cancelled => True

/-- A stream of `n` controllers. -/
structure Stream (K E : Type) (n : Nat) where
  controllers : Fin n → Controller K E
  owner : Owner
  /-- The stop broadcast has sent `true`. -/
  stopped : Bool
  /-- The sender of the stop broadcast is gone. -/
  senderDropped : Bool
  receiverDropped : Bool
  /-- What is in the channel, oldest first. -/
  channel : List Sent
  /-- What the consumer has received, oldest first. -/
  received : List Sent
  /-- The handle's stop signal has been sent. -/
  stopSignal : Bool
  /-- The owner's task has been asked to abort. -/
  ownerAborted : Bool
  /-- The caller still holds the handle. -/
  handleHeld : Bool

/-- What can happen to a stream. -/
inductive StreamLabel (n : Nat) where
  | controller (i : Fin n) (label : ControllerLabel)
  /-- The outcome of the next startup is awaited. -/
  | initialized
  /-- `stream_updates_with_backoff` returns. -/
  | returned
  /-- The owner leaves its `select!`. -/
  | wake
  | joined
  | ownerCancelled
  /-- `StreamHandle::stop`. -/
  | stop
  /-- `StreamHandle::abort`, or the handle is dropped. -/
  | abort
  /-- The call of `stream_*` is dropped. -/
  | abandon
  | receive
  | dropReceiver

/-- What the receiver of a startup's outcome gets, `none` while it has to wait. A sender that is
dropped without a report gives an error. -/
def Controller.outcome (c : Controller K E) : Option (Except BorsaError Unit) :=
  match c.report with
  | some result => some result
  | none =>
    if c.place = .gone ∨ c.sup.phase.initialTx? = none then
      some (.error (.other "stream supervisor dropped before initialization"))
    else none

namespace Stream

variable {n : Nat}

/-- What a controller sees of the stream. -/
def signals (s : Stream K E n) : Signals where
  stopped := s.stopped
  senderDropped := s.senderDropped
  receiverDropped := s.receiverDropped
  room := decide (s.channel.length < channelCapacity)

/-- Everything that was ever sent to the consumer. -/
def sent (s : Stream K E n) : List Sent := s.received ++ s.channel

/-- The stream of a plan, once its controllers are spawned. -/
def start (plan : List (KindSupervisorParams K E)) : Stream K E plan.length where
  controllers i := .launch (plan.get i)
  owner := .initializing 0 0 []
  stopped := false
  senderDropped := false
  receiverDropped := false
  channel := []
  received := []
  stopSignal := false
  ownerAborted := false
  handleHeld := true

/-- A failed initialization aborts the controllers, sends `true` and drops what it holds. -/
def fail (s : Stream K E n) (error : BorsaError) : Stream K E n :=
  { s with
    controllers := fun i => { s.controllers i with aborted := true }
    owner := .failed error
    stopped := true
    senderDropped := true
    receiverDropped := true }

/-- The controller `i` has taken a step, in which it may have sent an update of one provider. -/
def move (s : Stream K E n) (i : Fin n) (c : Controller K E) (sent : Option (Nat × Update)) :
    Stream K E n :=
  { s with
    controllers := Function.update s.controllers i c
    channel := s.channel ++ (sent.map fun x => ⟨i, x.1, x.2⟩).toList }

@[simp] theorem controllers_move_self (s : Stream K E n) (i : Fin n) (c : Controller K E)
    (sent : Option (Nat × Update)) : (s.move i c sent).controllers i = c :=
  Function.update_self ..

theorem controllers_move_of_ne (s : Stream K E n) {i k : Fin n} (h : k ≠ i) (c : Controller K E)
    (sent : Option (Nat × Update)) : (s.move i c sent).controllers k = s.controllers k :=
  Function.update_of_ne h ..

/-- One step of the stream. -/
inductive Step (plan : List (KindSupervisorParams K E)) (enforceMonotonic : Bool)
    (capability : Capability) :
    Stream K E plan.length → StreamLabel plan.length → Stream K E plan.length → Prop
  | controller {s : Stream K E plan.length} {i : Fin plan.length} {label : ControllerLabel}
      {c : Controller K E} {sent : Option (Nat × Update)}
      (h : Controller.Step (plan.get i) enforceMonotonic s.signals (s.controllers i) label c sent)
      (hl : label ≠ .abort) :
      Step plan enforceMonotonic capability s (.controller i label) (s.move i c sent)
  | initOk {s : Stream K E plan.length} {k successKinds : Nat} {initErrors : List BorsaError}
      (ho : s.owner = .initializing k successKinds initErrors) (hk : k < plan.length)
      (h : (s.controllers ⟨k, hk⟩).outcome = some (.ok ())) :
      Step plan enforceMonotonic capability s .initialized
        { s with owner := .initializing (k + 1) (successKinds + 1) initErrors }
  | initError {s : Stream K E plan.length} {k successKinds : Nat} {initErrors : List BorsaError}
      {error : BorsaError} (ho : s.owner = .initializing k successKinds initErrors)
      (hk : k < plan.length) (h : (s.controllers ⟨k, hk⟩).outcome = some (.error error)) :
      Step plan enforceMonotonic capability s .initialized
        { s with owner := .initializing (k + 1) successKinds (initErrors ++ [error]) }
  | returnedOk {s : Stream K E plan.length} {successKinds : Nat}
      (ho : s.owner = .initializing plan.length successKinds []) (hs : successKinds ≠ 0) :
      Step plan enforceMonotonic capability s .returned { s with owner := .selecting }
  | returnedError {s : Stream K E plan.length} {successKinds : Nat} {initErrors : List BorsaError}
      (ho : s.owner = .initializing plan.length successKinds initErrors)
      (hs : successKinds = 0 ∨ initErrors ≠ []) :
      Step plan enforceMonotonic capability s .returned
        (s.fail (collapseStreamErrors capability initErrors))
  | wake {s : Stream K E plan.length} (ho : s.owner = .selecting)
      (h : s.stopSignal = true ∨ s.receiverDropped = true) :
      Step plan enforceMonotonic capability s .wake { s with owner := .joining, stopped := true }
  | joined {s : Stream K E plan.length} (ho : s.owner = .joining)
      (h : ∀ i, (s.controllers i).place = .gone) :
      Step plan enforceMonotonic capability s .joined
        { s with owner := .finished, senderDropped := true }
  | ownerCancelled {s : Stream K E plan.length} (ha : s.ownerAborted = true)
      (ho : s.owner = .selecting ∨ s.owner = .joining) :
      Step plan enforceMonotonic capability s .ownerCancelled
        { s with owner := .cancelled, senderDropped := true }
  | stop {s : Stream K E plan.length} (ho : s.owner.Opened) (hh : s.handleHeld = true) :
      Step plan enforceMonotonic capability s .stop
        { s with stopSignal := true, handleHeld := false }
  | abort {s : Stream K E plan.length} (ho : s.owner.Opened) (hh : s.handleHeld = true) :
      Step plan enforceMonotonic capability s .abort
        { s with stopSignal := true, ownerAborted := true, handleHeld := false }
  | abandon {s : Stream K E plan.length} {k successKinds : Nat} {initErrors : List BorsaError}
      (ho : s.owner = .initializing k successKinds initErrors) :
      Step plan enforceMonotonic capability s .abandon
        { s with owner := .abandoned, senderDropped := true, receiverDropped := true }
  | receive {s : Stream K E plan.length} {x : Sent} {rest : List Sent} (ho : s.owner.Opened)
      (hr : s.receiverDropped = false) (hx : s.channel = x :: rest) :
      Step plan enforceMonotonic capability s .receive
        { s with channel := rest, received := s.received ++ [x] }
  | dropReceiver {s : Stream K E plan.length} (ho : s.owner.Opened) :
      Step plan enforceMonotonic capability s .dropReceiver { s with receiverDropped := true }

/-- A run of the stream. -/
def Run (plan : List (KindSupervisorParams K E)) (enforceMonotonic : Bool) (capability : Capability)
    (tr : List (LTS.Step (Stream K E plan.length) (StreamLabel plan.length)))
    (s : Stream K E plan.length) : Prop :=
  LTS.Path (Step plan enforceMonotonic capability) (start plan) tr s

/-- A run goes on with a step of one of its controllers. -/
theorem Run.act {plan : List (KindSupervisorParams K E)} {enforceMonotonic : Bool}
    {capability : Capability} {s : Stream K E plan.length}
    {tr : List (LTS.Step (Stream K E plan.length) (StreamLabel plan.length))}
    (h : Run plan enforceMonotonic capability tr s) (i : Fin plan.length) (label : ControllerLabel)
    (hl : label ≠ .abort) {c : Controller K E} {sent : Option (Nat × Update)}
    (hstep : Controller.Step (plan.get i) enforceMonotonic s.signals (s.controllers i) label c sent) :
    Run plan enforceMonotonic capability (tr ++ [⟨s, .controller i label, s.move i c sent⟩])
      (s.move i c sent) :=
  h.snoc (.controller hstep hl)

/-! ## What a step does to one controller -/

variable {plan : List (KindSupervisorParams K E)} {enforceMonotonic : Bool} {capability : Capability}
  {s s' : Stream K E plan.length} {label : StreamLabel plan.length}

/-- A step leaves a controller alone or is a step of it. -/
theorem Step.controller_moves (h : Step plan enforceMonotonic capability s label s')
    (i : Fin plan.length) : s'.controllers i = s.controllers i ∨
      ∃ l, Controller.Moves (plan.get i) enforceMonotonic (s.controllers i) l
        (s'.controllers i) := by
  cases h with
  | @controller k l c sent hstep _ =>
    rcases eq_or_ne i k with rfl | hik
    · exact .inr ⟨l, s.signals, sent, by simpa using hstep⟩
    · exact .inl (s.controllers_move_of_ne hik ..)
  | returnedError => exact .inr ⟨.abort, s.signals, none, .abort⟩
  | initOk | initError | returnedOk | wake | joined | ownerCancelled | stop | abort | abandon
  | receive | dropReceiver => exact .inl rfl

/-- Every run of the stream is, for each controller, a run of it with its tasks. -/
theorem Run.controller {tr : List (LTS.Step (Stream K E plan.length) (StreamLabel plan.length))}
    (h : Run plan enforceMonotonic capability tr s) (i : Fin plan.length) :
    (s.controllers i).Reached (plan.get i) enforceMonotonic :=
  LTS.Path.project (fun s : Stream K E plan.length => s.controllers i)
    (fun _ _ _ hstep => hstep.controller_moves i) h

end Stream

end Borsa
