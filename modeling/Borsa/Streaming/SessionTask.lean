import Borsa.Streaming.Session

/-!
# The task of a session

`Borsa.Streaming.Session` takes an iteration of a session's loop, with the send in it, as one step.
Here the send is a step of its own, because it waits for room in the channel to the consumer and
looks at no stop signal while it does: `poll` is an iteration up to its send, and an iteration is a
`poll` whose send completes at once (`iterate_eq_poll`). A `SessionTask` is the task that
`SessionManager::spawn` starts, from its first `select!` to its end: it polls, sends, stops the
provider's stream when it leaves the loop, and then resets the gate and tells the controller.
-/

namespace Borsa

/-! ## An iteration up to its send -/

/-- What an iteration comes to before anything is sent. -/
inductive Polled where
  | running (state : SessionState)
  /-- The update goes downstream. -/
  | sending (u : Update) (state : SessionState)
  | leaving (state : SessionState) (notifySessionEnd resetMonotonic : Bool)

/-- The update branch of the loop, up to the send. -/
def pollUpdate (params : SessionParams) (now : Nat) (self : SessionState) (u : Update) : Polled :=
  if (params.allowed.map fun allowset => decide (u.streamSymbol ∉ allowset)).getD false then
    .running self
  else
    let (allowed, gate) :=
      if params.enforceMonotonic then self.gate.allow now u.streamSymbol.asStr u.streamTs
      else (true, self.gate)
    let self := { self with gate }
    if !allowed then .running self else .sending u self

/-- One iteration of the loop up to its send, `none` when no branch is ready. -/
def poll (params : SessionParams) (now : Nat) (self : SessionState) : Option Polled :=
  if self.stopWatch.changedReady then
    let self := { self with stopWatch := { self.stopWatch with unseen := false } }
    if self.stopWatch.value then some (.leaving self true false) else some (.running self)
  else if self.stopWatch.value then some (.leaving self true false)
  else if self.sessionStop then some (.leaving self true false)
  else
    match self.queue with
    | u :: rest => some (pollUpdate params now { self with queue := rest } u)
    | [] => if self.upstreamClosed then some (.leaving self true true) else none

/-- The iteration whose send completes at once. -/
def Polled.settle : Polled → SessionLoop
  | .running state => .running state
  | .sending u state =>
    if state.downstreamClosed then .exited state false false
    else .running { state with forwarded := state.forwarded ++ [u] }
  | .leaving state notifySessionEnd resetMonotonic =>
    .exited state notifySessionEnd resetMonotonic

theorem receive_eq_pollUpdate (params : SessionParams) (now : Nat) (self : SessionState)
    (u : Update) : receive params now self u = (pollUpdate params now self u).settle := by
  unfold receive pollUpdate
  split
  · rfl
  · dsimp only
    rw [apply_ite Polled.settle]
    rfl

/-- An iteration is an iteration up to its send, with the send. -/
theorem iterate_eq_poll (params : SessionParams) (now : Nat) (self : SessionState) :
    iterate params now self = (poll params now self).map Polled.settle := by
  unfold iterate poll
  split
  · dsimp only
    split <;> rfl
  · split
    · rfl
    · split
      · rfl
      · cases hq : self.queue with
        | nil => cases hu : self.upstreamClosed <;> rfl
        | cons u rest => exact congrArg some (receive_eq_pollUpdate ..)

/-- An update that goes downstream is of an allowed symbol, and was taken from the queue. -/
theorem pollUpdate_sending {params : SessionParams} {now : Nat} {self state : SessionState}
    {u v : Update} (h : pollUpdate params now self u = .sending v state) :
    v = u ∧ (∀ allow, params.allowed = some allow → u.streamSymbol ∈ allow) ∧
      state.queue = self.queue := by
  unfold pollUpdate at h
  split at h
  · cases h
  · next hal =>
    dsimp only at h
    by_cases hallow : (!(if params.enforceMonotonic then
        self.gate.allow now u.streamSymbol.asStr u.streamTs else (true, self.gate)).1) = true
    · rw [if_pos hallow] at h
      cases h
    · rw [if_neg hallow] at h
      cases h
      refine ⟨rfl, fun allow ha => ?_, rfl⟩
      simpa [ha] using hal

/-- An iteration sends only where the session has not been told to stop. -/
theorem poll_sending {params : SessionParams} {now : Nat} {self state : SessionState} {u : Update}
    (h : poll params now self = some (.sending u state)) :
    self.stopWatch.changedReady = false ∧ self.stopWatch.value = false ∧
      self.sessionStop = false ∧
      (∀ allow, params.allowed = some allow → u.streamSymbol ∈ allow) := by
  unfold poll at h
  split at h
  · dsimp only at h
    split at h <;> cases h
  · next hc =>
    split at h
    · cases h
    · next hv =>
      split at h
      · cases h
      · next hs =>
        split at h
        · obtain ⟨rfl, hal, -⟩ := pollUpdate_sending (Option.some.inj h)
          exact ⟨by simpa using hc, by simpa using hv, by simpa using hs, hal⟩
        · split at h <;> cases h

/-! ## The task -/

/-- What a controller and its sessions see of the rest of the stream. -/
structure Signals where
  /-- The stop broadcast has sent `true`. -/
  stopped : Bool
  /-- The sender of the stop broadcast is gone. -/
  senderDropped : Bool
  /-- The consumer has dropped its receiver. -/
  receiverDropped : Bool
  /-- The channel to the consumer has room. -/
  room : Bool
  deriving DecidableEq

/-- Where the task is. -/
inductive TaskPlace where
  /-- At its `select!`. -/
  | selecting
  /-- In `tx_out.send(u).await`. -/
  | sending (u : Update)
  /-- Past the loop, in `h.stop().await`. -/
  | stopping (notifySessionEnd resetMonotonic : Bool)
  /-- Completed; `notified` if it told the controller that the session ended. -/
  | ended (notified : Bool)
  deriving DecidableEq

/-- The task of one session. -/
structure SessionTask where
  /-- The provider. -/
  id : Nat
  symbols : List Symbol
  /-- The session's stop signal has been sent, or its sender dropped. -/
  sessionStop : Bool
  /-- The task has seen the change of the stop watch. -/
  seen : Bool
  queue : List Update
  upstreamClosed : Bool
  forwarded : List Update
  place : TaskPlace
  deriving DecidableEq

namespace SessionTask

/-- The task as it is spawned. -/
def new (id : Nat) (symbols : List Symbol) : SessionTask where
  id
  symbols
  sessionStop := false
  seen := false
  queue := []
  upstreamClosed := false
  forwarded := []
  place := .selecting

/-- The task has completed. -/
def Done (t : SessionTask) : Prop := ∃ notified, t.place = .ended notified

instance (t : SessionTask) : Decidable t.Done :=
  match h : t.place with
  | .ended notified => .isTrue ⟨notified, h⟩
  | .selecting | .sending _ | .stopping .. => .isFalse fun ⟨_, hn⟩ => by rw [h] at hn; cases hn

/-- The session has ended and the controller has been told so. -/
def notified (t : SessionTask) : Bool := t.place == .ended true

/-- The state the loop runs on: what the task holds, with what it sees of the stream. -/
def state (t : SessionTask) (sig : Signals) (gate : MonotonicGate) : SessionState where
  stopWatch := ⟨sig.stopped, sig.stopped && !t.seen, sig.senderDropped⟩
  sessionStop := t.sessionStop
  queue := t.queue
  upstreamClosed := t.upstreamClosed
  downstreamClosed := sig.receiverDropped
  gate
  forwarded := t.forwarded

/-- The task after an iteration that left the loop's state at `s`. -/
def resume (t : SessionTask) (s : SessionState) (place : TaskPlace) : SessionTask :=
  { t with seen := s.stopWatch.value && !s.stopWatch.unseen, queue := s.queue, place }

/-- One iteration up to its send, with the gate of its provider. -/
def poll (params : SessionParams) (sig : Signals) (now : Nat) (gate : MonotonicGate)
    (t : SessionTask) : Option (SessionTask × MonotonicGate) :=
  match t.place with
  | .selecting =>
    (Borsa.poll params now (t.state sig gate)).map fun polled =>
      match polled with
      | .running s => (t.resume s .selecting, s.gate)
      | .sending u s => (t.resume s (.sending u), s.gate)
      | .leaving s notify reset => (t.resume s (.stopping notify reset), s.gate)
  | _ => none

/-- The send: it fails once nobody receives, and otherwise waits for room. -/
def send (sig : Signals) (t : SessionTask) : Option (SessionTask × Option Update) :=
  match t.place with
  | .sending u =>
    if sig.receiverDropped then some ({ t with place := .stopping false false }, none)
    else if sig.room then
      some ({ t with place := .selecting, forwarded := t.forwarded ++ [u] }, some u)
    else none
  | _ => none

/-- The provider's stream has stopped: the gate is reset where the upstream closed, and the
controller is told unless nobody receives downstream. -/
def finish (params : SessionParams) (gate : MonotonicGate) (t : SessionTask) :
    Option (SessionTask × MonotonicGate × Bool) :=
  match t.place with
  | .stopping notify reset =>
    some ({ t with place := .ended notify },
      if params.enforceMonotonic && reset then gate.resetSymbols params.sessionSymbols else gate,
      notify)
  | _ => none

variable {t t' : SessionTask} {sig : Signals}

/-- An iteration is of a task at its `select!`; it forwards nothing, and what it takes to send is of an
allowed symbol. -/
theorem poll_cases {params : SessionParams} {now : Nat} {gate gate' : MonotonicGate}
    (h : t.poll params sig now gate = some (t', gate')) :
    t.place = .selecting ∧ t'.id = t.id ∧ t'.forwarded = t.forwarded ∧
      ∀ u, t'.place = .sending u →
        ∀ allow, params.allowed = some allow → u.streamSymbol ∈ allow := by
  unfold poll at h
  cases hp : t.place with
  | selecting =>
    rw [hp] at h
    obtain ⟨polled, hpoll, heq⟩ := Option.map_eq_some_iff.1 h
    cases polled with
    | running s | leaving s notify reset =>
      cases heq
      exact ⟨rfl, rfl, rfl, nofun⟩
    | sending u s =>
      cases heq
      refine ⟨rfl, rfl, rfl, fun v hv => ?_⟩
      cases hv
      exact (poll_sending hpoll).2.2.2
  | sending u | stopping notify reset | ended n =>
    rw [hp] at h
    cases h

/-- A send drops its update once nobody receives, and otherwise finds room for it. -/
theorem send_cases {sent : Option Update} (h : t.send sig = some (t', sent)) :
    ∃ u, t.place = .sending u ∧
      ((sig.receiverDropped = true ∧ t' = { t with place := .stopping false false } ∧
          sent = none) ∨
        (sig.receiverDropped = false ∧ sig.room = true ∧
          t' = { t with place := .selecting, forwarded := t.forwarded ++ [u] } ∧
          sent = some u)) := by
  unfold send at h
  cases hp : t.place with
  | sending u =>
    rw [hp] at h
    dsimp only at h
    split at h
    · next hr =>
      cases h
      exact ⟨u, rfl, .inl ⟨hr, rfl, rfl⟩⟩
    · next hr =>
      split at h
      · next hroom =>
        cases h
        exact ⟨u, rfl, .inr ⟨by simpa using hr, hroom, rfl, rfl⟩⟩
      · cases h
  | selecting | stopping notify reset | ended n =>
    rw [hp] at h
    cases h

/-- A task that stops its provider's stream completes. -/
theorem finish_cases {params : SessionParams} {gate gate' : MonotonicGate} {notify : Bool}
    (h : t.finish params gate = some (t', gate', notify)) :
    ∃ reset, t.place = .stopping notify reset ∧ t' = { t with place := .ended notify } := by
  unfold finish at h
  cases hp : t.place with
  | stopping notify reset =>
    rw [hp] at h
    cases h
    exact ⟨reset, rfl, rfl⟩
  | selecting | sending u | ended n =>
    rw [hp] at h
    cases h

end SessionTask

end Borsa
