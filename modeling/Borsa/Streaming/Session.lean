import Borsa.Lib.Path
import Borsa.Types

/-!
# The session loop

`SessionManager::spawn`: the task that forwards one provider's updates. Its loop is a biased
`select!`: the stop watch comes first, then the watched value, then the session's own stop signal,
and the updates come last. `iterate` is one iteration, `SessionStep` the loop together with the
arrival of updates.

A session that is told to stop ends within two iterations (`session_ends_iff`), except when the
sender of the stop watch is dropped without having sent `true`: then the first branch is ready in
every iteration and does not leave the loop. Of the ways to stop a stream, aborting its task and
returning an error while planning do that (`StopPath.ends_iff`).
-/

namespace Borsa

/-! ## The monotonic gate -/

/-- What the router reads of a stream's update. Time stamps are counted from the epoch. An update of a
prediction has no symbol, and is left out: `stream_symbol` declares it unreachable and panics. -/
structure Update where
  streamSymbol : Symbol
  streamTs : Int
  deriving DecidableEq

/-- The latest time stamp accepted for a key, and when the key was last seen. -/
structure GateEntry where
  prevTs : Int
  lastSeen : Nat
  deriving DecidableEq

/-- `MonotonicGate`: the entries by key. -/
structure MonotonicGate where
  state : String → Option GateEntry

namespace MonotonicGate

/-- `ENTRY_TTL`, in nanoseconds. -/
def entryTtl : Nat := 60 * 60 * 24 * 10 ^ 9

/-- The gate without entries. -/
def new : MonotonicGate := ⟨fun _ => none⟩

/-- One run of the reaper at the instant `now`. -/
def reap (self : MonotonicGate) (now : Nat) : MonotonicGate :=
  ⟨fun key => (self.state key).filter fun entry => decide (now - entry.lastSeen ≤ entryTtl)⟩

/-- The gate with another entry for `key`. -/
def insert (self : MonotonicGate) (key : String) (entry : GateEntry) : MonotonicGate :=
  ⟨fun k => if k = key then some entry else self.state k⟩

/-- `allow`: an update older than the latest accepted one of its key is refused. Either way the key
has been seen. -/
def allow (self : MonotonicGate) (now : Nat) (key : String) (ts : Int) : Bool × MonotonicGate :=
  match self.state key with
  | some entry =>
    if ts < entry.prevTs then (false, self.insert key ⟨entry.prevTs, now⟩)
    else (true, self.insert key ⟨if entry.prevTs < ts then ts else entry.prevTs, now⟩)
  | none => (true, self.insert key ⟨ts, now⟩)

/-- `reset_symbols`: the entries of these symbols are removed. -/
def resetSymbols (self : MonotonicGate) (symbols : List Symbol) : MonotonicGate :=
  ⟨fun key => if key ∈ symbols.map Symbol.asStr then none else self.state key⟩

end MonotonicGate

/-! ## One iteration -/

/-- A receiver of the stop broadcast: the current value, whether it holds a change the receiver has
not seen, and whether the sender is gone. -/
structure StopWatch where
  value : Bool
  unseen : Bool
  senderDropped : Bool
  deriving DecidableEq

/-- `changed()` completes when there is an unseen change, and with an error when the sender is gone;
the loop does not look at its result. -/
def StopWatch.changedReady (self : StopWatch) : Bool := self.unseen || self.senderDropped

/-- What a session is spawned with. -/
structure SessionParams where
  sessionIndex : Nat
  allowed : Option (Finset Symbol)
  enforceMonotonic : Bool
  sessionSymbols : List Symbol

/-- The state the loop runs on. -/
structure SessionState where
  stopWatch : StopWatch
  /-- The session's stop signal has been sent, or its sender dropped. -/
  sessionStop : Bool
  /-- The updates received from the provider and not yet taken. -/
  queue : List Update
  /-- The provider will send no more updates. -/
  upstreamClosed : Bool
  /-- Nobody receives what is sent downstream. -/
  downstreamClosed : Bool
  gate : MonotonicGate
  /-- The updates sent downstream, oldest first. -/
  forwarded : List Update

/-- Where the loop is: at its head, or past it with what is left to do. -/
inductive SessionLoop where
  | running (state : SessionState)
  | exited (state : SessionState) (notifySessionEnd resetMonotonic : Bool)

/-- The update branch of the loop. A send that waits for room downstream is part of its iteration. -/
def receive (params : SessionParams) (now : Nat) (self : SessionState) (u : Update) :
    SessionLoop :=
  if (params.allowed.map fun allowset => decide (u.streamSymbol ∉ allowset)).getD false then
    .running self
  else
    let (allowed, gate) :=
      if params.enforceMonotonic then self.gate.allow now u.streamSymbol.asStr u.streamTs
      else (true, self.gate)
    let self := { self with gate }
    if !allowed then .running self
    else if self.downstreamClosed then .exited self false false
    else .running { self with forwarded := self.forwarded ++ [u] }

/-- One iteration of the loop at the instant `now`, `none` when no branch is ready. -/
def iterate (params : SessionParams) (now : Nat) (self : SessionState) : Option SessionLoop :=
  if self.stopWatch.changedReady then
    let self := { self with stopWatch := { self.stopWatch with unseen := false } }
    if self.stopWatch.value then some (.exited self true false) else some (.running self)
  else if self.stopWatch.value then some (.exited self true false)
  else if self.sessionStop then some (.exited self true false)
  else
    match self.queue with
    | u :: rest => some (receive params now { self with queue := rest } u)
    | [] => if self.upstreamClosed then some (.exited self true true) else none

/-- What happens to a session while nobody tells it to stop. -/
inductive SessionLabel where
  | iterate (now : Nat)
  | arrive (updates : List Update)

/-- The loop and its queue. -/
def SessionStep (params : SessionParams) : SessionLoop → SessionLabel → SessionLoop → Prop
  | .running self, .iterate now, next => iterate params now self = some next
  | .running self, .arrive updates, next =>
    next = .running { self with queue := self.queue ++ updates }
  | .exited .., _, _ => False

/-! ## Ending -/

/-- The session has been told to stop. -/
def SessionState.Told (self : SessionState) : Prop :=
  self.stopWatch.value = true ∨ self.stopWatch.senderDropped = true ∨ self.sessionStop = true

/-- The stop is one the loop can see: `true` was sent, or the sender is still there. -/
def SessionState.Heard (self : SessionState) : Prop :=
  self.stopWatch.value = true ∨ self.stopWatch.senderDropped = false

/-- The loop is past its end. -/
def SessionLoop.Exited : SessionLoop → Prop
  | .running _ => False
  | .exited .. => True

/-- How many iterations a run takes. -/
def iterations (tr : List (LTS.Step SessionLoop SessionLabel)) : Nat :=
  tr.countP fun st =>
    match st.label with
    | .iterate _ => true
    | .arrive _ => false

/-- Whatever arrives, the loop has exited after `n` iterations, and never waits before that. -/
def EndsWithin (params : SessionParams) (n : Nat) (self : SessionState) : Prop :=
  ∀ tr loop, LTS.Path (SessionStep params) (.running self) tr loop →
    (n ≤ iterations tr → loop.Exited) ∧
      (¬ loop.Exited → ∀ now, ∃ next, SessionStep params loop (.iterate now) next)

namespace SessionState

variable {params : SessionParams} {self : SessionState}

/-- How many iterations a session that can hear a stop has left. -/
def remaining (self : SessionState) : Nat :=
  if self.stopWatch.unseen = true ∧ self.stopWatch.value = false then 2 else 1

theorem remaining_pos (self : SessionState) : 0 < self.remaining := by
  unfold remaining
  split <;> decide

/-- An iteration of a session that hears its stop ends it, or takes in a change of the watch. -/
theorem iterate_of_heard (ht : self.Told) (hh : self.Heard) (now : Nat) :
    (∃ notify reset s, iterate params now self = some (.exited s notify reset)) ∨
      ∃ s : SessionState, iterate params now self = some (.running s) ∧ s.Told ∧ s.Heard ∧
        s.remaining + 1 = self.remaining := by
  obtain ⟨⟨value, unseen, senderDropped⟩, sessionStop, queue, up, down, gate, forwarded⟩ := self
  cases value with
  | true =>
    left
    cases unseen <;> cases senderDropped <;> exact ⟨true, false, _, rfl⟩
  | false =>
    have hd : senderDropped = false := hh.resolve_left Bool.false_ne_true
    subst hd
    have hs : sessionStop = true :=
      (ht.resolve_left Bool.false_ne_true).resolve_left Bool.false_ne_true
    subst hs
    cases unseen with
    | true => exact .inr ⟨_, rfl, .inr (.inr rfl), .inr rfl, rfl⟩
    | false => exact .inl ⟨true, false, _, rfl⟩

/-- An iteration of a session that cannot hear its stop stays in the loop. -/
theorem iterate_of_not_heard (hh : ¬ self.Heard) (now : Nat) :
    ∃ s : SessionState, iterate params now self = some (.running s) ∧ ¬ s.Heard := by
  obtain ⟨⟨value, unseen, senderDropped⟩, sessionStop, queue, up, down, gate, forwarded⟩ := self
  rw [Heard, not_or, Bool.not_eq_true, Bool.not_eq_false] at hh
  obtain ⟨hv, hd⟩ := hh
  have hv : value = false := hv
  have hd : senderDropped = true := hd
  subst hv hd
  refine ⟨_, by cases unseen <;> rfl, ?_⟩
  intro h
  rcases h with h | h <;> cases h

end SessionState

/-- Along every run of a session that hears its stop, the iterations taken and left are at most those
left at the beginning. -/
theorem iterations_add_remaining_le {params : SessionParams} {self : SessionState}
    (ht : self.Told) (hh : self.Heard) {tr : List (LTS.Step SessionLoop SessionLabel)}
    {loop : SessionLoop} (h : LTS.Path (SessionStep params) (.running self) tr loop) :
    loop.Exited ∨ ∃ s : SessionState, loop = .running s ∧ s.Told ∧ s.Heard ∧
      iterations tr + s.remaining ≤ self.remaining := by
  induction h with
  | nil => exact .inr ⟨self, rfl, ht, hh, Nat.le_of_eq (Nat.zero_add _)⟩
  | @snoc tr loop next label _ hstep ih =>
    rcases ih with hex | ⟨s, rfl, hts, hhs, hle⟩
    · cases loop with
      | running s => exact hex.elim
      | exited s notify reset => exact hstep.elim
    cases label with
    | arrive updates =>
      cases hstep
      refine .inr ⟨_, rfl, hts, hhs, ?_⟩
      rw [iterations, List.countP_append]
      exact hle
    | iterate now =>
      have hstep : iterate params now s = some next := hstep
      rcases s.iterate_of_heard hts hhs now with
        ⟨notify, reset, s', heq⟩ | ⟨s', heq, hts', hhs', hrem⟩
      · rw [heq] at hstep
        cases hstep
        exact .inl trivial
      · rw [heq] at hstep
        cases hstep
        refine .inr ⟨s', rfl, hts', hhs', ?_⟩
        rw [iterations, List.countP_append, List.countP_singleton]
        rw [iterations] at hle
        simp only [if_true]
        omega

/-- A session that hears its stop ends within two iterations. -/
theorem endsWithin_of_heard {params : SessionParams} {self : SessionState} (ht : self.Told)
    (hh : self.Heard) : EndsWithin params 2 self := by
  intro tr loop h
  have htwo : self.remaining ≤ 2 := by
    unfold SessionState.remaining
    split <;> decide
  rcases iterations_add_remaining_le ht hh h with hex | ⟨s, rfl, hts, hhs, hle⟩
  · exact ⟨fun _ => hex, fun hne => absurd hex hne⟩
  · refine ⟨fun hn => ?_, fun _ now => ?_⟩
    · have hpos := s.remaining_pos
      omega
    · rcases s.iterate_of_heard hts hhs now with ⟨_, _, _, heq⟩ | ⟨_, heq, _⟩
      · exact ⟨_, heq⟩
      · exact ⟨_, heq⟩

/-- A session that cannot hear its stop takes any number of iterations. -/
theorem exists_iterations (params : SessionParams) {self : SessionState} (hh : ¬ self.Heard)
    (n : Nat) : ∃ tr s, LTS.Path (SessionStep params) (.running self) tr (.running s) ∧
      iterations tr = n ∧ ¬ s.Heard := by
  induction n with
  | zero => exact ⟨[], self, .nil, rfl, hh⟩
  | succ n ih =>
    obtain ⟨tr, s, hp, hn, hs⟩ := ih
    obtain ⟨s', heq, hs'⟩ := SessionState.iterate_of_not_heard hs 0
    have hstep : SessionStep params (.running s) (.iterate 0) (.running s') := heq
    refine ⟨_, s', hp.snoc hstep, ?_, hs'⟩
    rw [iterations, List.countP_append, ← hn]
    rfl

/-- A session that has been told to stop ends within a number of iterations that is bounded whatever
arrives exactly when it can hear the stop, and then two are enough. -/
theorem session_ends_iff (params : SessionParams) {self : SessionState} (ht : self.Told) :
    ((∃ c, EndsWithin params (self.queue.length + c) self) ↔ self.Heard) ∧
      (self.Heard → EndsWithin params (self.queue.length + 2) self) := by
  have hends : self.Heard → EndsWithin params (self.queue.length + 2) self := by
    intro hh tr loop hp
    obtain ⟨hex, hready⟩ := endsWithin_of_heard ht hh tr loop hp
    exact ⟨fun hn => hex (Nat.le_trans (Nat.le_add_left 2 _) hn), hready⟩
  refine ⟨⟨fun ⟨c, hc⟩ => ?_, fun hh => ⟨2, hends hh⟩⟩, hends⟩
  by_contra hh
  obtain ⟨tr, s, hp, hn, -⟩ := exists_iterations params hh (self.queue.length + c)
  exact (hc tr _ hp).1 (Nat.le_of_eq hn.symm)

/-! ## The ways a stream is stopped -/

/-- What stops a stream or one of its sessions. -/
inductive StopPath where
  /-- `StreamHandle::stop`, or the consumer dropping its receiver: the owner of the stop broadcast
  sends `true` and waits for the tasks. -/
  | stop
  /-- `StreamHandle::abort`, or dropping the handle: the owner is cancelled before it sends. -/
  | abort
  /-- An error returned while a later group is planned drops the stop broadcast. -/
  | planningError
  /-- A failed initialization aborts the controllers, then sends `true` and drops the broadcast. -/
  | initFailure
  /-- The controller preempts the session. -/
  | preempt
  /-- The controller stops all its sessions and awaits them. -/
  | stopAll

/-- What a session finds once its stream is stopped this way. -/
def StopPath.apply : StopPath → SessionState → SessionState
  | .stop, s => { s with stopWatch := { s.stopWatch with value := true, unseen := true } }
  | .abort, s => { s with stopWatch := { s.stopWatch with senderDropped := true } }
  | .planningError, s =>
    { s with stopWatch := { s.stopWatch with senderDropped := true }, downstreamClosed := true }
  | .initFailure, s =>
    { s with
      stopWatch := ⟨true, true, true⟩
      sessionStop := true
      downstreamClosed := true }
  | .preempt, s | .stopAll, s => { s with sessionStop := true }

/-- While the stop broadcast has sent nothing and is not dropped, stopping the stream ends a session
exactly when it is not by aborting the task or by an error while planning. -/
theorem StopPath.ends_iff (params : SessionParams) {self : SessionState} (path : StopPath)
    (hv : self.stopWatch.value = false) (hd : self.stopWatch.senderDropped = false) :
    (path.apply self).Told ∧ ((∃ n, EndsWithin params n (path.apply self)) ↔
      path ≠ .abort ∧ path ≠ .planningError) := by
  have htold : (path.apply self).Told := by
    cases path with
    | stop => exact .inl rfl
    | abort | planningError => exact .inr (.inl rfl)
    | initFailure | preempt | stopAll => exact .inr (.inr rfl)
  have hheard : (path.apply self).Heard ↔ path ≠ .abort ∧ path ≠ .planningError := by
    cases path with
    | stop => exact iff_of_true (.inl rfl) ⟨nofun, nofun⟩
    | abort => simp [apply, SessionState.Heard, hv]
    | planningError => simp [apply, SessionState.Heard, hv]
    | initFailure => exact iff_of_true (.inl rfl) ⟨nofun, nofun⟩
    | preempt | stopAll => exact iff_of_true (.inr hd) ⟨nofun, nofun⟩
  refine ⟨htold, ?_⟩
  rw [← hheard, ← (session_ends_iff params htold).1]
  refine ⟨fun ⟨n, hn⟩ => ⟨n, fun tr loop hp => ?_⟩, fun ⟨c, hc⟩ => ⟨_, hc⟩⟩
  obtain ⟨hex, hready⟩ := hn tr loop hp
  exact ⟨fun hle => hex (Nat.le_trans (Nat.le_add_left n _) hle), hready⟩

/-- A session with one update waiting, whose stream's task is aborted. -/
def abortedSession : SessionState where
  stopWatch := ⟨false, false, true⟩
  sessionStop := true
  queue := [⟨⟨"X"⟩, 0⟩]
  upstreamClosed := false
  downstreamClosed := false
  gate := .new
  forwarded := []

/-- Aborting the task drops both the stop broadcast and the session's own stop signal, and the session
still does not end. -/
theorem abortedSession_runs_on : abortedSession.Told ∧
    ∀ c, ¬ EndsWithin ⟨0, none, true, [⟨"X"⟩]⟩ (abortedSession.queue.length + c) abortedSession := by
  have htold : abortedSession.Told := .inr (.inl rfl)
  refine ⟨htold, fun c hc => ?_⟩
  have hheard : ¬ abortedSession.Heard := by
    intro h
    rcases h with h | h <;> cases h
  obtain ⟨tr, s, hp, hn, -⟩ := exists_iterations _ hheard (abortedSession.queue.length + c)
  exact (hc tr _ hp).1 (Nat.le_of_eq hn.symm)

/-- The exact condition at that session. -/
theorem abortedSession_ends_iff :
    ((∃ c, EndsWithin ⟨0, none, true, [⟨"X"⟩]⟩ (abortedSession.queue.length + c) abortedSession) ↔
      abortedSession.Heard) ∧
    (abortedSession.Heard →
      EndsWithin ⟨0, none, true, [⟨"X"⟩]⟩ (abortedSession.queue.length + 2) abortedSession) :=
  session_ends_iff _ (.inr (.inl rfl))

end Borsa
