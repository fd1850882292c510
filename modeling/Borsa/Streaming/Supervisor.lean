import Borsa.Lib.Cyclic
import Borsa.Error

/-!
# The stream supervisor

`supervisor_sm.rs`: the state machine that decides, for one stream, which providers to start, when to
retry them, and when the caller is told that the stream is up or has failed. It owns no task; the
controller (`Borsa.Streaming.Controller`) feeds it events and carries out its actions.

Providers are named by their index, which is also their priority: a lower index is preferred. The
time stamp of a cooldown and the empty session metadata are not modelled, since nothing reads them.
-/

namespace Borsa

/-- What the supervisor knows about one provider. -/
inductive ProviderState where
  | idle
  /-- A cooldown cleared by a backoff tick; the next success may reset the backoff. -/
  | idleFromCooldown
  /-- A start has been issued for these symbols and is in flight. -/
  | connecting (symbols : List Symbol)
  | active (symbols : List Symbol)
  | inCooldown
  deriving DecidableEq

/-- The sending half of the channel on which the caller of `stream_*` waits for the outcome. -/
structure InitialSender where
  channel : Nat
  deriving DecidableEq

inductive Phase where
  | startup (initialTx : Option InitialSender) (accumulatedErrors : List BorsaError)
  | running
  | shuttingDown
  | terminated

inductive Event where
  | providerStartSucceeded (id : Nat) (symbols : List Symbol)
  | providerStartFailed (id : Nat) (error : BorsaError)
  | sessionEnded (id : Nat) (symbols : List Symbol)
  | backoffTick
  | downstreamClosed
  | shutdown

inductive Action (K E : Type) where
  | requestStart (id : Nat) (instruments : List (Instrument K E))
  | stopAll
  | awaitAll
  | notifyInitial (tx : InitialSender) (result : Except BorsaError Unit)
  | scheduleBackoffTick (delayMs : UInt64)
  | preemptSessions (providerIds : List Nat)

structure Supervisor (K E : Type) where
  providers : List ProviderState
  /-- The instruments assigned to each provider. -/
  providerInstruments : List (List (Instrument K E))
  /-- The symbols each provider may stream. -/
  providerAllow : List (Finset Symbol)
  requiredSymbols : Finset Symbol
  providersCanStream : List Bool
  capability : Capability
  startIndex : Nat
  /-- The next provider to consider in this round. -/
  scanCursor : Nat
  /-- Whether a full round has been scanned since the last tick. -/
  roundExhausted : Bool
  backoffMs : UInt64
  minBackoffMs : UInt64
  maxBackoffMs : UInt64
  factor : UInt32
  attemptedSinceLastTick : Bool
  phase : Phase

/-- `u64::saturating_mul`, at a factor that was widened from `u32`. -/
def saturatingMul (a : UInt64) (b : UInt32) : UInt64 :=
  UInt64.ofNat (min (a.toNat * b.toNat) (2 ^ 64 - 1))

/-- `is_provider_idle`. -/
def isProviderIdle : ProviderState → Bool
  | .idle | .idleFromCooldown => true
  | _ => false

/-- `is_provider_idle_from_cooldown`. -/
def isProviderIdleFromCooldown : ProviderState → Bool
  | .idleFromCooldown => true
  | _ => false

/-- The symbols a provider streams or is about to stream. -/
def ProviderState.symbols? : ProviderState → Option (List Symbol)
  | .active symbols | .connecting symbols => some symbols
  | _ => none

namespace Supervisor

variable {K E : Type}

/-! ## Coverage -/

/-- `compute_coverage_count`: how many providers stream or are about to stream `sym`. -/
def computeCoverageCount (self : Supervisor K E) (sym : Symbol) : Nat :=
  ((self.providers.filterMap ProviderState.symbols?).filter
    fun symbols => symbols.any (· == sym)).length

/-- `provider_has_symbol_before`: whether a provider of a lower index streams or is about to stream
`sym`. -/
def providerHasSymbolBefore (self : Supervisor K E) (providerIndex : Nat) (sym : Symbol) : Bool :=
  self.providers.zipIdx.any fun (state, j) =>
    decide (j < providerIndex) &&
      match state with
      | .active symbols => symbols.any (· == sym)
      | .connecting symbols => symbols.any (· == sym)
      | _ => false

/-- `should_include_instrument`. -/
def shouldIncludeInstrument (self : Supervisor K E) (providerId : Nat) (inst : Instrument K E)
    (allowSet : Finset Symbol) : Bool :=
  match symbolOpt inst with
  | none => false
  | some sym =>
    if sym ∉ allowSet ∨ sym ∉ self.requiredSymbols then false
    else if !decide (0 < self.computeCoverageCount sym) then true
    else !self.providerHasSymbolBefore providerId sym

/-- `compute_needed_instruments_for`: the assigned instruments that `id` should take over now. -/
def computeNeededInstrumentsFor (self : Supervisor K E) (id : Nat) : List (Instrument K E) :=
  match self.providerAllow[id]?, self.providerInstruments[id]? with
  | some allowSet, some insts => insts.filter (self.shouldIncludeInstrument id · allowSet)
  | _, _ => []

/-- `can_provider_stream`. -/
def canProviderStream (self : Supervisor K E) (providerId : Nat) : Bool :=
  (self.providersCanStream[providerId]?).getD false

/-- `provider_has_available_work`. -/
def providerHasAvailableWork (self : Supervisor K E) (providerId : Nat) : Bool :=
  !(self.computeNeededInstrumentsFor providerId).isEmpty

/-- `has_idle_providers_with_work`. -/
def hasIdleProvidersWithWork (self : Supervisor K E) : Bool :=
  self.providers.zipIdx.any fun (state, i) =>
    isProviderIdle state && self.canProviderStream i && self.providerHasAvailableWork i

/-- `has_any_active`. -/
def hasAnyActive (self : Supervisor K E) : Bool :=
  self.providers.any fun p =>
    match p with
    | .active _ => true
    | _ => false

/-! ## The start scan -/

/-- The body of the scan loop: an idle provider that can stream and has work is marked as connecting
and a start is requested for it. -/
def visitProvider (i : Nat) (acc : Supervisor K E × List (Action K E)) :
    Supervisor K E × List (Action K E) :=
  let (self, actions) := acc
  match self.providers[i]? with
  | some state =>
    if isProviderIdle state && self.canProviderStream i then
      let instruments := self.computeNeededInstrumentsFor i
      if instruments.isEmpty then (self, actions)
      else
        ({ self with providers := self.providers.set i (.connecting (symbolsOf instruments)) },
          actions ++ [.requestStart i instruments])
    else (self, actions)
  | none => (self, actions)

/-- `should_attempt_starts`. -/
def shouldAttemptStarts (self : Supervisor K E) : Bool :=
  !self.roundExhausted && self.hasIdleProvidersWithWork

/-- `compute_needed_starts`: scan cyclically from the cursor up to the start index. The loop ends
within the iterations given here (`computeNeededStarts_eq`). -/
def computeNeededStarts (self : Supervisor K E) : Supervisor K E × List (Action K E) :=
  let len := self.providers.length
  if len == 0 || self.roundExhausted then (self, [])
  else
    (Cyclic.loop len (self.startIndex % len) (fun acc i => visitProvider acc i) (len + 1)
      (self.scanCursor % len) true (self, [])).getD (self, [])

/-! ## Transitions -/

/-- `current_delay_ms`. -/
def currentDelayMs (self : Supervisor K E) : UInt64 := self.backoffMs

/-- `increase_backoff`. -/
def increaseBackoff (self : Supervisor K E) : Supervisor K E :=
  { self with backoffMs := min (saturatingMul self.backoffMs self.factor) self.maxBackoffMs }

/-- `compute_lower_priority_overlaps`: the active providers after `higherId` that stream one of
`symbols`. -/
def computeLowerPriorityOverlaps (self : Supervisor K E) (higherId : Nat)
    (symbols : List Symbol) : List Nat :=
  (List.range' (higherId + 1) (self.providers.length - (higherId + 1))).filter fun j =>
    match self.providers[j]? with
    | some (.active activeSymbols) => activeSymbols.any fun s => symbols.any fun t => t == s
    | _ => false

/-- `handle_provider_activated`. -/
def handleProviderActivated (self : Supervisor K E) (id : Nat) (symbols : List Symbol) :
    Supervisor K E × List (Action K E) :=
  let fromCooldown := (self.providers[id]?.map isProviderIdleFromCooldown).getD false
  let startIndex := (id + 1) % self.providers.length
  let self :=
    { self with
      providers := self.providers.set id (.active symbols)
      backoffMs := if fromCooldown then self.minBackoffMs else self.backoffMs
      startIndex
      scanCursor := startIndex
      roundExhausted := false }
  let lowerIds := self.computeLowerPriorityOverlaps id symbols
  (self,
    (if lowerIds.isEmpty then [] else [.preemptSessions lowerIds]) ++
      [.scheduleBackoffTick self.currentDelayMs])

/-- `advance_scan_cursor_for_failure`. -/
def advanceScanCursorForFailure (self : Supervisor K E) (id : Nat) : Supervisor K E :=
  let nextCursor := (id + 1) % self.providers.length
  { self with
    providers := self.providers.set id .inCooldown
    scanCursor := nextCursor
    roundExhausted := if nextCursor == self.startIndex then true else self.roundExhausted }

/-- `should_terminate_startup`. -/
def shouldTerminateStartup (self : Supervisor K E) : Bool :=
  !self.hasAnyActive && self.roundExhausted

/-- `handle_startup_failure`. -/
def handleStartupFailure (self : Supervisor K E) (id : Nat) (error : BorsaError)
    (initialTx : Option InitialSender) (accumulatedErrors : List BorsaError) :
    Supervisor K E × List (Action K E) :=
  let accumulatedErrors := accumulatedErrors ++ [error]
  let self := self.advanceScanCursorForFailure id
  match self.shouldTerminateStartup, initialTx with
  | true, some tx =>
    ({ self with phase := .terminated },
      [.notifyInitial tx (.error (collapseStreamErrors self.capability accumulatedErrors))])
  | _, _ => ({ self with phase := .startup initialTx accumulatedErrors }, [])

/-- The cooldowns a tick clears. -/
def clearCooldown : ProviderState → ProviderState
  | .inCooldown => .idleFromCooldown
  | p => p

/-- The end of `handle_backoff_tick`: a new round starts and the next tick is scheduled. -/
def startRound (self : Supervisor K E) (phase : Phase) : Supervisor K E × List (Action K E) :=
  let self :=
    { self with
      attemptedSinceLastTick := false
      scanCursor := self.startIndex
      roundExhausted := false }
  ({ self with phase }, [.scheduleBackoffTick self.currentDelayMs])

/-- `handle_backoff_tick`. -/
def handleBackoffTick (self : Supervisor K E) (phase : Phase) :
    Supervisor K E × List (Action K E) :=
  let self := { self with providers := self.providers.map clearCooldown }
  if self.attemptedSinceLastTick then
    if self.hasAnyActive then self.increaseBackoff.startRound phase
    else
      match self.roundExhausted, phase with
      | true, .startup (some tx) accumulatedErrors =>
        ({ self with phase := .terminated },
          [.notifyInitial tx (.error (collapseStreamErrors self.capability accumulatedErrors))])
      | _, _ => { self.increaseBackoff with startIndex := 0 }.startRound phase
  else self.startRound phase

/-- `transition_for_event`. The source moves the phase out and leaves `Running` in its place, so an
arm that returns `self` as it is returns it running. -/
def transitionForEvent (self : Supervisor K E) (event : Event) :
    Supervisor K E × List (Action K E) :=
  let prevPhase := self.phase
  let self := { self with phase := .running }
  match prevPhase, event with
  | .startup initialTx _, .providerStartSucceeded id symbols =>
    let (self, actions) := self.handleProviderActivated id symbols
    ({ self with phase := .running },
      match initialTx with
      | some tx => .notifyInitial tx (.ok ()) :: actions
      | none => actions)
  | .running, .providerStartSucceeded id symbols => self.handleProviderActivated id symbols
  | .startup initialTx accumulatedErrors, .providerStartFailed id error =>
    self.handleStartupFailure id error initialTx accumulatedErrors
  | .running, .providerStartFailed id _ =>
    ({ self.advanceScanCursorForFailure id with phase := .running }, [])
  | phase, .sessionEnded id _ =>
    ({ self with providers := self.providers.set id .inCooldown, phase }, [])
  | phase, .backoffTick => self.handleBackoffTick phase
  | _, .shutdown => ({ self with phase := .shuttingDown }, [.stopAll, .awaitAll])
  | _, .downstreamClosed => ({ self with phase := .shuttingDown }, [.stopAll, .awaitAll])
  | .terminated, _ => (self, [])
  | .shuttingDown, _ => (self, [])

/-- `handle`: the transition, then whatever starts it calls for. -/
def handle (self : Supervisor K E) (event : Event) : Supervisor K E × List (Action K E) :=
  let (next, actions) := self.transitionForEvent event
  if next.shouldAttemptStarts then
    let (next, reqs) := next.computeNeededStarts
    if reqs.isEmpty then (next, actions)
    else ({ next with attemptedSinceLastTick := true }, actions ++ reqs)
  else (next, actions)

end Supervisor

end Borsa
