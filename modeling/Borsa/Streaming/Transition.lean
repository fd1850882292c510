import Borsa.Streaming.Scan

/-!
# What one step of the supervisor can do

`transition_cases` reads `transition_for_event` in a live phase (startup or running) as a relation
with one constructor per outcome, guards included, and `handle_spec` adds the scan that follows.
Every invariant of the supervisor is a case analysis over these two.
-/

namespace Borsa

/-- The stream is starting up or running. -/
def Phase.Live : Phase → Prop
  | .startup .. | .running => True
  | .shuttingDown | .terminated => False

/-- The sender on which the caller still waits. -/
def Phase.initialTx? : Phase → Option InitialSender
  | .startup tx _ => tx
  | _ => none

namespace Supervisor

variable {K E : Type}

/-- The part of a supervisor that no event changes. -/
structure Config (K E : Type) where
  providerInstruments : List (List (Instrument K E))
  providerAllow : List (Finset Symbol)
  requiredSymbols : Finset Symbol
  providersCanStream : List Bool
  capability : Capability
  minBackoffMs : UInt64
  maxBackoffMs : UInt64
  factor : UInt32

/-- The configuration of a supervisor. -/
def config (self : Supervisor K E) : Config K E where
  providerInstruments := self.providerInstruments
  providerAllow := self.providerAllow
  requiredSymbols := self.requiredSymbols
  providersCanStream := self.providersCanStream
  capability := self.capability
  minBackoffMs := self.minBackoffMs
  maxBackoffMs := self.maxBackoffMs
  factor := self.factor

theorem assigned_congr {s s' : Supervisor K E} (h : s'.config = s.config) {id : Nat}
    {sym : Symbol} : s'.Assigned id sym ↔ s.Assigned id sym := by
  simp only [config, Config.mk.injEq] at h
  obtain ⟨hi, ha, hr, -⟩ := h
  simp only [Assigned, hi, ha, hr]

theorem canProviderStream_congr {s s' : Supervisor K E} (h : s'.config = s.config) (id : Nat) :
    s'.canProviderStream id = s.canProviderStream id := by
  simp only [config, Config.mk.injEq] at h
  simp only [canProviderStream, h.2.2.2.1]

/-- Being idle with work depends on the configuration and on the providers' states. -/
theorem idleWithWork_congr {s s' : Supervisor K E} (h : s'.config = s.config)
    (hp : s'.providers = s.providers) {id : Nat} : s'.IdleWithWork id ↔ s.IdleWithWork id := by
  have key : ∀ {a b : Supervisor K E}, b.config = a.config → b.providers = a.providers →
      a.IdleWithWork id → b.IdleWithWork id := by
    rintro a b hc hp ⟨hi, hcan, hw⟩
    obtain ⟨sym, hs, hn⟩ := needed_ne_nil_iff.1 hw
    refine ⟨?_, (canProviderStream_congr hc id).trans hcan, needed_ne_nil_iff.2 ⟨sym, ?_, ?_⟩⟩
    · rw [IsIdle, hp]; exact hi
    · exact (assigned_congr hc).2 hs
    · rw [hp]; exact hn
  exact ⟨key h.symm hp.symm, key h hp⟩

/-! ## The outcomes of a transition -/

/-- The state after a start of `id` succeeded. -/
def activated (self : Supervisor K E) (id : Nat) (symbols : List Symbol) : Supervisor K E :=
  { self with
    providers := self.providers.set id (.active symbols)
    backoffMs :=
      if (self.providers[id]?.map isProviderIdleFromCooldown).getD false then self.minBackoffMs
      else self.backoffMs
    startIndex := (id + 1) % self.providers.length
    scanCursor := (id + 1) % self.providers.length
    roundExhausted := false
    phase := .running }

/-- The state after a tick that leaves the supervisor alive. -/
def ticked (self : Supervisor K E) (backoffMs : UInt64) (startIndex : Nat) : Supervisor K E :=
  { self with
    providers := self.providers.map clearCooldown
    attemptedSinceLastTick := false
    startIndex
    scanCursor := startIndex
    roundExhausted := false
    backoffMs }

/-- The active sessions of lower priority that an activation of `id` preempts. -/
def preemptions (self : Supervisor K E) (id : Nat) (symbols : List Symbol) :
    List (Action K E) :=
  let lowerIds := (self.activated id symbols).computeLowerPriorityOverlaps id symbols
  if lowerIds.isEmpty then [] else [.preemptSessions lowerIds]

/-- What a success tells the caller, if it still waits. -/
def notifyOk (self : Supervisor K E) : List (Action K E) :=
  match self.phase.initialTx? with
  | some tx => [.notifyInitial tx (.ok ())]
  | none => []

/-- What `transition_for_event` can do in a live phase. -/
inductive LiveTransition (s : Supervisor K E) :
    Event → Supervisor K E → List (Action K E) → Prop
  /-- A start succeeded. -/
  | succeeded (id : Nat) (symbols : List Symbol) :
      LiveTransition s (.providerStartSucceeded id symbols) (s.activated id symbols)
        (s.notifyOk ++ (s.preemptions id symbols ++
          [.scheduleBackoffTick (s.activated id symbols).backoffMs]))
  /-- A start failed during startup and others may still succeed. -/
  | startupFailed {id : Nat} {error : BorsaError} {tx : Option InitialSender}
      {errors : List BorsaError} (hp : s.phase = .startup tx errors)
      (h : (s.advanceScanCursorForFailure id).shouldTerminateStartup = false ∨ tx = none) :
      LiveTransition s (.providerStartFailed id error)
        { s.advanceScanCursorForFailure id with phase := .startup tx (errors ++ [error]) } []
  /-- A start failed during startup and the stream is reported as failed. -/
  | startupTerminated {id : Nat} {error : BorsaError} {tx : InitialSender}
      {errors : List BorsaError} (hp : s.phase = .startup (some tx) errors)
      (h : (s.advanceScanCursorForFailure id).shouldTerminateStartup = true) :
      LiveTransition s (.providerStartFailed id error)
        { s.advanceScanCursorForFailure id with phase := .terminated }
        [.notifyInitial tx (.error (collapseStreamErrors s.capability (errors ++ [error])))]
  /-- A start failed while the stream is running. -/
  | runningFailed {id : Nat} {error : BorsaError} (hp : s.phase = .running) :
      LiveTransition s (.providerStartFailed id error) (s.advanceScanCursorForFailure id) []
  /-- A session ended. -/
  | ended (id : Nat) (symbols : List Symbol) :
      LiveTransition s (.sessionEnded id symbols)
        { s with providers := s.providers.set id .inCooldown } []
  /-- A tick during startup finds the round exhausted. -/
  | tickTerminated {tx : InitialSender} {errors : List BorsaError}
      (hp : s.phase = .startup (some tx) errors) (hat : s.attemptedSinceLastTick = true)
      (hact : s.hasAnyActive = false) (hex : s.roundExhausted = true) :
      LiveTransition s .backoffTick
        { s with providers := s.providers.map clearCooldown, phase := .terminated }
        [.notifyInitial tx (.error (collapseStreamErrors s.capability errors))]
  /-- A tick with no start since the last one. -/
  | tickQuiet (hat : s.attemptedSinceLastTick = false) :
      LiveTransition s .backoffTick (s.ticked s.backoffMs s.startIndex)
        [.scheduleBackoffTick s.backoffMs]
  /-- A tick while some session is active. -/
  | tickActive (hat : s.attemptedSinceLastTick = true) (hact : s.hasAnyActive = true) :
      LiveTransition s .backoffTick (s.ticked s.increaseBackoff.backoffMs s.startIndex)
        [.scheduleBackoffTick s.increaseBackoff.backoffMs]
  /-- A tick while no session is active: the next round starts at the first provider. -/
  | tickInactive (hat : s.attemptedSinceLastTick = true) (hact : s.hasAnyActive = false)
      (hne : s.roundExhausted = false ∨ s.phase.initialTx? = none) :
      LiveTransition s .backoffTick (s.ticked s.increaseBackoff.backoffMs 0)
        [.scheduleBackoffTick s.increaseBackoff.backoffMs]
  | shutdown : LiveTransition s .shutdown { s with phase := .shuttingDown } [.stopAll, .awaitAll]
  | downstreamClosed :
      LiveTransition s .downstreamClosed { s with phase := .shuttingDown } [.stopAll, .awaitAll]

/-- Clearing cooldowns leaves the active providers. -/
theorem hasAnyActive_map_clearCooldown (s : Supervisor K E) :
    { s with providers := s.providers.map clearCooldown, phase := .running }.hasAnyActive =
      s.hasAnyActive := by
  simp only [hasAnyActive, List.any_map]
  congr 1
  funext p
  cases p <;> rfl

/-- The source gives an activated supervisor the phase `Running` in two ways; both are `activated`,
with its actions. -/
theorem transition_succeeded {s : Supervisor K E} (hl : s.phase.Live) (id : Nat)
    (symbols : List Symbol) :
    s.transitionForEvent (.providerStartSucceeded id symbols) = (s.activated id symbols,
      s.notifyOk ++ (s.preemptions id symbols ++
        [.scheduleBackoffTick (s.activated id symbols).backoffMs])) := by
  unfold transitionForEvent notifyOk
  cases hp : s.phase with
  | startup tx errors => cases tx <;> rfl
  | running => rfl
  | shuttingDown | terminated => rw [hp] at hl; exact hl.elim

/-- A failure during startup either ends it or leaves it as it is, with one more error. -/
theorem transition_startupFailed {s : Supervisor K E} {tx : Option InitialSender}
    {errors : List BorsaError} (hp : s.phase = .startup tx errors) (id : Nat)
    (error : BorsaError) :
    s.LiveTransition (.providerStartFailed id error)
      (s.transitionForEvent (.providerStartFailed id error)).1
      (s.transitionForEvent (.providerStartFailed id error)).2 := by
  have heq : s.transitionForEvent (.providerStartFailed id error) =
      { s with phase := .running }.handleStartupFailure id error tx errors := by
    unfold transitionForEvent
    rw [hp]
  rw [heq]
  unfold handleStartupFailure
  dsimp only
  split
  · next hterm => exact .startupTerminated hp hterm
  · next tx _ _ hne =>
    refine .startupFailed hp ?_
    cases tx with
    | none => exact .inr rfl
    | some tx => exact .inl (Bool.eq_false_iff.2 fun hterm => hne tx hterm rfl)

/-- A tick ends a startup whose round is exhausted, and otherwise starts a new round. -/
theorem transition_tick (s : Supervisor K E) :
    s.LiveTransition .backoffTick (s.transitionForEvent .backoffTick).1
      (s.transitionForEvent .backoffTick).2 := by
  have heq : s.transitionForEvent .backoffTick =
      { s with phase := .running }.handleBackoffTick s.phase := by
    unfold transitionForEvent
    cases s.phase <;> rfl
  rw [heq]
  unfold handleBackoffTick
  dsimp only
  rw [hasAnyActive_map_clearCooldown]
  split
  · next hat =>
    split
    · next hact => exact .tickActive hat hact
    · next hact =>
      rw [Bool.not_eq_true] at hact
      split
      · next hex hp => exact .tickTerminated hp hat hact hex
      · next hne =>
        refine .tickInactive hat hact ?_
        cases hex : s.roundExhausted with
        | false => exact .inl rfl
        | true =>
          right
          cases hp : s.phase with
          | startup tx errors =>
            cases tx with
            | none => rfl
            | some tx => exact absurd hp (hne tx errors hex)
          | running | shuttingDown | terminated => rfl
  · next hat => exact .tickQuiet (Bool.eq_false_iff.2 hat)

/-- Every transition in a live phase is one of the listed outcomes. -/
theorem transition_cases {s : Supervisor K E} (hl : s.phase.Live) (e : Event) :
    s.LiveTransition e (s.transitionForEvent e).1 (s.transitionForEvent e).2 := by
  cases e with
  | providerStartSucceeded id symbols =>
    rw [transition_succeeded hl]
    exact .succeeded id symbols
  | providerStartFailed id error =>
    cases hp : s.phase with
    | startup tx errors => exact transition_startupFailed hp id error
    | running =>
      have heq : s.transitionForEvent (.providerStartFailed id error) =
          (s.advanceScanCursorForFailure id, []) := by
        unfold transitionForEvent advanceScanCursorForFailure
        simp only [hp]
      rw [heq]
      exact .runningFailed hp
    | shuttingDown | terminated => rw [hp] at hl; exact hl.elim
  | sessionEnded id symbols =>
    have heq : s.transitionForEvent (.sessionEnded id symbols) =
        ({ s with providers := s.providers.set id .inCooldown }, []) := by
      unfold transitionForEvent
      cases hp : s.phase <;> simp
    rw [heq]
    exact .ended id symbols
  | backoffTick => exact transition_tick s
  | downstreamClosed =>
    have heq : s.transitionForEvent .downstreamClosed =
        ({ s with phase := .shuttingDown }, [.stopAll, .awaitAll]) := by
      unfold transitionForEvent
      cases s.phase <;> rfl
    rw [heq]
    exact .downstreamClosed
  | shutdown =>
    have heq : s.transitionForEvent .shutdown =
        ({ s with phase := .shuttingDown }, [.stopAll, .awaitAll]) := by
      unfold transitionForEvent
      cases s.phase <;> rfl
    rw [heq]
    exact .shutdown

/-! ## The step -/

namespace LiveTransition

variable {s t : Supervisor K E} {e : Event} {acts : List (Action K E)}

/-- No transition changes the configuration. -/
theorem config_eq (h : s.LiveTransition e t acts) : t.config = s.config := by
  cases h <;> rfl

/-- No transition adds or removes a provider. -/
theorem length_eq (h : s.LiveTransition e t acts) : t.providers.length = s.providers.length := by
  cases h <;> simp [activated, ticked, advanceScanCursorForFailure]

end LiveTransition

/-- The providers the scan after a transition visits: none once the round is exhausted. -/
def visited (self : Supervisor K E) : List Nat :=
  if self.roundExhausted then [] else self.scanned

/-- The attempt to start providers after a transition to `t` is some starts that lead to `next`,
with the record that there were any. It touches visited providers only and leaves none of them idle
with work. -/
theorem attemptStarts_spec {t : Supervisor K E} (hn : t.providers ≠ [])
    (actions : List (Action K E)) : ∃ reqs next, Starts t reqs next ∧
      (if t.shouldAttemptStarts then
        let (next, reqs) := t.computeNeededStarts
        if reqs.isEmpty then (next, actions)
        else ({ next with attemptedSinceLastTick := true }, actions ++ reqs)
      else (t, actions)) =
        ({ next with
            attemptedSinceLastTick := next.attemptedSinceLastTick || !reqs.isEmpty },
          actions ++ reqs) ∧
      (t.roundExhausted = true → reqs = []) ∧
      (∀ i ∈ t.visited, ¬ next.IdleWithWork i) ∧
      ∀ i, i ∉ t.visited → next.providers[i]? = t.providers[i]? := by
  by_cases hsh : t.shouldAttemptStarts = true
  · have hr : t.roundExhausted = false := by
      simp only [shouldAttemptStarts, Bool.and_eq_true, Bool.not_eq_true'] at hsh
      exact hsh.1
    obtain ⟨hs, hdone, hframe⟩ := computeNeededStarts_spec hn hr
    have hv : t.visited = t.scanned := by rw [visited, hr]; rfl
    rw [if_pos hsh, hv]
    generalize t.computeNeededStarts = c at hs hdone hframe
    obtain ⟨next, reqs⟩ := c
    refine ⟨reqs, next, hs, ?_, fun hx => ?_, hdone, hframe⟩
    · cases reqs <;> simp
    · rw [hr] at hx
      cases hx
  · refine ⟨[], t, .nil t, by rw [if_neg hsh]; simp, fun _ => rfl, fun i hi hw => hsh ?_,
      fun _ _ => rfl⟩
    have hr : t.roundExhausted = false := by
      rw [Bool.eq_false_iff]
      intro hx
      rw [visited, if_pos hx] at hi
      cases hi
    rw [shouldAttemptStarts, hr, hasIdleProvidersWithWork_iff.2 ⟨i, hw⟩]
    rfl

/-- `handle` as the transition, some starts `reqs` that lead to `next`, and the record that there
were any. -/
structure Handled (s : Supervisor K E) (e : Event) (reqs : List (Action K E))
    (next : Supervisor K E) : Prop where
  starts : Starts (s.transitionForEvent e).1 reqs next
  state : (s.handle e).1 =
    { next with attemptedSinceLastTick := next.attemptedSinceLastTick || !reqs.isEmpty }
  actions : (s.handle e).2 = (s.transitionForEvent e).2 ++ reqs
  exhausted : (s.transitionForEvent e).1.roundExhausted = true → reqs = []
  done : ∀ i ∈ (s.transitionForEvent e).1.visited, ¬ next.IdleWithWork i
  frame : ∀ i, i ∉ (s.transitionForEvent e).1.visited →
    next.providers[i]? = (s.transitionForEvent e).1.providers[i]?

theorem handle_spec {s : Supervisor K E} (hl : s.phase.Live) (hn : s.providers ≠ [])
    (e : Event) : ∃ reqs next, s.Handled e reqs next := by
  have hnt : (s.transitionForEvent e).1.providers ≠ [] := by
    rw [← List.length_pos_iff] at hn ⊢
    exact (transition_cases hl e).length_eq ▸ hn
  obtain ⟨reqs, next, hs, heq, hx, hdone, hframe⟩ :=
    attemptStarts_spec hnt (s.transitionForEvent e).2
  have heq : s.handle e = _ := heq
  exact ⟨reqs, next, hs, by rw [heq], by rw [heq], hx, hdone, hframe⟩

end Supervisor

end Borsa
