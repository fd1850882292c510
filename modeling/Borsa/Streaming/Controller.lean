import Borsa.Lib.Keyed
import Borsa.Lib.Path
import Borsa.Core
import Borsa.Streaming.Transition

/-!
# The controller

`spawn_kind_supervisor` runs one supervisor together with the tasks it asks for: the starts in flight
and the live sessions. A `System` is the supervisor composed with these two. The controller receives
a start's outcome, a session's end, a tick of the backoff timer or a stop in any order, hands it to
`Supervisor::handle` and carries out the actions, until the phase is no longer live: both shutdown
and a failed startup make the loop return.

A tick may come at any time here; the timer is re-armed by every activation and every tick.
-/

namespace Borsa

variable {K E : Type}

/-- What `stream_updates_with_backoff` hands to `spawn_kind_supervisor`, without the parameters that
only sessions and timers read. -/
structure KindSupervisorParams (K E : Type) where
  providers : List (Connector K)
  /-- Assigned instruments, aligned with `providers`. -/
  providerInstruments : List (List (Instrument K E))
  /-- Allowed symbols, aligned with `providers`. -/
  providerAllow : List (Finset Symbol)
  /-- The symbols that must be covered across all providers. -/
  requiredSymbols : Finset Symbol
  minBackoffMs : UInt64
  maxBackoffMs : UInt64
  factor : UInt32
  initialNotify : Option InitialSender
  /-- The kind of update, the type parameter of the source. -/
  kind : StreamKind

/-- The backoff settings as `stream_updates_with_backoff` passes them on. -/
def KindSupervisorParams.withBackoff (params : KindSupervisorParams K E)
    (resolvedBackoff : BackoffConfig) : KindSupervisorParams K E :=
  { params with
    minBackoffMs := resolvedBackoff.minBackoffMs
    maxBackoffMs := resolvedBackoff.maxBackoffMs
    factor := max resolvedBackoff.factor 1 }

/-- The supervisor the controller starts from. -/
def KindSupervisorParams.supervisor (params : KindSupervisorParams K E) : Supervisor K E where
  providers := List.replicate params.providers.length .idle
  providerInstruments := params.providerInstruments
  providerAllow := params.providerAllow
  requiredSymbols := params.requiredSymbols
  providersCanStream := params.providers.map (·.canStream params.kind)
  capability := params.kind.capability
  startIndex := 0
  scanCursor := 0
  roundExhausted := false
  backoffMs := params.minBackoffMs
  minBackoffMs := params.minBackoffMs
  maxBackoffMs := params.maxBackoffMs
  factor := params.factor
  attemptedSinceLastTick := false
  phase := .startup params.initialNotify []

/-- The controller's first supervisor has only idle providers. -/
theorem KindSupervisorParams.eq_idle_of_supervisor {params : KindSupervisorParams K E} {id : Nat}
    {p : ProviderState} (hp : params.supervisor.providers[id]? = some p) : p = .idle := by
  have hp : (List.replicate params.providers.length ProviderState.idle)[id]? = some p := hp
  rw [List.getElem?_replicate] at hp
  split at hp
  · exact (Option.some.inj hp).symm
  · cases hp

/-- The starts a list of actions puts in flight, each with the symbols of its instruments. -/
def launched (actions : List (Action K E)) : List (Nat × List Symbol) :=
  actions.filterMap fun a =>
    match a with
    | .requestStart id instruments => some (id, symbolsOf instruments)
    | _ => none

@[simp] theorem launched_append (a b : List (Action K E)) :
    launched (a ++ b) = launched a ++ launched b :=
  List.filterMap_append ..

/-- What a list of actions tells the caller of `stream_*`. -/
def notified (actions : List (Action K E)) : List (InitialSender × Except BorsaError Unit) :=
  actions.filterMap fun a =>
    match a with
    | .notifyInitial tx result => some (tx, result)
    | _ => none

@[simp] theorem notified_append (a b : List (Action K E)) :
    notified (a ++ b) = notified a ++ notified b :=
  List.filterMap_append ..

/-- The sessions a list of actions preempts. -/
def preempted (actions : List (Action K E)) : List Nat :=
  actions.flatMap fun a =>
    match a with
    | .preemptSessions providerIds => providerIds
    | _ => []

@[simp] theorem preempted_append (a b : List (Action K E)) :
    preempted (a ++ b) = preempted a ++ preempted b :=
  List.flatMap_append ..

/-- The backoff ticks a list of actions schedules. -/
def scheduled (actions : List (Action K E)) : List UInt64 :=
  actions.filterMap fun a =>
    match a with
    | .scheduleBackoffTick delayMs => some delayMs
    | _ => none

@[simp] theorem scheduled_append (a b : List (Action K E)) :
    scheduled (a ++ b) = scheduled a ++ scheduled b :=
  List.filterMap_append ..

/-- A supervisor with its tasks. -/
structure System (K E : Type) where
  sup : Supervisor K E
  /-- The starts in flight: provider and symbols. -/
  starts : List (Nat × List Symbol)
  /-- The sessions whose end has not been handled: provider and symbols. -/
  sessions : List (Nat × List Symbol)

namespace System

/-- The first starts, requested before the controller enters its loop. They are not recorded as
attempts. -/
def kick (params : KindSupervisorParams K E) : Supervisor K E × List (Action K E) :=
  if params.supervisor.shouldAttemptStarts then params.supervisor.computeNeededStarts
  else (params.supervisor, [])

/-- The system when the controller enters its loop. -/
def start (params : KindSupervisorParams K E) : System K E where
  sup := (kick params).1
  starts := launched (kick params).2
  sessions := []

/-- The events that can arrive. -/
def Enabled (y : System K E) : Event → Prop
  | .providerStartSucceeded id symbols => (id, symbols) ∈ y.starts
  | .providerStartFailed id _ => ∃ symbols, (id, symbols) ∈ y.starts
  | .sessionEnded id symbols => (id, symbols) ∈ y.sessions
  | .backoffTick | .downstreamClosed | .shutdown => True

/-- The starts still in flight once `e` has arrived. -/
def startsAfter (y : System K E) (e : Event) : List (Nat × List Symbol) :=
  match e with
  | .providerStartSucceeded id symbols => y.starts.erase (id, symbols)
  | .providerStartFailed id _ => y.starts.eraseP fun x => x.1 == id
  | _ => y.starts

/-- The live sessions once `e` has arrived; a session is spawned for a start that succeeded. -/
def sessionsAfter (y : System K E) (e : Event) : List (Nat × List Symbol) :=
  match e with
  | .providerStartSucceeded id symbols => y.sessions ++ [(id, symbols)]
  | .sessionEnded id symbols => y.sessions.erase (id, symbols)
  | _ => y.sessions

/-- One turn of the controller's loop. -/
def deliver (y : System K E) (e : Event) : System K E where
  sup := (y.sup.handle e).1
  starts := y.startsAfter e ++ launched (y.sup.handle e).2
  sessions := y.sessionsAfter e

/-- The actions of that turn. -/
def emitted (y : System K E) (e : Event) : List (Action K E) := (y.sup.handle e).2

/-- The loop takes a turn while the phase is live. -/
structure Turn (y : System K E) (e : Event) (y' : System K E) : Prop where
  live : y.sup.phase.Live
  enabled : y.Enabled e
  next : y' = y.deliver e

end System

/-- A run of the controller. Without providers it reports an error and starts no supervisor. -/
structure Run (params : KindSupervisorParams K E) (tr : List (LTS.Step (System K E) Event))
    (y : System K E) : Prop where
  nonempty : params.providers ≠ []
  path : LTS.Path System.Turn (System.start params) tr y

/-! ## Replaying events -/

instance (p : Phase) : Decidable p.Live :=
  match p with
  | .startup .. | .running => .isTrue trivial
  | .shuttingDown | .terminated => .isFalse id

namespace System

instance (y : System K E) (e : Event) : Decidable (y.Enabled e) :=
  match e with
  | .providerStartSucceeded id symbols => inferInstanceAs (Decidable ((id, symbols) ∈ y.starts))
  | .providerStartFailed id _ =>
    decidable_of_iff (∃ x ∈ y.starts, x.1 = id)
      ⟨fun ⟨x, hx, hid⟩ => ⟨x.2, hid ▸ hx⟩, fun ⟨syms, hm⟩ => ⟨(id, syms), hm, rfl⟩⟩
  | .sessionEnded id symbols => inferInstanceAs (Decidable ((id, symbols) ∈ y.sessions))
  | .backoffTick | .downstreamClosed | .shutdown => .isTrue trivial

/-- The steps of a given order of events. -/
def replay (y : System K E) : List Event → List (LTS.Step (System K E) Event)
  | [] => []
  | e :: events => ⟨y, e, y.deliver e⟩ :: (y.deliver e).replay events

/-- The state a given order of events leads to. -/
def after (y : System K E) (events : List Event) : System K E := events.foldl deliver y

/-- An order of events in which each can arrive when it does is a run. -/
theorem replay_path (y : System K E) (events : List Event)
    (h : ∀ st ∈ y.replay events, st.pre.sup.phase.Live ∧ st.pre.Enabled st.label) :
    LTS.Path Turn y (y.replay events) (y.after events) := by
  induction events generalizing y with
  | nil => exact .nil
  | cons e events ih =>
    obtain ⟨hl, he⟩ := h ⟨y, e, y.deliver e⟩ (List.mem_cons_self ..)
    exact .cons ⟨hl, he, rfl⟩ (ih (y.deliver e) fun st hst => h st (List.mem_cons_of_mem _ hst))

end System

/-- A replayed order of events is a run of the controller. -/
theorem Run.replay {params : KindSupervisorParams K E} (hn : params.providers ≠ [])
    (events : List Event)
    (h : ∀ st ∈ (System.start params).replay events,
      st.pre.sup.phase.Live ∧ st.pre.Enabled st.label) :
    Run params ((System.start params).replay events) ((System.start params).after events) :=
  ⟨hn, System.replay_path _ events h⟩

/-- A chain of quote providers, each with an instrument for every symbol it may stream. -/
def quoteChain (tx : Option InitialSender) (minBackoffMs maxBackoffMs : UInt64) (factor : UInt32)
    (symbols : List (List Symbol)) : KindSupervisorParams Unit Unit where
  providers := symbols.map fun _ => ⟨"quotes", fun _ => true, true, false, false⟩
  providerInstruments := symbols.map fun syms => syms.map fun sym => ⟨.security ⟨sym, none⟩, ()⟩
  providerAllow := symbols.map List.toFinset
  requiredSymbols := symbols.flatten.toFinset
  minBackoffMs
  maxBackoffMs
  factor
  initialNotify := tx
  kind := .quotes

end Borsa
