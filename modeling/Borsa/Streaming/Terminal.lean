import Borsa.Lib.Path
import Borsa.Streaming.Controller

/-!
# After the end of a stream

Once the phase is `ShuttingDown` or `Terminated` nothing should start again. `transition_for_event`
takes the phase out and puts `Running` in its place; a start's result that arrives now finds an arm
that returns the supervisor without putting the phase back, and a tick runs as in a live phase. The
scan that follows every transition does not look at the phase. `staysTerminal_iff` says which events
leave the supervisor at its end, `requestStart_of_stop_iff` when stopping a stream asks for no start
along with it, and `atRest_handle` that a supervisor which has just handled an event asks for none.
-/

namespace Borsa

variable {K E : Type}

/-- The stream is over. -/
def Phase.Terminal : Phase → Prop
  | .shuttingDown | .terminated => True
  | .startup .. | .running => False

/-- The action belongs to a stream that goes on. -/
def Action.OfLive : Action K E → Prop
  | .requestStart .. | .scheduleBackoffTick _ | .notifyInitial .. => True
  | .stopAll | .awaitAll | .preemptSessions _ => False

namespace Supervisor

/-- A scan from here would start nothing. -/
def AtRest (self : Supervisor K E) : Prop := ∀ i ∈ self.visited, ¬ self.IdleWithWork i

/-- The event leaves a stream that is over at its end: it is not a start's result nor a tick, and there
is nothing to start once it has been taken in. -/
def EndsQuietly (self : Supervisor K E) : Event → Prop
  | .providerStartSucceeded .. | .providerStartFailed .. | .backoffTick => False
  | .sessionEnded id _ => { self with providers := self.providers.set id .inCooldown }.AtRest
  | .shutdown | .downstreamClosed => self.AtRest

/-! ## The scan after a transition -/

/-- A scan asks for nothing but starts. -/
theorem Starts.eq_requestStart {self next : Supervisor K E} {reqs : List (Action K E)}
    (h : Starts self reqs next) :
    ∀ a ∈ reqs, ∃ id instruments, a = .requestStart id instruments := by
  induction h with
  | nil => exact nofun
  | cons _ _ ih => exact List.forall_mem_cons.2 ⟨⟨_, _, rfl⟩, ih⟩

/-- A scan that requests no start asks for nothing. -/
theorem Starts.eq_nil {self next : Supervisor K E} {reqs : List (Action K E)}
    (h : Starts self reqs next) (hno : ∀ id instruments, .requestStart id instruments ∉ reqs) :
    reqs = [] := by
  refine List.eq_nil_iff_forall_not_mem.2 fun a hm => ?_
  obtain ⟨id, instruments, rfl⟩ := h.eq_requestStart a hm
  exact hno id instruments hm

/-- Being at rest depends on the configuration, the providers' states and the scan's bounds. -/
theorem atRest_congr {s s' : Supervisor K E} (hc : s'.config = s.config)
    (hp : s'.providers = s.providers) (hv : s'.visited = s.visited) : s'.AtRest ↔ s.AtRest := by
  unfold AtRest
  rw [hv]
  exact forall₂_congr fun i _ => not_congr (idleWithWork_congr hc hp)

/-- Without providers there is nothing to start. -/
theorem atRest_of_nil {s : Supervisor K E} (h : s.providers = []) : s.AtRest := by
  intro i _ hw
  obtain ⟨p, hp, -⟩ := hw.idle
  rw [h] at hp
  cases hp

/-- A scan keeps its bounds. -/
theorem Starts.visited_eq {t next : Supervisor K E} {reqs : List (Action K E)}
    (hs : Starts t reqs next) : next.visited = t.visited := by
  unfold visited scanned
  rw [hs.frame, ← hs.length_eq]

/-- A scan that leaves nothing to start where it has been, and all else as it was, starts nothing
exactly when the supervisor was at rest. -/
theorem Starts.eq_nil_iff_atRest {t next : Supervisor K E} {reqs : List (Action K E)}
    (hs : Starts t reqs next) (hdone : ∀ i ∈ t.visited, ¬ next.IdleWithWork i)
    (hframe : ∀ i, i ∉ t.visited → next.providers[i]? = t.providers[i]?) :
    reqs = [] ↔ t.AtRest := by
  constructor
  · rintro rfl
    cases hs
    exact hdone
  · intro hrest
    cases hs with
    | nil => rfl
    | @cons _ _ id reqs hid hrests =>
      refine absurd hid (hrest id ?_)
      -- a provider out of the scan's bounds is not started
      by_contra hout
      obtain ⟨p, hp, hidle⟩ := hid.idle
      obtain ⟨hlt, -⟩ := List.getElem?_eq_some_iff.1 hp
      have hconn := hrests.getElem?_of_not_idle fun h => (isIdle_of_connect h).2 rfl
      rw [hframe id hout, hp, connect, List.getElem?_set_self hlt] at hconn
      cases hconn
      cases hidle

/-- Without providers no scan follows the transition. -/
theorem handle_of_nil {s : Supervisor K E} {e : Event}
    (hn : (s.transitionForEvent e).1.providers = []) : s.handle e = s.transitionForEvent e := by
  have hno : (s.transitionForEvent e).1.shouldAttemptStarts = false := by
    rw [shouldAttemptStarts, hasIdleProvidersWithWork, hn]
    exact Bool.and_false _
  unfold handle
  dsimp only
  rw [if_neg (Bool.eq_false_iff.1 hno)]

/-- What `handle` is, in any phase: the transition, then starts, of which there are none exactly when
the supervisor is at rest after the transition, and which leave it at rest. -/
theorem handle_cases (s : Supervisor K E) (e : Event) : ∃ reqs next,
    Starts (s.transitionForEvent e).1 reqs next ∧ (s.handle e).1.phase = next.phase ∧
      (s.handle e).2 = (s.transitionForEvent e).2 ++ reqs ∧
      (reqs = [] ↔ (s.transitionForEvent e).1.AtRest) ∧ (s.handle e).1.AtRest := by
  by_cases hn : (s.transitionForEvent e).1.providers = []
  · have hrest := atRest_of_nil hn
    refine ⟨[], _, .nil _, ?_⟩
    rw [handle_of_nil hn, List.append_nil]
    exact ⟨rfl, rfl, iff_of_true rfl hrest, hrest⟩
  · generalize ht : s.transitionForEvent e = t at hn
    obtain ⟨t, acts⟩ := t
    obtain ⟨reqs, next, hs, heq, -, hdone, hframe⟩ := attemptStarts_spec hn acts
    have heq : s.handle e = ({ next with
        attemptedSinceLastTick := next.attemptedSinceLastTick || !reqs.isEmpty }, acts ++ reqs) := by
      rw [← heq]
      unfold handle
      rw [ht]
    refine ⟨reqs, next, hs, by rw [heq], by rw [heq], hs.eq_nil_iff_atRest hdone hframe, ?_⟩
    rw [heq]
    intro i hi hw
    refine hdone i ?_ ⟨hw.idle, hw.canStream, hw.work⟩
    rw [← hs.visited_eq]
    exact hi

/-- A supervisor that has just handled an event is at rest. -/
theorem atRest_handle (s : Supervisor K E) (e : Event) : (s.handle e).1.AtRest := by
  obtain ⟨-, -, -, -, -, -, h⟩ := s.handle_cases e
  exact h

/-- Starts keep the phase. -/
theorem Starts.phase_eq {self next : Supervisor K E} {reqs : List (Action K E)}
    (h : Starts self reqs next) : next.phase = self.phase := by
  rw [h.frame]

/-! ## Steps at the end -/

/-- A step that leaves a stream over and asks for nothing that belongs to one that goes on. -/
def StaysTerminal (st : LTS.Step (Supervisor K E) Event) : Prop :=
  st.post.phase.Terminal ∧ ∀ a ∈ (st.pre.handle st.label).2, ¬ a.OfLive

/-- One event after another is handled. -/
def Handles (s : Supervisor K E) (e : Event) (s' : Supervisor K E) : Prop := s' = (s.handle e).1

/-- A start's result finds the phase gone. -/
theorem phase_startResult {s : Supervisor K E} (h : s.phase.Terminal) {e : Event}
    (he : (∃ id symbols, e = .providerStartSucceeded id symbols) ∨
      ∃ id error, e = .providerStartFailed id error) :
    (s.transitionForEvent e).1.phase = .running := by
  unfold transitionForEvent
  generalize s.phase = p at h
  rcases he with ⟨id, symbols, rfl⟩ | ⟨id, error, rfl⟩ <;> cases p with
  | startup | running => exact h.elim
  | shuttingDown | terminated => rfl

/-- A tick is scheduled again unless it ends a startup. -/
theorem schedules_tick {s : Supervisor K E} (h : s.phase.Terminal) :
    ∃ delay, .scheduleBackoffTick delay ∈ (s.transitionForEvent .backoffTick).2 := by
  have ht := s.transition_tick
  generalize (s.transitionForEvent .backoffTick).1 = t at ht
  generalize (s.transitionForEvent .backoffTick).2 = acts at ht
  cases ht with
  | tickTerminated hp =>
    rw [hp] at h
    exact h.elim
  | tickQuiet | tickActive | tickInactive => exact ⟨_, List.mem_singleton_self _⟩

/-- A stop takes any phase to the shutdown, and stops all sessions. -/
theorem transition_stop (s : Supervisor K E) {e : Event}
    (he : e = .shutdown ∨ e = .downstreamClosed) :
    s.transitionForEvent e = ({ s with phase := .shuttingDown }, [.stopAll, .awaitAll]) := by
  unfold transitionForEvent
  rcases he with rfl | rfl <;> cases s.phase <;> rfl

/-- A stop leaves at rest what was at rest before. -/
theorem atRest_stop_iff (s : Supervisor K E) {e : Event}
    (he : e = .shutdown ∨ e = .downstreamClosed) :
    (s.transitionForEvent e).1.AtRest ↔ s.AtRest := by
  rw [transition_stop s he]
  exact atRest_congr rfl rfl rfl

/-- Any other event leaves the phase over and at most stops the sessions. -/
theorem transition_of_stop_or_end {s : Supervisor K E} (h : s.phase.Terminal) {e : Event}
    (he : (∃ id symbols, e = .sessionEnded id symbols) ∨ e = .shutdown ∨ e = .downstreamClosed) :
    (s.transitionForEvent e).1.phase.Terminal ∧
      (∀ a ∈ (s.transitionForEvent e).2, ¬ a.OfLive) ∧
      ((s.transitionForEvent e).1.AtRest ↔ s.EndsQuietly e) := by
  rcases he with ⟨id, symbols, rfl⟩ | hstop
  · have heq : s.transitionForEvent (.sessionEnded id symbols) =
        ({ s with providers := s.providers.set id .inCooldown }, []) := by
      unfold transitionForEvent
      cases hp : s.phase <;> simp
    rw [heq]
    exact ⟨h, nofun, Iff.rfl⟩
  · have hquiet : s.EndsQuietly e = s.AtRest := by rcases hstop with rfl | rfl <;> rfl
    rw [atRest_stop_iff s hstop, hquiet, transition_stop s hstop]
    exact ⟨trivial, by simp [Action.OfLive], Iff.rfl⟩

/-- A step from a stream that is over leaves it so, and asks for nothing that belongs to one that goes
on, exactly when its event ends quietly. -/
theorem staysTerminal_iff {s s' : Supervisor K E} {e : Event} (h : s.phase.Terminal)
    (hs : s.Handles e s') : StaysTerminal ⟨s, e, s'⟩ ↔ s.EndsQuietly e := by
  obtain rfl : s' = (s.handle e).1 := hs
  obtain ⟨reqs, next, hst, hphase, hacts, hnil, -⟩ := s.handle_cases e
  unfold StaysTerminal
  dsimp only
  rw [hphase, hst.phase_eq, hacts]
  have quiet : ((∃ id symbols, e = .sessionEnded id symbols) ∨ e = .shutdown ∨
      e = .downstreamClosed) →
      ((s.transitionForEvent e).1.phase.Terminal ∧
        (∀ a ∈ (s.transitionForEvent e).2 ++ reqs, ¬ a.OfLive) ↔ s.EndsQuietly e) := by
    intro he
    obtain ⟨hp, ha, hset⟩ := transition_of_stop_or_end h he
    rw [and_iff_right hp, List.forall_mem_append, and_iff_right ha, ← hset, ← hnil]
    constructor
    · exact fun hno => hst.eq_nil fun id instruments hm => hno _ hm trivial
    · rintro rfl
      exact nofun
  cases e with
  | providerStartSucceeded id symbols =>
    rw [phase_startResult h (.inl ⟨id, symbols, rfl⟩)]
    exact iff_of_false And.left fun hf => hf
  | providerStartFailed id error =>
    rw [phase_startResult h (.inr ⟨id, error, rfl⟩)]
    exact iff_of_false And.left fun hf => hf
  | backoffTick =>
    obtain ⟨delay, hm⟩ := schedules_tick h
    exact iff_of_false (fun hall => hall.2 _ (List.mem_append_left _ hm) trivial)
      fun hf => hf
  | sessionEnded id symbols => exact quiet (.inl ⟨id, symbols, rfl⟩)
  | downstreamClosed => exact quiet (.inr (.inr rfl))
  | shutdown => exact quiet (.inr (.inl rfl))

/-! ## Stopping -/

/-- Only a stop enters the shutdown. -/
theorem stops_of_enters {s : Supervisor K E} {e : Event} (hpre : s.phase ≠ .shuttingDown)
    (hpost : (s.transitionForEvent e).1.phase = .shuttingDown) :
    e = .shutdown ∨ e = .downstreamClosed := by
  have hlive : s.phase.Live → e = .shutdown ∨ e = .downstreamClosed := by
    intro hl
    have ht := transition_cases hl e
    generalize (s.transitionForEvent e).1 = t at ht hpost
    generalize (s.transitionForEvent e).2 = acts at ht
    cases ht with
    | shutdown => exact .inl rfl
    | downstreamClosed => exact .inr rfl
    | succeeded | startupFailed | startupTerminated | tickTerminated => cases hpost
    | runningFailed hp => cases hp.symm.trans hpost
    | ended | tickQuiet | tickActive | tickInactive => exact absurd hpost hpre
  cases hp : s.phase with
  | startup tx errors => exact hlive (by rw [hp]; trivial)
  | running => exact hlive (by rw [hp]; trivial)
  | shuttingDown => exact absurd hp hpre
  | terminated =>
    have hterm : s.phase.Terminal := by rw [hp]; trivial
    cases e with
    | shutdown => exact .inl rfl
    | downstreamClosed => exact .inr rfl
    | providerStartSucceeded id symbols =>
      cases (phase_startResult hterm (.inl ⟨id, symbols, rfl⟩)).symm.trans hpost
    | providerStartFailed id error =>
      cases (phase_startResult hterm (.inr ⟨id, error, rfl⟩)).symm.trans hpost
    | sessionEnded id symbols =>
      unfold transitionForEvent at hpost
      rw [hp] at hpost
      cases hpost
    | backoffTick =>
      have ht := s.transition_tick
      generalize (s.transitionForEvent .backoffTick).1 = t at ht hpost
      generalize (s.transitionForEvent .backoffTick).2 = acts at ht
      cases ht with
      | tickTerminated => cases hpost
      | tickQuiet | tickActive | tickInactive => exact absurd hpost hpre

/-- A stop asks for no start along with it exactly when there is nothing to start. -/
theorem requestStart_of_stop_iff (s : Supervisor K E) {e : Event}
    (he : e = .shutdown ∨ e = .downstreamClosed) :
    .stopAll ∈ (s.handle e).2 ∧
      ((∀ id instruments, .requestStart id instruments ∉ (s.handle e).2) ↔ s.AtRest) := by
  obtain ⟨reqs, next, hst, -, hacts, hnil, -⟩ := s.handle_cases e
  rw [hacts, ← atRest_stop_iff s he, ← hnil, transition_stop s he]
  refine ⟨List.mem_append_left _ (List.mem_cons_self ..), ?_⟩
  constructor
  · intro hno
    exact hst.eq_nil fun id instruments hm => hno id instruments (List.mem_append_right _ hm)
  · rintro rfl id instruments hm
    simp at hm

/-! ## Runs -/

/-- A stream that is over stays so, whatever events are handled, and asks for nothing that belongs to
one that goes on, exactly when each of them ends quietly; and the step that enters the shutdown stops
all sessions and asks for no start along with it exactly when there is nothing to start before it. -/
theorem terminal_run_iff {s s' : Supervisor K E} {tr : List (LTS.Step (Supervisor K E) Event)}
    (h : LTS.Path Handles s tr s') :
    (s.phase.Terminal →
      ((∀ st ∈ tr, StaysTerminal st) ↔ ∀ st ∈ tr, st.pre.EndsQuietly st.label)) ∧
    ∀ st ∈ tr, st.pre.phase ≠ .shuttingDown → st.post.phase = .shuttingDown →
      .stopAll ∈ (st.pre.handle st.label).2 ∧
        ((∀ id instruments, .requestStart id instruments ∉ (st.pre.handle st.label).2) ↔
          st.pre.AtRest) := by
  constructor
  · intro hterm
    exact h.forall_iff_of_keeps (I := fun s => s.phase.Terminal) hterm
      (fun _ _ _ ht hs => staysTerminal_iff ht hs) fun _ _ _ _ _ hstay => hstay.1
  · intro st hst hpre hpost
    obtain ⟨hstep, -⟩ := h.step_mem hst
    have hstep : st.post = (st.pre.handle st.label).1 := hstep
    obtain ⟨reqs, next, hs, hphase, -⟩ := st.pre.handle_cases st.label
    rw [hstep, hphase, hs.phase_eq] at hpost
    exact st.pre.requestStart_of_stop_iff (stops_of_enters hpre hpost)

/-- A stream of one provider that is stopped while its start is in flight. -/
def stoppedSolo : Supervisor Unit Unit :=
  ((System.start (quoteChain (some ⟨0⟩) 500 30000 2 [[⟨"X"⟩]])).sup.handle .shutdown).1

/-- The late failure of that start, and the tick that was scheduled before the stop. -/
def lateFailure : List (LTS.Step (Supervisor Unit Unit) Event) :=
  let failed := (stoppedSolo.handle (.providerStartFailed 0 (.other "refused"))).1
  [⟨stoppedSolo, .providerStartFailed 0 (.other "refused"), failed⟩,
    ⟨failed, .backoffTick, (failed.handle .backoffTick).1⟩]

theorem lateFailure_path : LTS.Path Handles stoppedSolo lateFailure
    ((stoppedSolo.handle (.providerStartFailed 0 (.other "refused"))).1.handle .backoffTick).1 :=
  .cons rfl (.single rfl)

/-- The stream is over, and does not stay so. -/
theorem lateFailure_not_staysTerminal :
    LTS.Path Handles stoppedSolo lateFailure
      ((stoppedSolo.handle (.providerStartFailed 0 (.other "refused"))).1.handle
        .backoffTick).1 ∧
    stoppedSolo.phase.Terminal ∧ ¬ ∀ st ∈ lateFailure, StaysTerminal st := by
  refine ⟨lateFailure_path, trivial, fun h => ?_⟩
  have hfirst := h _ (List.mem_cons_self ..)
  exact hfirst.1

/-- The exact condition along that run. -/
theorem lateFailure_terminal_iff :
    (stoppedSolo.phase.Terminal →
      ((∀ st ∈ lateFailure, StaysTerminal st) ↔
        ∀ st ∈ lateFailure, st.pre.EndsQuietly st.label)) ∧
    ∀ st ∈ lateFailure, st.pre.phase ≠ .shuttingDown → st.post.phase = .shuttingDown →
      .stopAll ∈ (st.pre.handle st.label).2 ∧
        ((∀ id instruments, .requestStart id instruments ∉ (st.pre.handle st.label).2) ↔
          st.pre.AtRest) :=
  terminal_run_iff lateFailure_path

end Supervisor

end Borsa
