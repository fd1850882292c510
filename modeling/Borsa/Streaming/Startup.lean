import Borsa.Streaming.Failover

/-!
# The end of startup

When the caller of `stream_*` is told that the stream has failed. While its sender waits, the start
index is the first provider, so the round is exhausted exactly when a start of the *last* provider
fails (`Reach.exhausted_iff`), whatever the other providers are doing. Hence the two conditions of
this module: the report is too early when another start is in flight at that moment
(`failure_final_iff`), and it never comes when the last provider is never started
(`startup_answered_iff`).
-/

namespace Borsa

open Supervisor

variable {K E : Type}

/-- No provider is connecting or active. -/
def Supervisor.Quiet (self : Supervisor K E) : Prop :=
  ∀ (id : Nat) (p : ProviderState), self.providers[id]? = some p → ¬ p.Live

/-- Every provider that can stream and has needed instruments has failed since the last tick. -/
def Supervisor.Spent (self : Supervisor K E) : Prop :=
  ∀ (id : Nat) (p : ProviderState), self.providers[id]? = some p →
    self.canProviderStream id = true → self.providerHasAvailableWork id = true → p = .inCooldown

namespace System

/-! ## Failures during startup -/

/-- While the caller waits, a failure exhausts the round exactly when it is the last provider's. -/
theorem Reach.exhausted_iff {params : KindSupervisorParams K E} {y : System K E}
    (h : y.Reach params) {tx : InitialSender} {errors : List BorsaError}
    (hp : y.sup.phase = .startup (some tx) errors) {id : Nat}
    (hid : id < y.sup.providers.length) :
    (y.sup.advanceScanCursorForFailure id).roundExhausted = true ↔
      id + 1 = y.sup.providers.length := by
  have hst := h.starting _ _ hp
  simp only [advanceScanCursorForFailure, hst.startIndex, hst.scanning rfl, beq_iff_eq]
  rcases Nat.lt_or_eq_of_le hid with hlt | heq
  · rw [Nat.mod_eq_of_lt hlt, if_neg (Nat.succ_ne_zero id)]
    exact iff_of_false Bool.false_ne_true (Nat.ne_of_lt hlt)
  · have heq : id + 1 = y.sup.providers.length := heq
    rw [heq, Nat.mod_self, if_pos rfl]
    exact iff_of_true rfl rfl

/-- A provider whose start is answered is connecting. -/
theorem Reach.connecting_of_failed {params : KindSupervisorParams K E} {y : System K E}
    (h : y.Reach params) {id : Nat} {error : BorsaError}
    (he : y.Enabled (.providerStartFailed id error)) :
    ∃ syms, y.sup.providers[id]? = some (.connecting syms) := by
  obtain ⟨syms, hm⟩ := he
  exact ⟨syms, h.agrees.connecting hm⟩

/-- While the caller waits, a failure of the last provider ends the startup with an error and no
scan, and any other failure leaves the caller waiting. -/
theorem Turn.startup_failed {params : KindSupervisorParams K E} {y y' : System K E} {id : Nat}
    {error : BorsaError} (h : y.Reach params) (ht : y.Turn (.providerStartFailed id error) y')
    {tx : InitialSender} {errors : List BorsaError}
    (hp : y.sup.phase = .startup (some tx) errors) :
    (id + 1 = y.sup.providers.length ∧ y'.sup.phase = .terminated ∧
      notified (y.emitted (.providerStartFailed id error)) =
        [(tx, .error (collapseStreamErrors y.sup.capability (errors ++ [error])))] ∧
      y'.sup.providers = y.sup.providers.set id .inCooldown) ∨
    (id + 1 ≠ y.sup.providers.length ∧
      y'.sup.phase = .startup (some tx) (errors ++ [error]) ∧
      notified (y.emitted (.providerStartFailed id error)) = []) := by
  obtain ⟨syms, hconn⟩ := h.connecting_of_failed ht.enabled
  obtain ⟨hlt, -⟩ := List.getElem?_eq_some_iff.1 hconn
  have hx := h.exhausted_iff hp hlt
  obtain ⟨t, acts, reqs, hc⟩ := ht.cases h.providers_ne_nil
  have hnot := hc.notified
  have hphase := hc.phase
  have hps := hc.providers_eq
  cases hc.transition with
  | startupFailed hp' hterm =>
    cases hp'.symm.trans hp
    have hopen : (y.sup.advanceScanCursorForFailure id).roundExhausted = false := by
      rcases hterm with hterm | hnone
      · exact scanning_of_failed (h.not_active hp) hterm
      · cases hnone
    refine .inr ⟨fun heq => ?_, hphase, hnot⟩
    rw [hx.2 heq] at hopen
    cases hopen
  | startupTerminated hp' hterm =>
    cases hp'.symm.trans hp
    have hex : (y.sup.advanceScanCursorForFailure id).roundExhausted = true := by
      rw [shouldTerminateStartup, Bool.and_eq_true] at hterm
      exact hterm.2
    exact .inl ⟨hx.1 hex, hphase, hnot, hps hex⟩
  | runningFailed hp' =>
    cases hp'.symm.trans hp

/-! ## A failure is reported when the last provider's start fails -/

/-- The turn reports the stream as failed. -/
def Reported (st : LTS.Step (System K E) Event) : Prop :=
  st.post.sup.phase = .terminated ∨
    ∃ tx error, (tx, .error error) ∈ notified (st.pre.emitted st.label)

/-- The only report of a failure is that of the last provider's failed start. -/
theorem Turn.of_reported {params : KindSupervisorParams K E} {y y' : System K E} {e : Event}
    (h : y.Reach params) (ht : y.Turn e y') (hr : Reported ⟨y, e, y'⟩) :
    ∃ tx errors id error, y.sup.phase = .startup (some tx) errors ∧
      e = .providerStartFailed id error ∧ id + 1 = y.sup.providers.length := by
  obtain ⟨t, acts, reqs, hc⟩ := ht.cases h.providers_ne_nil
  have hl := ht.live
  have hr : t.phase = .terminated ∨ ∃ tx error, (tx, .error error) ∈ notified acts := by
    rcases hr with hr | ⟨tx, error, hm⟩
    · exact .inl (hc.phase.symm.trans hr)
    · exact .inr ⟨tx, error, hc.notified ▸ hm⟩
  have quiet : t.phase.Live → notified acts = [] → False := by
    intro hlive hnil
    rcases hr with hr | ⟨tx, error, hm⟩
    · rw [hr] at hlive
      exact hlive
    · rw [hnil] at hm
      cases hm
  cases hc.transition with
  | succeeded id symbols =>
    rcases hr with hr | ⟨tx, error, hm⟩
    · cases hr
    · rw [notified_succeeded] at hm
      cases htx : y.sup.phase.initialTx? <;> simp [htx] at hm
  | startupFailed => exact (quiet trivial rfl).elim
  | @startupTerminated id error tx errors hp =>
    rcases ht.startup_failed h hp with ⟨hlast, -⟩ | ⟨-, hphase, -⟩
    · exact ⟨tx, errors, id, error, hp, rfl, hlast⟩
    · rw [hc.phase] at hphase
      cases hphase
  | runningFailed | ended | tickQuiet | tickActive | tickInactive => exact (quiet hl rfl).elim
  | tickTerminated hp _ _ hx =>
    rw [(h.starting _ _ hp).scanning rfl] at hx
    cases hx
  | shutdown | downstreamClosed =>
    rcases hr with hr | ⟨tx, error, hm⟩
    · cases hr
    · cases hm

/-- When a failure is reported no start is in flight and no session is live. -/
def FinalWhenReported (st : LTS.Step (System K E) Event) : Prop :=
  Reported st → st.post.sup.Quiet ∧ st.post.starts = []

/-- When the last provider's start fails while the caller waits, no other start is in flight. -/
def LastAlone (st : LTS.Step (System K E) Event) : Prop :=
  ∀ tx errors id error, st.pre.sup.phase = .startup (some tx) errors →
    st.label = .providerStartFailed id error → id + 1 = st.pre.sup.providers.length →
    ∀ (j : Nat) (syms : List Symbol), st.pre.sup.providers[j]? = some (.connecting syms) → j = id

/-- A turn reports a failure only when it is final exactly when the last provider fails alone. -/
theorem Turn.finalWhenReported_iff {params : KindSupervisorParams K E} {y y' : System K E}
    {e : Event} (h : y.Reach params) (ht : y.Turn e y') :
    FinalWhenReported ⟨y, e, y'⟩ ↔ LastAlone ⟨y, e, y'⟩ := by
  constructor
  · intro hf tx errors id error hp he hlast j syms hj
    have he : e = .providerStartFailed id error := he
    subst he
    rcases ht.startup_failed h hp with ⟨-, hphase, -, hps⟩ | ⟨hne, -⟩
    · by_contra hne
      refine (hf (.inl hphase)).1 j (.connecting syms) ?_ rfl
      rw [hps, List.getElem?_set_ne (Ne.symm hne)]
      exact hj
    · exact absurd hlast hne
  · intro hla hr
    obtain ⟨tx, errors, id, error, hp, rfl, hlast⟩ := ht.of_reported h hr
    rcases ht.startup_failed h hp with ⟨-, -, -, hps⟩ | ⟨hne, -⟩
    · have hquiet : y'.sup.Quiet := by
        intro j p hj hl
        rw [hps] at hj
        rcases getElem?_set_eq_some.1 hj with ⟨-, -, rfl⟩ | ⟨hne, hj⟩
        · cases hl
        · cases p with
          | connecting syms => exact hne (hla tx errors id error hp rfl hlast j syms hj).symm
          | active syms => exact h.not_active hp j syms hj
          | idle | idleFromCooldown | inCooldown => cases hl
      refine ⟨hquiet, List.eq_nil_iff_forall_not_mem.2 fun x hx => ?_⟩
      exact hquiet x.1 _ ((h.turn ht).agrees.connecting hx) rfl
    · exact absurd hlast hne

end System

/-- In every run a failure is reported only when it is final exactly when no other start is in flight
whenever the last provider's start fails while the caller waits. -/
theorem finalWhenReported_run_iff {params : KindSupervisorParams K E}
    {tr : List (LTS.Step (System K E) Event)} {y : System K E} (h : Run params tr y) :
    (∀ st ∈ tr, System.FinalWhenReported st) ↔ ∀ st ∈ tr, System.LastAlone st :=
  h.path.forall_iff (System.start_reach h.nonempty) (fun _ _ _ hr ht => hr.turn ht)
    fun _ _ _ hr ht => ht.finalWhenReported_iff hr

/-- A first choice for two symbols and one fallback for each. -/
def forkChain : KindSupervisorParams Unit Unit :=
  quoteChain (some ⟨0⟩) 500 30000 2 [[⟨"X"⟩, ⟨"Y"⟩], [⟨"X"⟩], [⟨"Y"⟩]]

/-- The first choice fails, and then the second of the two fallbacks that were started for it. -/
def forkEvents : List Event :=
  [.providerStartFailed 0 (.other "refused"), .providerStartFailed 2 (.other "refused")]

set_option maxRecDepth 4000 in
theorem fork_run : Run forkChain ((System.start forkChain).replay forkEvents)
    ((System.start forkChain).after forkEvents) :=
  Run.replay (by decide) forkEvents (by decide)

set_option maxRecDepth 4000 in
/-- The stream is reported as failed while the first fallback is still connecting. -/
theorem fork_run_early : Run forkChain ((System.start forkChain).replay forkEvents)
    ((System.start forkChain).after forkEvents) ∧
    ∃ st ∈ (System.start forkChain).replay forkEvents, ¬ System.FinalWhenReported st := by
  refine ⟨fork_run, _, List.mem_cons_of_mem _ (List.mem_cons_self ..), fun h => ?_⟩
  have hquiet := (h (.inl rfl)).1
  exact hquiet 1 (.connecting [⟨"X"⟩]) (by decide) rfl

/-- The exact condition along that run. -/
theorem finalWhenReported_fork_run_iff :
    (∀ st ∈ (System.start forkChain).replay forkEvents, System.FinalWhenReported st) ↔
      ∀ st ∈ (System.start forkChain).replay forkEvents, System.LastAlone st :=
  finalWhenReported_run_iff fork_run

/-! ## A failure is reported at all when the last provider can be started -/

namespace Supervisor

/-- Where nothing is connecting or active nothing is covered. -/
theorem Quiet.not_coveredBefore {s : Supervisor K E} (h : s.Quiet) (i : Nat) (sym : Symbol) :
    ¬ CoveredBefore s.providers i sym := by
  intro ⟨j, p, _, hp, syms, hs, _⟩
  exact h j p hp (by rw [ProviderState.Live, hs]; rfl)

/-- Where nothing is connecting or active a provider has work when it has an assigned symbol. -/
theorem Quiet.available_iff {s : Supervisor K E} (h : s.Quiet) (i : Nat) :
    s.providerHasAvailableWork i = true ↔ ∃ sym, s.Assigned i sym := by
  rw [providerHasAvailableWork, Bool.not_eq_true', List.isEmpty_eq_false_iff, needed_ne_nil_iff]
  exact exists_congr fun sym => and_iff_left (h.not_coveredBefore i sym)

/-- How many providers are not in cooldown. -/
def untried (self : Supervisor K E) : Nat :=
  self.providers.countP fun p => decide (p ≠ .inCooldown)

/-- Starts put no provider into cooldown. -/
theorem Starts.untried_eq {self next : Supervisor K E} {reqs : List (Action K E)}
    (h : Starts self reqs next) : next.untried = self.untried := by
  induction h with
  | nil => rfl
  | @cons self next id reqs hid _ ih =>
    obtain ⟨p, hp, hidle⟩ := hid.idle
    obtain ⟨hlt, hget⟩ := List.getElem?_eq_some_iff.1 hp
    have hne : decide (self.providers[id] ≠ .inCooldown) = true := by
      rw [hget, decide_eq_true_iff]
      rintro rfl
      cases hidle
    have hpos : 0 < self.providers.countP fun p => decide (p ≠ .inCooldown) :=
      List.countP_pos_iff.2 ⟨self.providers[id], List.getElem_mem hlt, hne⟩
    have hconn : ∀ syms, decide (ProviderState.connecting syms ≠ .inCooldown) = true := fun _ => rfl
    rw [ih, untried, connect, List.countP_set hlt, if_pos hne, if_pos (hconn _)]
    exact Nat.sub_add_cancel hpos

end Supervisor

/-- The controller's first supervisor has no task. -/
theorem KindSupervisorParams.supervisor_quiet (params : KindSupervisorParams K E) :
    params.supervisor.Quiet := by
  intro id p hp hl
  rw [KindSupervisorParams.eq_idle_of_supervisor hp] at hl
  cases hl

/-- The provider can stream and has needed instruments when the controller starts. -/
def KindSupervisorParams.CanStart (params : KindSupervisorParams K E) (i : Nat) : Prop :=
  params.supervisor.canProviderStream i = true ∧
    params.supervisor.providerHasAvailableWork i = true

namespace System

/-- A turn taken while the caller waits, other than a stop, ends the startup with one error if it
leaves nothing connecting or active and everything spent. -/
def Answered (st : LTS.Step (System K E) Event) : Prop :=
  ∀ tx errors, st.pre.sup.phase = .startup (some tx) errors → st.label ≠ .shutdown →
    st.label ≠ .downstreamClosed → st.post.sup.Quiet → st.post.sup.Spent →
    st.post.sup.phase = .terminated ∧
      ∃ error, notified (st.pre.emitted st.label) = [(tx, .error error)]

namespace Reach

variable {params : KindSupervisorParams K E} {y : System K E}

/-- In a quiet state a provider has work when it had some at the beginning. -/
theorem available_iff (h : y.Reach params) (hq : y.sup.Quiet) (i : Nat) :
    y.sup.providerHasAvailableWork i = true ↔
      params.supervisor.providerHasAvailableWork i = true := by
  rw [hq.available_iff, params.supervisor_quiet.available_iff]
  exact exists_congr fun sym => assigned_congr h.config

/-- Only providers that could be started at the beginning are ever connecting or active. -/
theorem canStart (h : y.Reach params) {id : Nat} {p : ProviderState}
    (hp : y.sup.providers[id]? = some p) (hl : p.Live) : params.CanStart id := by
  obtain ⟨syms, hs⟩ := Option.isSome_iff_exists.1 hl
  obtain ⟨hcan, hne, has⟩ := h.assigned id p syms hp hs
  obtain ⟨sym, hsym⟩ := List.exists_mem_of_ne_nil syms hne
  exact ⟨hcan, (params.supervisor_quiet.available_iff id).2 ⟨sym, has sym hsym⟩⟩

/-- Without connecting providers a startup is quiet, and spent if no provider was missed. -/
theorem quiet_of_startup (h : y.Reach params) {tx : Option InitialSender}
    {errors : List BorsaError} (hp : y.sup.phase = .startup tx errors)
    (hc : ¬ ∃ (id : Nat) (syms : List Symbol), y.sup.providers[id]? = some (.connecting syms)) :
    y.sup.Quiet := by
  intro id p hid hl
  cases p with
  | connecting syms => exact hc ⟨id, syms, hid⟩
  | active syms => exact h.not_active hp id syms hid
  | idle | idleFromCooldown | inCooldown => cases hl

end Reach

/-- A quiet supervisor that misses no provider is spent. -/
theorem spent_of_noneMissed {s : Supervisor K E} (hq : s.Quiet) (hn : s.NoneMissed) :
    s.Spent := by
  intro id p hid hcan hwork
  rw [providerHasAvailableWork, Bool.not_eq_true', List.isEmpty_eq_false_iff] at hwork
  cases p with
  | idle => exact absurd ⟨⟨_, hid, rfl⟩, hcan, hwork⟩ (hn id)
  | idleFromCooldown => exact absurd ⟨⟨_, hid, rfl⟩, hcan, hwork⟩ (hn id)
  | connecting syms => exact absurd rfl (hq id _ hid)
  | active syms => exact absurd rfl (hq id _ hid)
  | inCooldown => rfl

/-! ### The last provider can be started -/

/-- While the caller waits, the last provider has not failed since the last tick. -/
def LastUp (y : System K E) : Prop :=
  ∀ tx errors, y.sup.phase = .startup (some tx) errors → ∀ id : Nat,
    id + 1 = y.sup.providers.length → y.sup.providers[id]? ≠ some .inCooldown

/-- The first starts put no provider into cooldown. -/
theorem start_not_inCooldown {params : KindSupervisorParams K E} (hn : params.providers ≠ [])
    (id : Nat) : (start params).sup.providers[id]? ≠ some .inCooldown := by
  intro hid
  obtain ⟨hs, -⟩ := kick_spec hn
  rcases hs.getElem?_cases id with heq | ⟨-, syms, hc, -⟩
  · cases KindSupervisorParams.eq_idle_of_supervisor (heq.symm.trans hid)
  · have hid : (kick params).1.providers[id]? = some .inCooldown := hid
    rw [hc] at hid
    cases hid

/-- A turn keeps the last provider up. -/
theorem Turn.lastUp {params : KindSupervisorParams K E} {y y' : System K E} {e : Event}
    (h : y.Reach params) (hup : y.LastUp) (ht : y.Turn e y') : y'.LastUp := by
  intro tx errors hp id hlast hid
  obtain ⟨t, acts, reqs, hc⟩ := ht.cases h.providers_ne_nil
  rw [hc.length] at hlast
  have hphase := hc.phase
  rw [hp] at hphase
  have hidt : t.providers[id]? = some .inCooldown := by
    rcases hc.starts.getElem?_cases id with heq | ⟨-, syms, hs, -⟩
    · exact heq.symm.trans hid
    · have hs : y'.sup.providers[id]? = some (.connecting syms) := hs
      rw [hid] at hs
      cases hs
  have cleared : (y.sup.providers.map clearCooldown)[id]? ≠ some .inCooldown := by
    intro hm
    rw [List.getElem?_map, Option.map_eq_some_iff] at hm
    obtain ⟨q, -, hq⟩ := hm
    cases q <;> cases hq
  cases hc.transition with
  | succeeded => cases hphase
  | @startupFailed k error tx' errs hp' hterm =>
    cases hphase
    rcases ht.startup_failed h hp' with ⟨-, hterm', -⟩ | ⟨hne, -⟩
    · rw [hp] at hterm'
      cases hterm'
    · rcases getElem?_set_eq_some.1 hidt with ⟨rfl, -, -⟩ | ⟨-, hidk⟩
      · exact hne hlast
      · exact hup _ _ hp' id hlast hidk
  | startupTerminated => cases hphase
  | runningFailed hp' => cases hp'.symm.trans hphase.symm
  | ended k symbols =>
    have hm : (k, symbols) ∈ y.sessions := ht.enabled
    rw [(h.starting _ _ hphase.symm).sessions] at hm
    cases hm
  | tickTerminated => cases hphase
  | tickQuiet | tickActive | tickInactive => exact cleared hidt
  | shutdown | downstreamClosed => cases hphase

/-- A tick leaves the phase as it is. -/
theorem Turn.tick_phase {params : KindSupervisorParams K E} {y y' : System K E}
    (h : y.Reach params) (ht : y.Turn .backoffTick y') : y'.sup.phase = y.sup.phase := by
  obtain ⟨t, acts, reqs, hc⟩ := ht.cases h.providers_ne_nil
  have hphase := hc.phase
  cases hc.transition with
  | tickTerminated hp _ _ hx =>
    rw [(h.starting _ _ hp).scanning rfl] at hx
    cases hx
  | tickQuiet | tickActive | tickInactive => exact hphase

/-- If the last provider can be started, every turn answers the caller when it should. -/
theorem Turn.answered {params : KindSupervisorParams K E} {y y' : System K E} {e : Event}
    (h : y.Reach params) (hup : y.LastUp) (ht : y.Turn e y')
    (hlast : params.CanStart (params.providers.length - 1)) : Answered ⟨y, e, y'⟩ := by
  intro tx errors hp hns hnd hq hs
  have h' := h.turn ht
  -- the last provider is not in cooldown, so a quiet and spent state has left the startup
  have stays : ∀ errors', y'.sup.phase ≠ .startup (some tx) errors' := by
    intro errors' hp'
    have hpos : 0 < params.providers.length := List.length_pos_iff.2 h.nonempty
    have hlen := h'.length
    obtain ⟨p, hid⟩ : ∃ p, y'.sup.providers[params.providers.length - 1]? = some p :=
      ⟨_, List.getElem?_eq_getElem (by omega)⟩
    have hcool := hs _ p hid ((canProviderStream_congr h'.config _).trans hlast.1)
      ((h'.available_iff hq _).2 hlast.2)
    exact ht.lastUp h hup tx errors' hp' _ (by omega) (hcool ▸ hid)
  cases e with
  | providerStartFailed id error =>
    rcases ht.startup_failed h hp with ⟨-, hterm, hnot, -⟩ | ⟨-, hp', -⟩
    · exact ⟨hterm, _, hnot⟩
    · exact absurd hp' (stays _)
  | providerStartSucceeded id symbols =>
    have hm : (id, symbols) ∈ y'.sessions := by
      rw [ht.next]
      exact List.mem_append_right _ (List.mem_singleton_self _)
    exact absurd rfl (hq id _ (h'.agrees.active hm))
  | sessionEnded id symbols =>
    have hm : (id, symbols) ∈ y.sessions := ht.enabled
    rw [(h.starting _ _ hp).sessions] at hm
    cases hm
  | backoffTick => exact absurd ((ht.tick_phase h).trans hp) (stays errors)
  | downstreamClosed => exact absurd rfl hnd
  | shutdown => exact absurd rfl hns

/-! ### The last provider cannot be started -/

/-- A turn that leaves a quiet state in which no provider was missed, and the caller waiting, does
not answer it. -/
theorem not_answered {params : KindSupervisorParams K E} {y y' : System K E} {e : Event}
    (h : y.Reach params) (ht : y.Turn e y') {tx : InitialSender} {errors errors' : List BorsaError}
    (hp : y.sup.phase = .startup (some tx) errors) (hns : e ≠ .shutdown)
    (hnd : e ≠ .downstreamClosed) (hp' : y'.sup.phase = .startup (some tx) errors')
    (hc : ¬ ∃ (id : Nat) (syms : List Symbol), y'.sup.providers[id]? = some (.connecting syms))
    (hn : y'.sup.NoneMissed) : ¬ Answered ⟨y, e, y'⟩ := by
  intro ha
  have hq := (h.turn ht).quiet_of_startup hp' hc
  obtain ⟨hterm, -⟩ := ha tx errors hp hns hnd hq (spent_of_noneMissed hq hn)
  have hterm : y'.sup.phase = .terminated := hterm
  rw [hp'] at hterm
  cases hterm

/-- While the caller waits, a failure of a provider other than the last misses none: only providers
before the failed one are left out of the scan. -/
theorem Turn.noneMissed_startup {params : KindSupervisorParams K E} {y y' : System K E} {id : Nat}
    {error : BorsaError} (h : y.Reach params) (hn : y.sup.NoneMissed)
    (ht : y.Turn (.providerStartFailed id error) y') {tx : InitialSender}
    {errors : List BorsaError} (hp : y.sup.phase = .startup (some tx) errors)
    (hne : id + 1 ≠ y.sup.providers.length) : y'.sup.NoneMissed := by
  refine (ht.noneMissed_iff h hn).2 fun j sym hj hjid hidle hcan has => .inl ?_
  have hst := h.starting _ _ hp
  obtain ⟨syms, hconn⟩ := h.connecting_of_failed ht.enabled
  obtain ⟨hlt, -⟩ := List.getElem?_eq_some_iff.1 hconn
  obtain ⟨q, hq, hqi⟩ := hidle
  obtain ⟨hjlt, -⟩ := List.getElem?_eq_some_iff.1 hq
  have hidlt : id + 1 < y.sup.providers.length := Nat.lt_of_le_of_ne hlt hne
  have hle : j < id := by
    by_contra hge
    refine hj ?_
    rw [visitedAfterFailure, Nat.mod_eq_of_lt hidlt, hst.startIndex, hst.scanning rfl,
      if_neg (by simp)]
    refine (Cyclic.mem_arc hidlt (Nat.zero_lt_of_lt hlt)).2 ⟨hjlt, .inr (.inr ⟨?_, .inl ?_⟩)⟩
    · exact Nat.succ_pos id
    · omega
  by_contra hcov
  refine hn j ⟨⟨q, hq, hqi⟩, hcan, needed_ne_nil_iff.2 ⟨sym, has, fun hc => hcov ?_⟩⟩
  obtain ⟨i, p, hij, hi, hcp⟩ := hc
  exact ⟨i, p, hij, by omega, hi, hcp⟩

/-- If nothing is connecting when the controller starts, the first tick leaves the caller waiting. -/
theorem not_answered_of_idle {params : KindSupervisorParams K E} (hn : params.providers ≠ [])
    {tx : InitialSender} (htx : params.initialNotify = some tx)
    (hc : ¬ ∃ (id : Nat) (syms : List Symbol),
      (start params).sup.providers[id]? = some (.connecting syms)) :
    ∃ y', (start params).Turn .backoffTick y' ∧ ¬ Answered ⟨start params, .backoffTick, y'⟩ := by
  have h := start_reach hn
  have hp : (start params).sup.phase = .startup (some tx) [] := htx ▸ start_phase hn
  have ht : (start params).Turn .backoffTick ((start params).deliver .backoffTick) :=
    ⟨by rw [hp]; trivial, trivial, rfl⟩
  have hq := h.quiet_of_startup hp hc
  -- nobody can be started, or somebody would be connecting
  have hnone : ∀ i, ¬ params.CanStart i := by
    rintro i ⟨hcan, hwork⟩
    have hcan' := (canProviderStream_congr h.config i).trans hcan
    have hwork' := (h.available_iff hq i).2 hwork
    have hlt : i < (start params).sup.providers.length := by
      by_contra hge
      have hlen : params.supervisor.providersCanStream.length = params.providers.length :=
        List.length_map ..
      rw [canProviderStream, List.getElem?_eq_none (by have := h.length; omega)] at hcan
      cases hcan
    have hspent := spent_of_noneMissed hq (kick_spec hn).2 i _ (List.getElem?_eq_getElem hlt)
      hcan' hwork'
    exact start_not_inCooldown hn i (hspent ▸ List.getElem?_eq_getElem hlt)
  have h' := h.turn ht
  refine ⟨_, ht, not_answered h ht hp (by simp) (by simp) ((ht.tick_phase h).trans hp) ?_ ?_⟩
  · rintro ⟨id, syms, hid⟩
    exact hnone id (h'.canStart hid rfl)
  · intro i hw
    have hq' : ((start params).deliver .backoffTick).sup.Quiet := fun id p hid hl =>
      hnone id (h'.canStart hid hl)
    refine hnone i ⟨(canProviderStream_congr h'.config i).symm.trans hw.canStream,
      (h'.available_iff hq' i).1 ?_⟩
    rw [providerHasAvailableWork, Bool.not_eq_true', List.isEmpty_eq_false_iff]
    exact hw.work

/-- The caller waits, no provider was missed and a start is in flight. -/
structure Waiting (params : KindSupervisorParams K E) (tx : InitialSender) (y : System K E) :
    Prop where
  reach : y.Reach params
  noneMissed : y.sup.NoneMissed
  phase : ∃ errors, y.sup.phase = .startup (some tx) errors
  connecting : ∃ (id : Nat) (syms : List Symbol), y.sup.providers[id]? = some (.connecting syms)

/-- If the last provider cannot be started, failing a start in flight leaves the caller without its
answer, or waiting with fewer providers to try. -/
theorem Waiting.fail {params : KindSupervisorParams K E} {tx : InitialSender} {y : System K E}
    (hw : y.Waiting params tx) (hlast : ¬ params.CanStart (params.providers.length - 1)) :
    (∃ e y', y.Turn e y' ∧ ¬ Answered ⟨y, e, y'⟩) ∨
      ∃ e y', y.Turn e y' ∧ y'.Waiting params tx ∧ y'.sup.untried < y.sup.untried := by
  obtain ⟨h, hmiss, ⟨errors, hp⟩, id, syms, hid⟩ := hw
  obtain ⟨y', ht⟩ : ∃ y', y.Turn (.providerStartFailed id (.other "")) y' :=
    ⟨_, by rw [hp]; trivial, ⟨syms, h.agrees.start_mem hid⟩, rfl⟩
  have hne : id + 1 ≠ y.sup.providers.length := by
    intro heq
    have hlen := h.length
    have hcan := h.canStart hid rfl
    rw [show id = params.providers.length - 1 by omega] at hcan
    exact hlast hcan
  have hmiss' := ht.noneMissed_startup h hmiss hp hne
  rcases ht.startup_failed h hp with ⟨heq, -⟩ | ⟨-, hp', -⟩
  · exact absurd heq hne
  by_cases hc' : ∃ (k : Nat) (syms : List Symbol), y'.sup.providers[k]? = some (.connecting syms)
  · refine .inr ⟨_, y', ht, ⟨h.turn ht, hmiss', ⟨_, hp'⟩, hc'⟩, ?_⟩
    obtain ⟨t, acts, reqs, hcases⟩ := ht.cases h.providers_ne_nil
    have hps := (visited_of_failed h hcases.transition).2
    obtain ⟨hlt, hget⟩ := List.getElem?_eq_some_iff.1 hid
    have hconn : decide (y.sup.providers[id] ≠ .inCooldown) = true := by rw [hget]; rfl
    have hpos : 0 < y.sup.untried :=
      List.countP_pos_iff.2 ⟨_, List.getElem_mem hlt, hconn⟩
    have ht' : t.untried = y.sup.untried - 1 := by
      rw [untried, hps, List.countP_set hlt, if_pos hconn]
      rfl
    have heq : y'.sup.untried = y.sup.untried - 1 := hcases.starts.untried_eq.trans ht'
    rw [heq]
    exact Nat.sub_lt hpos Nat.one_pos
  · exact .inl ⟨_, y', ht, not_answered h ht hp (by simp) (by simp) hp' hc' hmiss'⟩

/-- If the last provider cannot be started, some run leaves the caller without its answer: the one
that fails every start in flight, or the first tick if there is none. -/
theorem exists_not_answered {params : KindSupervisorParams K E} (hn : params.providers ≠ [])
    {tx : InitialSender} (htx : params.initialNotify = some tx)
    (hlast : ¬ params.CanStart (params.providers.length - 1)) :
    ∃ tr y, Run params tr y ∧ ∃ st ∈ tr, ¬ Answered st := by
  have hp : (start params).sup.phase = .startup (some tx) [] := htx ▸ start_phase hn
  by_cases hc : ∃ (id : Nat) (syms : List Symbol),
      (start params).sup.providers[id]? = some (.connecting syms)
  · have hfail : ∀ y : System K E, y.Waiting params tx →
        (∃ e y', y.Turn e y' ∧ ¬ Answered ⟨y, e, y'⟩) ∨
          ∃ e y', y.Turn e y' ∧ y'.Waiting params tx ∧ y'.sup.untried < y.sup.untried :=
      fun _ hw => hw.fail hlast
    have hstart : (start params).Waiting params tx :=
      ⟨start_reach hn, (kick_spec hn).2, ⟨[], hp⟩, hc⟩
    obtain ⟨tr, y, hpath, -, e, y', ht, hna⟩ :=
      LTS.Path.exists_of_measure (fun y => y.sup.untried) hfail hstart
    exact ⟨_, y', ⟨hn, hpath.snoc ht⟩, _, List.mem_append_right _ (List.mem_singleton_self _), hna⟩
  · obtain ⟨y', ht, hna⟩ := not_answered_of_idle hn htx hc
    exact ⟨_, y', ⟨hn, .single ht⟩, _, List.mem_singleton_self _, hna⟩

end System

/-- In every run each turn answers the caller when it should exactly when the last provider can be
started. -/
theorem startup_answered_iff {params : KindSupervisorParams K E} (hn : params.providers ≠ [])
    {tx : InitialSender} (htx : params.initialNotify = some tx) :
    (∀ tr y, Run params tr y → ∀ st ∈ tr, System.Answered st) ↔
      params.CanStart (params.providers.length - 1) := by
  constructor
  · intro h
    by_contra hlast
    obtain ⟨tr, y, hrun, st, hst, hna⟩ := System.exists_not_answered hn htx hlast
    exact hna (h tr y hrun st hst)
  · intro hlast tr y hrun st hst
    obtain ⟨ht, ⟨h, hup⟩, -⟩ := hrun.path.inv_step
      (I := fun y => y.Reach params ∧ y.LastUp)
      ⟨System.start_reach hn, fun _ _ _ id _ => System.start_not_inCooldown hn id⟩
      (fun _ _ _ hI ht => ⟨hI.1.turn ht, ht.lastUp hI.1 hI.2⟩) hst
    exact ht.answered h hup hlast

/-- A chain whose second provider may stream none of the required symbols. -/
def stallChain : KindSupervisorParams Unit Unit :=
  quoteChain (some ⟨0⟩) 500 30000 2 [[⟨"X"⟩], []]

/-- The only provider with work fails. -/
def stallEvents : List Event := [.providerStartFailed 0 (.other "refused")]

set_option maxRecDepth 4000 in
/-- After the failure nothing is connecting or active and nothing is left to try, but the caller is
not told. -/
theorem stall_run_waits : Run stallChain ((System.start stallChain).replay stallEvents)
    ((System.start stallChain).after stallEvents) ∧
    ∃ st ∈ (System.start stallChain).replay stallEvents, ¬ System.Answered st := by
  have hrun : Run stallChain ((System.start stallChain).replay stallEvents)
      ((System.start stallChain).after stallEvents) :=
    Run.replay (by decide) stallEvents (by decide)
  have hconn : ∀ p ∈ (System.after (System.start stallChain) stallEvents).sup.providers,
      ¬ p.Live := by decide
  have hmiss : ((System.start stallChain).after stallEvents).sup.NoneMissed :=
    noneMissed_iff_hasIdle.2 (by decide)
  refine ⟨hrun, _, List.mem_cons_self .., fun ha => ?_⟩
  have hq : ((System.start stallChain).after stallEvents).sup.Quiet :=
    fun id p hp => hconn p (List.mem_of_getElem? hp)
  obtain ⟨hterm, -⟩ := ha ⟨0⟩ [] rfl nofun nofun hq (System.spent_of_noneMissed hq hmiss)
  cases hterm

/-- The exact condition at a chain whose last provider has work. -/
theorem startup_answered_forkChain :
    (∀ tr y, Run forkChain tr y → ∀ st ∈ tr, System.Answered st) ↔
      forkChain.CanStart (forkChain.providers.length - 1) :=
  startup_answered_iff (by decide) rfl

end Borsa
