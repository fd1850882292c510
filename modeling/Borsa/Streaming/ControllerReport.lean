import Borsa.Streaming.ControllerStreams
import Borsa.Streaming.Tasks

/-!
# What a controller reports

A controller whose caller waits for it reports once: that it is up when its first session is opened,
or an error once it gives up, in which case it never opened one. `Reporting` is the invariant,
`Controller.Reached.reporting` that it holds in every state a controller reaches, and
`Controller.Step.report_eq` that a report is never taken back.
-/

namespace Borsa

open Supervisor

variable {K E : Type}

/-- What a turn that leaves the supervisor running tells the caller: a success tells one who still
waits that the stream is up, and nothing else is told or changes whether somebody waits. -/
theorem Supervisor.handle_reports {s : Supervisor K E} (hl : s.phase.Live) (hn : s.providers ≠ [])
    {e : Event} (hlive : (s.handle e).1.phase.Live) :
    ((∃ id symbols, e = .providerStartSucceeded id symbols) ∧
        (s.handle e).1.phase.initialTx? = none ∧
        notified (s.handle e).2 = (s.phase.initialTx?.map fun tx => (tx, .ok ())).toList) ∨
      ((∀ id symbols, e ≠ .providerStartSucceeded id symbols) ∧
        (s.handle e).1.phase.initialTx? = s.phase.initialTx? ∧ notified (s.handle e).2 = []) := by
  obtain ⟨reqs, next, hh⟩ := handle_spec hl hn e
  have hphase : (s.handle e).1.phase = (s.transitionForEvent e).1.phase := by
    rw [hh.state, hh.starts.frame]
  have hnote : notified (s.handle e).2 = notified (s.transitionForEvent e).2 := by
    rw [hh.actions, notified_append, hh.starts.notified_eq, List.append_nil]
  rw [hphase] at hlive ⊢
  rw [hnote]
  have ht := transition_cases hl e
  generalize (s.transitionForEvent e).1 = t at ht hlive
  generalize (s.transitionForEvent e).2 = acts at ht
  cases ht with
  | succeeded id symbols => exact .inl ⟨⟨id, symbols, rfl⟩, rfl, notified_succeeded s id symbols⟩
  | startupFailed hp => exact .inr ⟨nofun, by rw [hp]; rfl, rfl⟩
  | runningFailed | ended | tickQuiet | tickActive | tickInactive => exact .inr ⟨nofun, rfl, rfl⟩
  | startupTerminated | tickTerminated | shutdown | downstreamClosed => exact hlive.elim

namespace Controller

variable {params : KindSupervisorParams K E} {enforceMonotonic : Bool} {sig : Signals}
  {c c' : Controller K E} {label : ControllerLabel} {sent : Option (Nat × Update)}

/-- What the report of a controller says of it. -/
structure Reporting (c : Controller K E) : Prop where
  waiting : c.place = .looping → c.sup.phase.initialTx?.isSome → c.report = none ∧ c.tasks = []
  up : c.place = .looping → c.sup.phase.initialTx? = none → c.report = some (.ok ())
  ok : c.report = some (.ok ()) → c.tasks ≠ []
  error : ∀ e, c.report = some (.error e) → c.place = .gone ∧ c.tasks = []

/-- Tasks that differ in their stop signals are as many. -/
theorem eq_nil_iff_of_core {tasks tasks' : List SessionTask}
    (h : tasks'.map SessionTask.core = tasks.map SessionTask.core) : tasks' = [] ↔ tasks = [] := by
  rw [← List.length_eq_zero_iff, ← List.length_eq_zero_iff,
    show tasks'.length = tasks.length by simpa using congrArg List.length h]

theorem reporting_launch (hn : params.initialNotify ≠ none) : (launch params).Reporting := by
  unfold launch
  dsimp only
  split
  · refine ⟨nofun, nofun, fun h => ?_, fun _ _ => ⟨rfl, rfl⟩⟩
    obtain ⟨tx, -, heq⟩ := Option.map_eq_some_iff.1 h
    cases heq
  · next hp =>
    refine ⟨fun _ _ => ⟨rfl, rfl⟩, fun _ h => ?_, nofun, nofun⟩
    have hstart : (System.start params).sup.phase = .startup params.initialNotify [] :=
      System.start_phase (by simpa using hp)
    have hphase : (System.kick params).1.phase.initialTx? = params.initialNotify := by
      rw [show (System.kick params).1.phase = _ from hstart]
      rfl
    exact absurd (hphase.symm.trans h) hn

/-- A turn keeps what the report says, and takes no report back. -/
theorem Reporting.turn (h : c.Reporting) (hp : c.place = .looping) {y : System K E}
    (hrel : Refines params c y) (e : Event) :
    (c.turn e).Reporting ∧ ∀ r, c.report = some r → (c.turn e).report = some r := by
  have hl : c.sup.phase.Live := hrel.sup ▸ hrel.live hp
  have hne : c.sup.providers ≠ [] := hrel.sup ▸ hrel.reach.providers_ne_nil
  have hcases := turn_cases hl hne e
  have hcore := (core_turn c e).1
  generalize c.turn e = c' at hcases hcore
  cases hcases with
  | looping hlive hperf =>
    have hplace : c'.place = .looping := by
      rw [hperf.place, ← hp]
      cases e <;> rfl
    have hreport : (c.handled e).report = c.report := by cases e <;> rfl
    have hphase : c'.sup.phase = (c.sup.handle e).1.phase := congrArg (·.phase) hperf.sup
    have hrep := hperf.report
    rw [hreport] at hrep
    rcases handle_reports hl hne hlive with ⟨⟨id, symbols, rfl⟩, hnone, hnote⟩ | ⟨hns, htx, hnote⟩
    · -- A start succeeded: its session is spawned, and whoever waits is told.
      have hok : c'.report = some (.ok ()) := by
        rw [hrep, hnote]
        cases htx : c.sup.phase.initialTx? with
        | none => exact h.up hp htx
        | some tx => rfl
      have htasks : c'.tasks ≠ [] := by
        rw [ne_eq, eq_nil_iff_of_core hcore]
        simp [spawnedBy]
      refine ⟨⟨fun _ hsome => ?_, fun _ _ => hok, fun _ => htasks, fun e he => ?_⟩, fun r hr => ?_⟩
      · rw [hphase, hnone] at hsome
        cases hsome
      · cases hok.symm.trans he
      · rw [hok]
        cases htx : c.sup.phase.initialTx? with
        | none => exact (h.up hp htx).symm.trans hr
        | some tx => cases (h.waiting hp (by simp [htx])).1.symm.trans hr
    · have heq : c'.report = c.report := by rw [hrep, hnote]; rfl
      have hspawn : spawnedBy e = [] := List.eq_nil_iff_forall_not_mem.2 fun t ht => by
        obtain ⟨id, symbols, he, -⟩ := mem_spawnedBy.1 ht
        exact hns id symbols he
      rw [hspawn, List.append_nil] at hcore
      have htasks := eq_nil_iff_of_core hcore
      refine ⟨⟨fun _ hsome => ?_, fun _ hnone => ?_, fun hok => ?_, fun e he => ?_⟩, fun r hr => ?_⟩
      · rw [hphase, htx] at hsome
        exact ⟨heq.trans (h.waiting hp hsome).1, htasks.2 (h.waiting hp hsome).2⟩
      · rw [hphase, htx] at hnone
        exact heq.trans (h.up hp hnone)
      · exact mt htasks.1 (h.ok (heq.symm.trans hok))
      · cases hp.symm.trans (h.error e (heq.symm.trans he)).1
      · exact heq.trans hr
  | awaiting _ _ hrec =>
    have heq : (c.handled e).report = c.report := congrArg (·.report) hrec
    have hcore' := core_stopSessions (c.handled e) fun _ => true
    rw [show (c.handled e).tasks = c.tasks from congrArg (·.tasks) hrec] at hcore'
    refine ⟨⟨fun hl => ?_, fun hl => ?_, fun hok => ?_, fun e he => ?_⟩, fun r hr => heq.trans hr⟩
    · cases hl
    · cases hl
    · exact mt (eq_nil_iff_of_core hcore').1 (h.ok (heq.symm.trans hok))
    · cases hp.symm.trans (h.error e (heq.symm.trans he)).1
  | terminated hstart _ htasks =>
    have hwait := h.waiting hp (by rw [hstart]; rfl)
    refine ⟨⟨fun hl => ?_, fun hl => ?_, fun hok => ?_, fun _ _ => ⟨rfl, ?_⟩⟩, fun r hr => ?_⟩
    · cases hl
    · cases hl
    · cases hok
    · exact (eq_nil_iff_of_core (core_leave _)).2 (htasks.trans hwait.2)
    · cases hwait.1.symm.trans hr

/-- A controller whose tasks only move, or that goes away, keeps what its report says. -/
theorem Reporting.of_tasks (h : c.Reporting) (hs : c'.sup = c.sup) (hr : c'.report = c.report)
    (ht : c'.tasks = [] ↔ c.tasks = []) (hp : c'.place = c.place ∨ c'.place = .gone) :
    c'.Reporting := by
  have hplace : ∀ {p : ControllerPlace}, c'.place = p → p ≠ .gone → c.place = p := by
    intro p hp' hne
    rcases hp with heq | hg
    · exact heq.symm.trans hp'
    · exact absurd (hp'.symm.trans hg) hne
  refine ⟨fun hl hsome => ?_, fun hl hnone => ?_, fun hok => ?_, fun e he => ?_⟩
  · rw [hs] at hsome
    rw [hr, ht]
    exact h.waiting (hplace hl nofun) hsome
  · rw [hs] at hnone
    rw [hr]
    exact h.up (hplace hl nofun) hnone
  · rw [hr] at hok
    exact mt ht.1 (h.ok hok)
  · rw [hr] at he
    obtain ⟨hg, htasks⟩ := h.error e he
    exact ⟨hp.elim (fun heq => heq.trans hg) fun hg' => hg', ht.2 htasks⟩

/-- A step keeps what the report says, and takes no report back. -/
theorem Step.reporting (hstep : Step params enforceMonotonic sig c label c' sent)
    (h : c.Reporting) (hrel : c.place = .looping → ∃ y, Refines params c y) :
    c'.Reporting ∧ ∀ r, c.report = some r → c'.report = some r := by
  have set_eq_nil : ∀ (j : Nat) (t' : SessionTask), (c.setTask j t').tasks = [] ↔ c.tasks = [] :=
    fun j t' => by simp [setTask]
  cases hstep with
  | turn hp =>
    obtain ⟨y, hy⟩ := hrel hp
    exact h.turn hp hy _
  | awaited | cancelled =>
    exact ⟨h.of_tasks rfl rfl (eq_nil_iff_of_core c.core_leave) (.inr rfl), fun _ => id⟩
  | answered | abort | reap => exact ⟨h.of_tasks rfl rfl Iff.rfl (.inl rfl), fun _ => id⟩
  | arrive | close | poll | send | finish =>
    exact ⟨h.of_tasks rfl rfl (set_eq_nil ..) (.inl rfl), fun _ => id⟩

/-- The report says so in every state that is reached. -/
theorem Reached.reporting (hn : params.initialNotify ≠ none)
    (h : c.Reached params enforceMonotonic) : c.Reporting :=
  h.induction (reporting_launch hn) fun _ _ _ _ _ hreach hrep hstep =>
    (hstep.reporting hrep fun hp => hreach.refines_of_looping hp).1

/-- What the receiver of the startup's outcome gets from a controller that runs or gave up is its
report. -/
theorem Reporting.outcome_eq (h : c.Reporting)
    (hp : c.place = .looping ∨ ∃ e, c.report = some (.error e)) : c.outcome = c.report := by
  unfold outcome
  cases hr : c.report with
  | some r => rfl
  | none =>
    rw [hr] at hp
    have hl := hp.resolve_right (by simp)
    refine if_neg ?_
    rintro (hg | hnone)
    · cases hl.symm.trans hg
    · cases hr.symm.trans (h.up hl hnone)

/-- While nobody stops the stream, a controller that nobody aborts stays in its loop unless it
reports an error. -/
theorem Step.place_of_quiet (hstep : Step params enforceMonotonic sig c label c' sent)
    (hs : sig.stopped = false) (hd : sig.senderDropped = false) (hr : sig.receiverDropped = false)
    (ha : c.aborted = false) (hrel : c.place = .looping → ∃ y, Refines params c y)
    (hp : c.place = .looping) : c'.place = .looping ∨ ∃ e, c'.report = some (.error e) := by
  cases hstep with
  | @turn e _ he =>
    obtain ⟨y, hy⟩ := hrel hp
    have hcases := turn_cases (hy.sup ▸ hy.live hp) (hy.sup ▸ hy.reach.providers_ne_nil) e
    generalize c.turn e = c' at hcases
    cases hcases with
    | looping _ hperf =>
      refine .inl (hperf.place.trans ?_)
      rw [← hp]
      cases e <;> rfl
    | awaiting hstop =>
      rcases hstop with rfl | rfl
      · rcases he with he | he
        · cases hs.symm.trans he
        · cases hd.symm.trans he
      · cases hr.symm.trans he
    | terminated => exact .inr ⟨_, rfl⟩
  | awaited hp' => cases hp.symm.trans hp'
  | cancelled ha' => cases ha.symm.trans ha'
  | answered | abort | arrive | close | poll | send | finish | reap => exact .inl hp

end Controller

end Borsa
