import Borsa.Streaming.Reach

/-!
# Starts, sessions and the report

What the supervisor asks for and what its tasks do with it, over a whole run: each provider has at
most one task, which the supervisor's record describes exactly (`OneTaskEach`); every start is of an
idle provider, for symbols that nothing of higher priority covers when it is issued
(`StartsInOrder`); and the caller is told the outcome at most once.
-/

namespace Borsa

open Supervisor

variable {K E : Type}

/-- The providers' states once the starts among `actions` have been issued, one after the other. -/
def issued (ps : List ProviderState) (actions : List (Action K E)) : List ProviderState :=
  (launched actions).foldl (fun ps start => ps.set start.1 (.connecting start.2)) ps

/-- A start of `id` for `instruments` is in order where the providers are in the states `ps`. -/
structure StartInOrder (params : KindSupervisorParams K E) (ps : List ProviderState) (id : Nat)
    (instruments : List (Instrument K E)) : Prop where
  idle : ∃ p, ps[id]? = some p ∧ isProviderIdle p = true
  canStream : ∃ provider, params.providers[id]? = some provider ∧
    provider.canStream params.kind = true
  nonempty : instruments ≠ []
  needed : ∀ inst ∈ instruments, ∃ assigned allow sym,
    params.providerInstruments[id]? = some assigned ∧ inst ∈ assigned ∧
      params.providerAllow[id]? = some allow ∧ symbolOpt inst = some sym ∧ sym ∈ allow ∧
      sym ∈ params.requiredSymbols ∧ ¬ CoveredBefore ps id sym

/-- Each start among `actions` is in order when it is issued. -/
def StartsInOrder (params : KindSupervisorParams K E) (ps : List ProviderState)
    (actions : List (Action K E)) : Prop :=
  ∀ before id instruments rest, actions = before ++ .requestStart id instruments :: rest →
    StartInOrder params (issued ps before) id instruments

/-- A provider is connecting exactly when one start of it is in flight, active exactly when one
session of it is live, with the recorded symbols, and otherwise has neither. -/
structure OneTaskEach (y : System K E) : Prop where
  connecting : ∀ (id : Nat) (syms : List Symbol),
    y.sup.providers[id]? = some (.connecting syms) ↔ Keyed.atKey y.starts id = [syms]
  active : ∀ (id : Nat) (syms : List Symbol),
    y.sup.providers[id]? = some (.active syms) ↔ Keyed.atKey y.sessions id = [syms]
  startless : ∀ id : Nat, (∀ syms, y.sup.providers[id]? ≠ some (.connecting syms)) →
    Keyed.atKey y.starts id = []
  sessionless : ∀ id : Nat, (∀ syms, y.sup.providers[id]? ≠ some (.active syms)) →
    Keyed.atKey y.sessions id = []

/-- The order a run keeps. -/
structure Orderly (params : KindSupervisorParams K E) (tr : List (LTS.Step (System K E) Event))
    (y : System K E) : Prop where
  tasks : OneTaskEach y
  /-- The first starts are in order. -/
  kick : StartsInOrder params params.supervisor.providers (System.kick params).2
  /-- The starts of every turn are, from the state its transition leads to. -/
  starts : ∀ st ∈ tr, StartsInOrder params (st.pre.sup.transitionForEvent st.label).1.providers
    (st.pre.emitted st.label)
  /-- The caller is told the outcome at most once. -/
  notified : (notified ((System.kick params).2 ++
    tr.flatMap fun st => st.pre.emitted st.label)).length ≤ 1

/-! ## Tasks -/

/-- The record and the tasks agree provider by provider. -/
theorem Agrees.oneTaskEach {y : System K E} (h : Agrees y.sup.providers y.starts y.sessions) :
    OneTaskEach y := by
  have hst : ∀ id, Keyed.atKey y.starts id = _ := fun id => congrArg Prod.fst (h id)
  have hse : ∀ id, Keyed.atKey y.sessions id = _ := fun id => congrArg Prod.snd (h id)
  refine ⟨fun id syms => ?_, fun id syms => ?_, fun id hne => ?_, fun id hne => ?_⟩
  · rw [hst id]
    cases hp : y.sup.providers[id]? with
    | none => simp
    | some p => cases p <;> simp [ProviderState.tasks]
  · rw [hse id]
    cases hp : y.sup.providers[id]? with
    | none => simp
    | some p => cases p <;> simp [ProviderState.tasks]
  · rw [hst id]
    cases hp : y.sup.providers[id]? with
    | none => rfl
    | some p =>
      cases p with
      | connecting syms => exact absurd hp (hne syms)
      | _ => rfl
  · rw [hse id]
    cases hp : y.sup.providers[id]? with
    | none => rfl
    | some p =>
      cases p with
      | active syms => exact absurd hp (hne syms)
      | _ => rfl

/-! ## Starts -/

/-- A supervisor can stream with the providers whose connector can. -/
theorem KindSupervisorParams.canProviderStream_iff (params : KindSupervisorParams K E) (id : Nat) :
    params.supervisor.canProviderStream id = true ↔
      ∃ provider, params.providers[id]? = some provider ∧
        provider.canStream params.kind = true := by
  unfold canProviderStream
  change (((params.providers.map _)[id]?).getD false) = true ↔ _
  rw [List.getElem?_map]
  cases params.providers[id]? <;> simp

/-- A provider that is idle with work is started in order. -/
theorem Supervisor.IdleWithWork.startInOrder {params : KindSupervisorParams K E}
    {self : Supervisor K E} (hconf : self.config = params.supervisor.config) {id : Nat}
    (h : self.IdleWithWork id) :
    StartInOrder params self.providers id (self.computeNeededInstrumentsFor id) := by
  refine ⟨h.idle, ?_, h.work, fun inst hinst => ?_⟩
  · rw [← params.canProviderStream_iff, ← canProviderStream_congr hconf]
    exact h.canStream
  · obtain ⟨allow, assigned, sym, ha, hi, hmem, hsym, hal, hreq, hcov⟩ :=
      mem_computeNeededInstrumentsFor.1 hinst
    simp only [config, Config.mk.injEq] at hconf
    obtain ⟨hinsts, hallow, hrequired, -⟩ := hconf
    rw [hinsts] at hi
    rw [hallow] at ha
    rw [hrequired] at hreq
    exact ⟨assigned, allow, sym, hi, hmem, ha, hsym, hal, hreq, hcov⟩

/-- The starts of a scan are in order. -/
theorem Supervisor.Starts.inOrder {params : KindSupervisorParams K E} {self next : Supervisor K E}
    {reqs : List (Action K E)} (hs : Starts self reqs next)
    (hconf : self.config = params.supervisor.config) :
    StartsInOrder params self.providers reqs := by
  induction hs with
  | nil =>
    intro before id instruments rest heq
    cases before <;> cases heq
  | @cons self next id reqs hid _ ih =>
    intro before k instruments rest heq
    cases before with
    | nil =>
      cases heq
      exact hid.startInOrder hconf
    | cons a before =>
      obtain ⟨ha, htail⟩ := List.cons.inj (heq.trans List.cons_append)
      subst ha
      exact ih hconf before k instruments rest htail

/-- Actions that put no start in flight before some starts change nothing about these. -/
theorem StartsInOrder.append {params : KindSupervisorParams K E} {ps : List ProviderState}
    {acts reqs : List (Action K E)} (hl : launched acts = [])
    (h : StartsInOrder params ps reqs) : StartsInOrder params ps (acts ++ reqs) := by
  intro before id instruments rest heq
  rcases List.append_eq_append_iff.1 heq with ⟨mid, rfl, hreqs⟩ | ⟨mid, rfl, hrest⟩
  · rw [issued, launched_append, hl, List.nil_append]
    exact h mid id instruments rest hreqs
  · cases mid with
    | nil =>
      have hl' : launched before = [] := by simpa using hl
      have hfirst := h [] id instruments rest hrest.symm
      rw [issued, hl']
      exact hfirst
    | cons a mid =>
      rw [List.cons_append] at hrest
      obtain ⟨rfl, -⟩ := List.cons.inj hrest
      rw [launched_append] at hl
      cases (List.append_eq_nil_iff.1 hl).2

/-! ## The report -/

/-- A transition that tells the caller the outcome leaves nobody waiting. -/
theorem Supervisor.LiveTransition.notified_le {s t : Supervisor K E} {e : Event}
    {acts : List (Action K E)} (h : s.LiveTransition e t acts) :
    (Borsa.notified acts).length + t.phase.initialTx?.toList.length ≤
      s.phase.initialTx?.toList.length := by
  cases h with
  | succeeded id symbols =>
    rw [notified_succeeded]
    cases s.phase.initialTx? <;> simp [activated, Phase.initialTx?]
  | startupFailed hp | startupTerminated hp =>
    rw [hp]
    simp [Borsa.notified, Phase.initialTx?]
  | tickTerminated hp =>
    rw [hp]
    simp [Borsa.notified, Phase.initialTx?]
  | shutdown | downstreamClosed => simp [Borsa.notified, Phase.initialTx?]
  | _ => exact Nat.le_of_eq (Nat.zero_add _)

/-- Along a run the reports and the waiting caller together are at most the one sender. -/
theorem Run.notified_le {params : KindSupervisorParams K E}
    {tr : List (LTS.Step (System K E) Event)} {y : System K E} (h : Run params tr y) :
    (notified (tr.flatMap fun st => st.pre.emitted st.label)).length +
      y.sup.phase.initialTx?.toList.length ≤ params.initialNotify.toList.length := by
  obtain ⟨hn, hp⟩ := h
  induction hp with
  | nil =>
    rw [System.start_phase hn]
    exact Nat.le_of_eq (Nat.zero_add _)
  | @snoc tr y y' e hp ht ih =>
    obtain ⟨t, acts, reqs, hc⟩ := ht.cases (Run.reach ⟨hn, hp⟩).providers_ne_nil
    have hstep := hc.transition.notified_le
    rw [← hc.notified, ← hc.phase] at hstep
    rw [List.flatMap_append, notified_append, List.length_append, List.flatMap_singleton]
    dsimp only
    omega

/-! ## Runs -/

/-- Every run keeps the order. -/
theorem Run.orderly {params : KindSupervisorParams K E}
    {tr : List (LTS.Step (System K E) Event)} {y : System K E} (h : Run params tr y) :
    Orderly params tr y := by
  obtain ⟨hkick, -⟩ := System.kick_spec h.nonempty
  refine ⟨h.reach.agrees.oneTaskEach, hkick.inOrder rfl, fun st hst => ?_, ?_⟩
  · obtain ⟨ht, hr, -⟩ := h.path.inv_step (System.start_reach h.nonempty)
      (fun _ _ _ hr ht => hr.turn ht) hst
    obtain ⟨reqs, next, hh⟩ := handle_spec ht.live hr.providers_ne_nil st.label
    have htrans := transition_cases ht.live st.label
    have hin := hh.starts.inOrder (htrans.config_eq.trans hr.config)
    have hacts : st.pre.emitted st.label = _ := hh.actions
    rw [hacts]
    exact hin.append htrans.launched_eq
  · have hle := h.notified_le
    have hone : params.initialNotify.toList.length ≤ 1 := by
      cases params.initialNotify <;> simp
    rw [notified_append, hkick.notified_eq, List.nil_append]
    omega

/-- A first choice for two symbols and a fallback for one of them. -/
def backupChain : KindSupervisorParams Unit Unit :=
  quoteChain (some ⟨0⟩) 500 30000 2 [[⟨"X"⟩, ⟨"Y"⟩], [⟨"Y"⟩]]

/-- The first choice fails, the fallback comes up, and a tick restarts the first choice. -/
def backupEvents : List Event :=
  [.providerStartFailed 0 (.other "refused"), .providerStartSucceeded 1 [⟨"Y"⟩], .backoffTick,
    .providerStartSucceeded 0 [⟨"X"⟩, ⟨"Y"⟩], .sessionEnded 1 [⟨"Y"⟩]]

set_option maxRecDepth 4000 in
/-- The order along that run. -/
theorem backup_run_orderly : Orderly backupChain
    ((System.start backupChain).replay backupEvents)
    ((System.start backupChain).after backupEvents) :=
  Run.orderly (Run.replay (by decide) backupEvents (by decide))

end Borsa
