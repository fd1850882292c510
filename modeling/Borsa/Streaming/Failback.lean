import Borsa.Streaming.Failover

/-!
# Failback

A symbol's first choice is the first provider of the chain that can stream it and is assigned it.
While a first choice connects or streams, it does so with the symbol among its symbols, since no
provider before it can ever cover the symbol (`FirstComplete`). A tick clears the cooldowns and is
followed by a scan of all providers, so it puts every symbol back on its first choice
(`Turn.firstCovered`), and the symbol stays there for as long as no start of a first choice fails and
no session of one ends.
-/

namespace Borsa

open Supervisor

variable {K E : Type}

/-- The provider is the first of the chain that can stream the symbol and is assigned it. -/
structure KindSupervisorParams.FirstChoice (params : KindSupervisorParams K E) (i : Nat)
    (sym : Symbol) : Prop where
  canStream : params.supervisor.canProviderStream i = true
  assigned : params.supervisor.Assigned i sym
  first : ∀ j < i, params.supervisor.canProviderStream j = true →
    ¬ params.supervisor.Assigned j sym

/-- A symbol that some provider can stream and is assigned has a first choice. -/
theorem KindSupervisorParams.exists_firstChoice {params : KindSupervisorParams K E} {i : Nat}
    {sym : Symbol} (hcan : params.supervisor.canProviderStream i = true)
    (has : params.supervisor.Assigned i sym) : ∃ j, params.FirstChoice j sym := by
  classical
  have h : ∃ j, params.supervisor.canProviderStream j = true ∧ params.supervisor.Assigned j sym :=
    ⟨i, hcan, has⟩
  exact ⟨Nat.find h, (Nat.find_spec h).1, (Nat.find_spec h).2,
    fun j hj hcj haj => Nat.find_min h hj ⟨hcj, haj⟩⟩

/-- Only a provider of the chain can stream. -/
theorem KindSupervisorParams.lt_of_canProviderStream {params : KindSupervisorParams K E} {i : Nat}
    (h : params.supervisor.canProviderStream i = true) : i < params.providers.length := by
  by_contra hlt
  have hnone : params.supervisor.providersCanStream[i]? = none := by
    rw [List.getElem?_eq_none_iff]
    exact (List.length_map _).trans_le (Nat.le_of_not_lt hlt)
  rw [canProviderStream, hnone] at h
  cases h

namespace System

/-- Every symbol is streamed, or about to be, by its first choice. -/
def FirstCovered (params : KindSupervisorParams K E) (y : System K E) : Prop :=
  ∀ i sym, params.FirstChoice i sym → ∃ p, y.sup.providers[i]? = some p ∧ p.Covers sym

/-- A first choice that streams, or is about to, does so for the symbol. -/
def FirstComplete (params : KindSupervisorParams K E) (ps : List ProviderState) : Prop :=
  ∀ i sym p, params.FirstChoice i sym → ps[i]? = some p → p.Live → p.Covers sym

/-- Nothing before a first choice covers the symbol. -/
theorem Reach.not_coveredBefore {params : KindSupervisorParams K E} {y : System K E}
    (h : y.Reach params) {i : Nat} {sym : Symbol} (hi : params.FirstChoice i sym) :
    ¬ CoveredBefore y.sup.providers i sym := by
  intro ⟨j, p, hji, hp, syms, hsyms, hmem⟩
  obtain ⟨hcan, -, has⟩ := h.assigned j p syms hp hsyms
  exact hi.first j hji hcan (has sym hmem)

/-- Starts that take over what is needed keep first choices complete, as long as nothing before a
first choice covers its symbol in the end. -/
theorem FirstComplete.starts {params : KindSupervisorParams K E} {self next : Supervisor K E}
    {reqs : List (Action K E)} (hs : Starts self reqs next)
    (hc : self.config = params.supervisor.config)
    (hn : ∀ i sym, params.FirstChoice i sym → ¬ CoveredBefore next.providers i sym)
    (h : FirstComplete params self.providers) : FirstComplete params next.providers := by
  induction hs with
  | nil => exact h
  | @cons self next id reqs hid hs ih =>
    refine ih hc hn fun i sym p hi hp hl => ?_
    rcases getElem?_set_eq_some.1 hp with ⟨rfl, -, rfl⟩ | ⟨-, hp⟩
    · -- coverage before `i` would stay until the end of the scan
      rw [ProviderState.covers_connecting, mem_symbolsOf_needed]
      refine ⟨(assigned_congr hc).2 hi.assigned, fun hcov => ?_⟩
      exact hn id sym hi (hs.coveredBefore (coveredBefore_connect hid.idle hcov))
    · exact h i sym p hi hp hl

/-- A transition gives no provider new symbols, so it keeps first choices complete. -/
theorem FirstComplete.transition {params : KindSupervisorParams K E} {y : System K E} {e : Event}
    {t : Supervisor K E} {acts : List (Action K E)} (ht : y.sup.LiveTransition e t acts)
    (he : y.Enabled e) (hr : y.Reach params) (h : FirstComplete params y.sup.providers) :
    FirstComplete params t.providers := by
  intro i sym p hi hp hl
  obtain ⟨syms, hsyms⟩ := Option.isSome_iff_exists.1 hl
  obtain ⟨q, hq, hqs⟩ := ht.symbols he hr.agrees hp hsyms
  obtain ⟨syms', hs', hmem⟩ := h i sym q hi hq (Option.isSome_iff_exists.2 ⟨syms, hqs⟩)
  rw [hqs] at hs'
  cases hs'
  exact ⟨syms, hsyms, hmem⟩

/-- The controller's first scan keeps first choices complete. -/
theorem start_firstComplete {params : KindSupervisorParams K E} (hn : params.providers ≠ []) :
    FirstComplete params (start params).sup.providers := by
  have hr := start_reach (E := E) hn
  refine FirstComplete.starts (kick_spec hn).1 rfl (fun i sym hi => hr.not_coveredBefore hi) ?_
  intro i sym p _ hp hl
  rw [KindSupervisorParams.eq_idle_of_supervisor hp] at hl
  cases hl

/-- A turn keeps first choices complete. -/
theorem FirstComplete.turn {params : KindSupervisorParams K E} {y y' : System K E} {e : Event}
    (hr : y.Reach params) (ht : y.Turn e y') (h : FirstComplete params y.sup.providers) :
    FirstComplete params y'.sup.providers := by
  obtain ⟨t, acts, reqs, hc⟩ := ht.cases hr.providers_ne_nil
  have hconf : t.config = params.supervisor.config := hc.transition.config_eq.trans hr.config
  have hcov := fun i sym (hi : params.FirstChoice i sym) => (hr.turn ht).not_coveredBefore hi
  have hmid := FirstComplete.transition hc.transition ht.enabled hr h
  have hstarts := FirstComplete.starts hc.starts hconf hcov hmid
  exact hstarts

/-! ## A tick puts every symbol back -/

/-- After a tick every symbol is covered by its first choice: the cooldowns are cleared, every
provider is scanned, and nothing else can have the symbol before its first choice. -/
theorem Turn.firstCovered {params : KindSupervisorParams K E} {y y' : System K E}
    (hr : y.Reach params) (ht : y.Turn .backoffTick y')
    (h : FirstComplete params y.sup.providers) : y'.FirstCovered params := by
  intro i sym hi
  have hr' := hr.turn ht
  have hfirst := FirstComplete.turn hr ht h
  obtain ⟨t, acts, reqs, hc⟩ := ht.cases hr.providers_ne_nil
  obtain ⟨hps, hfull⟩ : t.providers = y.sup.providers.map clearCooldown ∧
      t.roundExhausted = false ∧ t.scanCursor = t.startIndex := by
    cases hc.transition with
    | tickTerminated hp _ _ hx =>
      rw [(hr.starting _ _ hp).scanning rfl] at hx
      cases hx
    | tickQuiet | tickActive | tickInactive => exact ⟨rfl, rfl, rfl⟩
  have hlt : i < y'.sup.providers.length := by
    rw [hr'.length]
    exact KindSupervisorParams.lt_of_canProviderStream hi.canStream
  have hdone : ¬ y'.sup.IdleWithWork i := by
    refine hc.done i (mem_visited_of_full hfull.1 hfull.2 ?_)
    rwa [← hc.starts.length_eq]
  have hp : y'.sup.providers[i]? = some y'.sup.providers[i] := List.getElem?_eq_getElem hlt
  generalize y'.sup.providers[i] = p at hp
  refine ⟨p, hp, ?_⟩
  have hidle : isProviderIdle p = false := by
    rw [Bool.eq_false_iff]
    intro hpi
    refine hdone ⟨⟨p, hp, hpi⟩, ?_, needed_ne_nil_iff.2 ⟨sym, ?_, hr'.not_coveredBefore hi⟩⟩
    · exact (canProviderStream_congr hr'.config i).trans hi.canStream
    · exact (assigned_congr hr'.config).2 hi.assigned
  have hcool : p ≠ .inCooldown := by
    rintro rfl
    rcases hc.starts.getElem?_cases i with heq | ⟨-, syms, hconn, -⟩
    · rw [hp, hps, List.getElem?_map, eq_comm, Option.map_eq_some_iff] at heq
      obtain ⟨q, -, hq⟩ := heq
      cases q <;> cases hq
    · rw [hp] at hconn
      cases hconn
  refine hfirst i sym p hi hp ?_
  cases p with
  | connecting | active => rfl
  | idle | idleFromCooldown => cases hidle
  | inCooldown => exact absurd rfl hcool

end System

/-- The step is not the failure of a start, or the end of a session, of a provider that is the first
choice for some symbol. -/
def KeepsFirst (params : KindSupervisorParams K E) (st : LTS.Step (System K E) Event) : Prop :=
  match st.label with
  | .providerStartFailed id _ | .sessionEnded id _ => ∀ sym, ¬ params.FirstChoice id sym
  | _ => True

namespace System

/-- Such a step leaves every symbol on its first choice. -/
theorem FirstCovered.turn {params : KindSupervisorParams K E} {y y' : System K E} {e : Event}
    (hr : y.Reach params) (ht : y.Turn e y') (hk : KeepsFirst params ⟨y, e, y'⟩)
    (h : y.FirstCovered params) : y'.FirstCovered params := by
  intro i sym hi
  obtain ⟨p, hp, hcov⟩ := h i sym hi
  obtain ⟨t, acts, reqs, hc⟩ := ht.cases hr.providers_ne_nil
  -- a provider that covers the symbol is not idle, so no start touches it
  suffices hq : ∃ q, t.providers[i]? = some q ∧ q.Covers sym by
    obtain ⟨q, hq, hqc⟩ := hq
    refine ⟨q, Eq.trans (hc.starts.getElem?_of_not_idle ?_) hq, hqc⟩
    intro ⟨q', hq', hidle⟩
    rw [hq] at hq'
    cases hq'
    exact ProviderState.not_covers_of_idle hidle sym hqc
  have cooled : ∀ {id}, (∀ sym, ¬ params.FirstChoice id sym) →
      (y.sup.providers.set id .inCooldown)[i]? = some p := by
    intro id hid
    refine getElem?_set_eq_some.2 (.inr ⟨?_, hp⟩)
    rintro rfl
    exact hid sym hi
  cases hc.transition with
  | succeeded id symbols =>
    rcases eq_or_ne id i with rfl | hne
    · have hconn := hr.agrees.connecting ht.enabled
      rw [hp] at hconn
      cases hconn
      obtain ⟨hlt, -⟩ := List.getElem?_eq_some_iff.1 hp
      exact ⟨_, List.getElem?_set_self hlt, hcov⟩
    · exact ⟨p, getElem?_set_eq_some.2 (.inr ⟨hne, hp⟩), hcov⟩
  | startupFailed | startupTerminated | runningFailed | ended => exact ⟨p, cooled hk, hcov⟩
  | tickTerminated | tickQuiet | tickActive | tickInactive =>
    refine ⟨clearCooldown p, ?_, ?_⟩
    · exact (List.getElem?_map ..).trans (congrArg _ hp)
    · cases p <;> exact hcov
  | shutdown | downstreamClosed => exact ⟨p, hp, hcov⟩

end System

/-- After every tick, and from then on for as long as no start of a first choice fails and no session
of one ends, every symbol is covered by its first choice; and once no start is in flight, a live
session of its first choice streams it. -/
theorem failback {params : KindSupervisorParams K E}
    {tr rest : List (LTS.Step (System K E) Event)} {tick : LTS.Step (System K E) Event}
    {y : System K E} (h : Run params (tr ++ tick :: rest) y) (ht : tick.label = .backoffTick)
    (hk : ∀ st ∈ rest, KeepsFirst params st) {i : Nat} {sym : Symbol}
    (hi : params.FirstChoice i sym) :
    (∃ p, y.sup.providers[i]? = some p ∧ p.Covers sym) ∧
      (y.starts = [] → ∃ syms, (i, syms) ∈ y.sessions ∧ sym ∈ syms) := by
  obtain ⟨hpre, hturn⟩ := h.path.step_of_split
  rw [ht] at hturn
  have ⟨hr, hfirst⟩ := hpre.inv
    (I := fun y => y.Reach params ∧ System.FirstComplete params y.sup.providers)
    ⟨System.start_reach h.nonempty, System.start_firstComplete h.nonempty⟩
    fun _ _ _ hI ht => ⟨hI.1.turn ht, hI.2.turn hI.1 ht⟩
  have ⟨hry, hcov⟩ := h.path.rest_of_split.inv_of_steps
    (I := fun y => y.Reach params ∧ y.FirstCovered params)
    ⟨hr.turn hturn, hturn.firstCovered hr hfirst⟩
    (fun _ _ _ hI ht hc => ⟨hI.1.turn ht, hI.2.turn hI.1 ht hc⟩) hk
  obtain ⟨p, hp, syms, hsyms, hmem⟩ := hcov i sym hi
  refine ⟨⟨p, hp, syms, hsyms, hmem⟩, fun hstarts => ⟨syms, ?_, hmem⟩⟩
  cases p with
  | active symbols =>
    cases hsyms
    exact hry.agrees.session_mem hp
  | connecting symbols =>
    have hin := hry.agrees.start_mem hp
    rw [hstarts] at hin
    cases hin
  | idle | idleFromCooldown | inCooldown => cases hsyms

/-- The first choice of `splitChain` is refused once, its fallbacks come up, and the tick starts it
again. -/
def returnEvents : List Event :=
  [.providerStartFailed 0 (.other "refused"), .providerStartSucceeded 1 [⟨"Y"⟩], .backoffTick,
    .providerStartSucceeded 3 [⟨"X"⟩], .providerStartSucceeded 0 [⟨"X"⟩, ⟨"Y"⟩]]

set_option maxRecDepth 4000 in
/-- Both symbols are back on it. -/
theorem split_failback : ∃ syms,
    (0, syms) ∈ ((System.start splitChain).after returnEvents).sessions ∧ ⟨"Y"⟩ ∈ syms := by
  have hrun : Run splitChain ((System.start splitChain).replay returnEvents)
      ((System.start splitChain).after returnEvents) :=
    Run.replay (by decide) returnEvents (by decide)
  have hsplit : (System.start splitChain).replay returnEvents =
      ((System.start splitChain).replay returnEvents).take 2 ++
        ⟨(System.start splitChain).after (returnEvents.take 2), .backoffTick,
          (System.start splitChain).after (returnEvents.take 3)⟩ ::
        ((System.start splitChain).replay returnEvents).drop 3 := rfl
  have hfirst : splitChain.FirstChoice 0 ⟨"Y"⟩ :=
    ⟨by decide, ⟨_, _, rfl, rfl, by decide⟩, fun j hj => absurd hj (Nat.not_lt_zero j)⟩
  rw [hsplit] at hrun
  refine (failback hrun rfl (fun st hst => ?_) hfirst).2 (by decide)
  rcases List.mem_cons.1 hst with rfl | hst
  · exact trivial
  · rw [List.mem_singleton.1 hst]
    exact trivial

end Borsa
