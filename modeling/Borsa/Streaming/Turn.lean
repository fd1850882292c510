import Borsa.Streaming.Controller

/-!
# Turns of the controller and what they keep

`turn_cases` reads one turn of the controller as a transition followed by starts, in terms of the
state it leads to. `Agrees` says that the supervisor's record of each provider matches the starts in
flight and the live sessions, and `Reach` collects what holds in every state of every run, the
particulars of the startup phase among it.
-/

namespace Borsa

variable {K E : Type}

/-! ## The supervisor's record and its tasks -/

/-- The starts in flight and the live sessions of a provider in this state, each with its symbols. -/
def ProviderState.tasks : ProviderState → List (List Symbol) × List (List Symbol)
  | .connecting symbols => ([symbols], [])
  | .active symbols => ([], [symbols])
  | _ => ([], [])

/-- An idle provider has no task. -/
theorem tasks_of_idle {p : ProviderState} (h : isProviderIdle p = true) : p.tasks = ([], []) := by
  cases p <;> first | rfl | cases h

/-- Every provider has exactly the tasks its state says, and nothing else has any. -/
def Agrees (ps : List ProviderState) (starts sessions : List (Nat × List Symbol)) : Prop :=
  ∀ id, (Keyed.atKey starts id, Keyed.atKey sessions id) =
    (ps[id]?.map ProviderState.tasks).getD ([], [])

namespace Agrees

variable {ps : List ProviderState} {starts sessions : List (Nat × List Symbol)}

/-- A provider's tasks are those of its state. -/
theorem atKey_eq (h : Agrees ps starts sessions) {id : Nat} {p : ProviderState}
    (hp : ps[id]? = some p) :
    Keyed.atKey starts id = p.tasks.1 ∧ Keyed.atKey sessions id = p.tasks.2 := by
  have hid := h id
  rw [hp, Option.map_some, Option.getD_some] at hid
  exact Prod.ext_iff.1 hid

/-- A start in flight belongs to a connecting provider. -/
theorem connecting (h : Agrees ps starts sessions) {id : Nat} {syms : List Symbol}
    (hm : (id, syms) ∈ starts) : ps[id]? = some (.connecting syms) := by
  have hid := congrArg Prod.fst (h id)
  rw [← Keyed.mem_atKey] at hm
  rw [show Keyed.atKey starts id = _ from hid] at hm
  cases hp : ps[id]? with
  | none => simp [hp] at hm
  | some p => cases p <;> simp_all [ProviderState.tasks]

/-- A live session belongs to an active provider. -/
theorem active (h : Agrees ps starts sessions) {id : Nat} {syms : List Symbol}
    (hm : (id, syms) ∈ sessions) : ps[id]? = some (.active syms) := by
  have hid := congrArg Prod.snd (h id)
  rw [← Keyed.mem_atKey] at hm
  rw [show Keyed.atKey sessions id = _ from hid] at hm
  cases hp : ps[id]? with
  | none => simp [hp] at hm
  | some p => cases p <;> simp_all [ProviderState.tasks]

/-- A connecting provider has a start in flight. -/
theorem start_mem (h : Agrees ps starts sessions) {id : Nat} {syms : List Symbol}
    (hp : ps[id]? = some (.connecting syms)) : (id, syms) ∈ starts := by
  rw [← Keyed.mem_atKey, (h.atKey_eq hp).1]
  exact List.mem_singleton_self syms

/-- An active provider has a live session. -/
theorem session_mem (h : Agrees ps starts sessions) {id : Nat} {syms : List Symbol}
    (hp : ps[id]? = some (.active syms)) : (id, syms) ∈ sessions := by
  rw [← Keyed.mem_atKey, (h.atKey_eq hp).2]
  exact List.mem_singleton_self syms

/-- Without live sessions no provider is active. -/
theorem not_active (h : Agrees ps starts []) (id : Nat) (syms : List Symbol) :
    ps[id]? ≠ some (.active syms) := fun hp => by
  cases h.session_mem hp

/-- One provider's state changes together with its tasks. -/
theorem set {starts' sessions' : List (Nat × List Symbol)} (h : Agrees ps starts sessions)
    {id : Nat} {p : ProviderState} (hlt : id < ps.length)
    (hid : (Keyed.atKey starts' id, Keyed.atKey sessions' id) = p.tasks)
    (hst : ∀ j, j ≠ id → Keyed.atKey starts' j = Keyed.atKey starts j)
    (hse : ∀ j, j ≠ id → Keyed.atKey sessions' j = Keyed.atKey sessions j) :
    Agrees (ps.set id p) starts' sessions' := by
  intro j
  by_cases hj : j = id
  · subst hj
    rw [hid, List.getElem?_set_self hlt]; rfl
  · rw [hst j hj, hse j hj, List.getElem?_set_ne (Ne.symm hj), h j]

/-- Clearing cooldowns changes no task. -/
theorem map_clearCooldown (h : Agrees ps starts sessions) :
    Agrees (ps.map Supervisor.clearCooldown) starts sessions := by
  intro id
  rw [h id, List.getElem?_map, Option.map_map]
  congr 2
  funext p
  cases p <;> rfl

end Agrees

open Supervisor

/-- Starts put in flight what they mark as connecting. -/
theorem Supervisor.Starts.agrees {self next : Supervisor K E} {reqs : List (Action K E)}
    {starts sessions : List (Nat × List Symbol)} (hs : Starts self reqs next)
    (h : Agrees self.providers starts sessions) :
    Agrees next.providers (starts ++ launched reqs) sessions := by
  induction hs generalizing starts with
  | nil => simpa [launched] using h
  | @cons self next id reqs hid _ ih =>
    obtain ⟨p, hp, hidle⟩ := hid.idle
    obtain ⟨hlt, -⟩ := List.getElem?_eq_some_iff.1 hp
    have hid' := h.atKey_eq hp
    rw [tasks_of_idle hidle] at hid'
    have hconn : Agrees (self.connect id).providers
        (starts ++ [(id, symbolsOf (self.computeNeededInstrumentsFor id))]) sessions := by
      refine h.set hlt ?_ (fun j hj => ?_) fun j _ => rfl
      · rw [Keyed.atKey_append, hid'.1, hid'.2, Keyed.atKey_cons, if_pos rfl]; rfl
      · rw [Keyed.atKey_append, Keyed.atKey_cons, if_neg (Ne.symm hj)]; simp
    have hrest := ih hconn
    rwa [List.append_assoc] at hrest

/-- A transition changes the record of its provider as the tasks change. -/
theorem Supervisor.LiveTransition.agrees {y : System K E} {e : Event} {t : Supervisor K E}
    {acts : List (Action K E)} (ht : y.sup.LiveTransition e t acts) (he : y.Enabled e)
    (h : Agrees y.sup.providers y.starts y.sessions) :
    Agrees t.providers (y.startsAfter e) (y.sessionsAfter e) := by
  have failed : ∀ {id : Nat} {syms : List Symbol}, (id, syms) ∈ y.starts →
      Agrees (y.sup.providers.set id .inCooldown) (y.starts.eraseP fun x => x.1 == id)
        y.sessions := by
    intro id syms hm
    have hp := h.connecting hm
    obtain ⟨hlt, -⟩ := List.getElem?_eq_some_iff.1 hp
    have hid := h.atKey_eq hp
    refine h.set hlt ?_ (fun j hj => Keyed.atKey_eraseP_of_ne _ hj) fun j _ => rfl
    rw [Keyed.atKey_eraseP_self, hid.1, hid.2]; rfl
  cases ht with
  | succeeded id syms =>
    have hm : (id, syms) ∈ y.starts := he
    have hp := h.connecting hm
    obtain ⟨hlt, -⟩ := List.getElem?_eq_some_iff.1 hp
    have hid := h.atKey_eq hp
    refine h.set hlt ?_ (fun j hj => Keyed.atKey_erase_of_ne _ _ hj) fun j hj => ?_
    · simp only [System.startsAfter, System.sessionsAfter]
      rw [Keyed.atKey_erase_self, Keyed.atKey_append, hid.1, hid.2, Keyed.atKey_cons, if_pos rfl]
      simp [ProviderState.tasks]
    · rw [System.sessionsAfter, Keyed.atKey_append, Keyed.atKey_cons, if_neg (Ne.symm hj)]
      simp
  | startupFailed _ _ | startupTerminated _ _ | runningFailed _ =>
    obtain ⟨syms, hm⟩ := he
    exact failed hm
  | ended id syms =>
    have hm : (id, syms) ∈ y.sessions := he
    have hp := h.active hm
    obtain ⟨hlt, -⟩ := List.getElem?_eq_some_iff.1 hp
    have hid := h.atKey_eq hp
    refine h.set hlt ?_ (fun j _ => rfl) fun j hj => Keyed.atKey_erase_of_ne _ _ hj
    simp only [System.startsAfter, System.sessionsAfter]
    rw [Keyed.atKey_erase_self, hid.1, hid.2]
    simp [ProviderState.tasks]
  | tickTerminated | tickQuiet | tickActive | tickInactive => exact h.map_clearCooldown
  | shutdown | downstreamClosed => exact h

/-- A transition gives no provider new symbols: a provider that streams or is about to stream some
after it did so, or was about to, before. -/
theorem Supervisor.LiveTransition.symbols {y : System K E} {e : Event} {t : Supervisor K E}
    {acts : List (Action K E)} (ht : y.sup.LiveTransition e t acts) (he : y.Enabled e)
    (h : Agrees y.sup.providers y.starts y.sessions) {id : Nat} {p : ProviderState}
    {syms : List Symbol} (hp : t.providers[id]? = some p) (hs : p.symbols? = some syms) :
    ∃ q, y.sup.providers[id]? = some q ∧ q.symbols? = some syms := by
  have cooled : ∀ {k : Nat}, (y.sup.providers.set k .inCooldown)[id]? = some p →
      ∃ q, y.sup.providers[id]? = some q ∧ q.symbols? = some syms := by
    intro k hk
    rcases getElem?_set_eq_some.1 hk with ⟨-, -, rfl⟩ | ⟨-, hk⟩
    · cases hs
    · exact ⟨p, hk, hs⟩
  have cleared : (y.sup.providers.map clearCooldown)[id]? = some p →
      ∃ q, y.sup.providers[id]? = some q ∧ q.symbols? = some syms := by
    intro hm
    rw [List.getElem?_map, Option.map_eq_some_iff] at hm
    obtain ⟨q, hq, rfl⟩ := hm
    refine ⟨q, hq, ?_⟩
    cases q <;> exact hs
  cases ht with
  | succeeded k symbols =>
    rcases getElem?_set_eq_some.1 hp with ⟨rfl, -, rfl⟩ | ⟨-, hp⟩
    · cases hs
      exact ⟨_, h.connecting he, rfl⟩
    · exact ⟨p, hp, hs⟩
  | startupFailed | startupTerminated | runningFailed => exact cooled hp
  | ended => exact cooled hp
  | tickTerminated | tickQuiet | tickActive | tickInactive => exact cleared hp
  | shutdown | downstreamClosed => exact ⟨p, hp, hs⟩

/-- No transition puts a start in flight; only the scan does. -/
theorem Supervisor.LiveTransition.launched_eq {s t : Supervisor K E} {e : Event}
    {acts : List (Action K E)} (h : s.LiveTransition e t acts) : launched acts = [] := by
  cases h with
  | succeeded id symbols =>
    have hn : launched s.notifyOk = [] := by
      unfold notifyOk
      cases s.phase.initialTx? <;> rfl
    have hp : launched (s.preemptions id symbols) = [] := by
      unfold preemptions
      dsimp only
      split <;> rfl
    rw [launched_append, launched_append, hn, hp]
    rfl
  | _ => rfl

/-- Starts tell the caller nothing. -/
theorem Supervisor.Starts.notified_eq {self next : Supervisor K E} {reqs : List (Action K E)}
    (h : Starts self reqs next) : notified reqs = [] := by
  induction h with
  | nil => rfl
  | cons _ _ ih => exact ih

/-- A success tells the caller that the stream is up, if it still waits. -/
theorem Supervisor.notified_succeeded (s : Supervisor K E) (id : Nat) (symbols : List Symbol) :
    notified (s.notifyOk ++ (s.preemptions id symbols ++
      [.scheduleBackoffTick (s.activated id symbols).backoffMs])) =
      (s.phase.initialTx?.map fun tx => (tx, Except.ok ())).toList := by
  have hp : notified (s.preemptions id symbols) = [] := by
    unfold preemptions
    dsimp only
    split <;> rfl
  rw [notified_append, notified_append, hp]
  unfold notifyOk
  cases s.phase.initialTx? <;> rfl

/-! ## One turn -/

namespace System

/-- One turn of the controller: a transition to `t` with the actions `acts`, then the starts
`reqs`. -/
structure TurnCases (y : System K E) (e : Event) (y' : System K E) (t : Supervisor K E)
    (acts reqs : List (Action K E)) : Prop where
  transition : y.sup.LiveTransition e t acts
  starts : Starts t reqs { t with providers := y'.sup.providers }
  sup : y'.sup =
    { t with
      providers := y'.sup.providers
      attemptedSinceLastTick := t.attemptedSinceLastTick || !reqs.isEmpty }
  inFlight : y'.starts = y.startsAfter e ++ launched reqs
  sessions : y'.sessions = y.sessionsAfter e
  emitted : y.emitted e = acts ++ reqs
  /-- An exhausted round suppresses the scan. -/
  exhausted : t.roundExhausted = true → reqs = []
  /-- The scan leaves no provider it visits idle with work. -/
  done : ∀ i ∈ t.visited, ¬ y'.sup.IdleWithWork i
  /-- The scan touches no other provider. -/
  frame : ∀ i, i ∉ t.visited → y'.sup.providers[i]? = t.providers[i]?

theorem Turn.cases {y y' : System K E} {e : Event} (h : y.Turn e y')
    (hn : y.sup.providers ≠ []) : ∃ t acts reqs, y.TurnCases e y' t acts reqs := by
  obtain ⟨hl, -, rfl⟩ := h
  obtain ⟨reqs, next, hh⟩ := handle_spec hl hn e
  have hlive := transition_cases hl e
  have hframe := hh.starts.frame
  have hsup : (y.deliver e).sup = _ := hh.state
  have hps : (y.deliver e).sup.providers = next.providers := by rw [hsup]
  refine ⟨(y.sup.transitionForEvent e).1, (y.sup.transitionForEvent e).2, reqs, hlive, ?_, ?_, ?_,
    rfl, hh.actions, hh.exhausted, fun i hi hw => hh.done i hi ?_,
    fun i hi => (congrArg (·[i]?) hps).trans (hh.frame i hi)⟩
  · rw [hps, ← hframe]
    exact hh.starts
  · rw [hps, hsup, hframe]
  · have hacts := congrArg launched hh.actions
    rw [launched_append, hlive.launched_eq, List.nil_append] at hacts
    rw [deliver, ← hacts]
  · refine (idleWithWork_congr ?_ hps).1 hw
    rw [hsup]
    rfl

namespace TurnCases

variable {y y' : System K E} {e : Event} {t : Supervisor K E} {acts reqs : List (Action K E)}

theorem phase (h : y.TurnCases e y' t acts reqs) : y'.sup.phase = t.phase := by
  rw [h.sup]

theorem startIndex (h : y.TurnCases e y' t acts reqs) : y'.sup.startIndex = t.startIndex := by
  rw [h.sup]

theorem scanCursor (h : y.TurnCases e y' t acts reqs) : y'.sup.scanCursor = t.scanCursor := by
  rw [h.sup]

theorem roundExhausted (h : y.TurnCases e y' t acts reqs) :
    y'.sup.roundExhausted = t.roundExhausted := by
  rw [h.sup]

theorem backoffMs (h : y.TurnCases e y' t acts reqs) : y'.sup.backoffMs = t.backoffMs := by
  rw [h.sup]

theorem config (h : y.TurnCases e y' t acts reqs) : y'.sup.config = y.sup.config :=
  Eq.trans (by rw [h.sup]; rfl) h.transition.config_eq

theorem length (h : y.TurnCases e y' t acts reqs) :
    y'.sup.providers.length = y.sup.providers.length :=
  h.starts.length_eq.trans h.transition.length_eq

/-- The starts of a turn tell the caller nothing. -/
theorem notified (h : y.TurnCases e y' t acts reqs) :
    Borsa.notified (y.emitted e) = Borsa.notified acts := by
  rw [h.emitted, notified_append, h.starts.notified_eq, List.append_nil]

/-- After a turn without a scan the providers are as the transition left them. -/
theorem providers_eq (h : y.TurnCases e y' t acts reqs) (hx : t.roundExhausted = true) :
    y'.sup.providers = t.providers := by
  have hv : t.visited = [] := by rw [visited, if_pos hx]
  refine List.ext_getElem? fun i => h.frame i ?_
  rw [hv]
  exact List.not_mem_nil

/-- The record of attempts plays no part in being idle with work. -/
theorem idleWithWork_iff (h : y.TurnCases e y' t acts reqs) (i : Nat) :
    { t with providers := y'.sup.providers }.IdleWithWork i ↔ y'.sup.IdleWithWork i := by
  have hconf : { t with providers := y'.sup.providers }.config = y'.sup.config :=
    h.transition.config_eq.trans h.config.symm
  have hps : { t with providers := y'.sup.providers }.providers = y'.sup.providers := rfl
  exact idleWithWork_congr hconf hps

end TurnCases

end System

end Borsa
