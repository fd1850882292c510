import Borsa.Streaming.Turn

/-!
# What holds in every state of every run

`Reach` collects the invariants of the composed system: nothing changes the configuration, the two
indices stay in range, the supervisor's record agrees with the tasks, and the startup phase keeps its
particulars (`Starting`): the sender is the controller's, the start index is the first provider, no
session has begun, and while a sender waits no round is exhausted. `Run.reach` is the induction.
-/

namespace Borsa

open Supervisor

variable {K E : Type}

/-- Only an index of the provider list can be idle with work. -/
theorem Supervisor.IdleWithWork.lt {s : Supervisor K E} {i : Nat} (h : s.IdleWithWork i) :
    i < s.providers.length := by
  obtain ⟨p, hp, -⟩ := h.idle
  exact (List.getElem?_eq_some_iff.1 hp).1

/-- A supervisor that has an active provider says so. -/
theorem Supervisor.hasAnyActive_iff {s : Supervisor K E} :
    s.hasAnyActive = true ↔
      ∃ (id : Nat) (syms : List Symbol), s.providers[id]? = some (.active syms) := by
  unfold hasAnyActive
  rw [List.any_eq_true]
  constructor
  · intro ⟨p, hp, hact⟩
    obtain ⟨id, hid⟩ := List.mem_iff_getElem?.1 hp
    cases p with
    | active syms => exact ⟨id, syms, hid⟩
    | _ => cases hact
  · intro ⟨id, syms, hid⟩
    exact ⟨.active syms, List.mem_of_getElem? hid, rfl⟩

/-! ## The first starts -/

namespace System

/-- The first starts, and that they leave no provider idle with work: the first scan visits all of
them. -/
theorem kick_spec {params : KindSupervisorParams K E} (hn : params.providers ≠ []) :
    Starts params.supervisor (kick params).2 (kick params).1 ∧
      ∀ i, ¬ (kick params).1.IdleWithWork i := by
  have hlen : params.supervisor.providers.length = params.providers.length :=
    List.length_replicate
  have hps : params.supervisor.providers ≠ [] := by
    rw [← List.length_pos_iff, hlen]
    exact List.length_pos_iff.2 hn
  unfold kick
  split
  · obtain ⟨hs, hdone, -⟩ := computeNeededStarts_spec hps rfl
    refine ⟨hs, fun i hw => hdone i ?_ hw⟩
    have hlt : i < params.supervisor.providers.length := hs.length_eq ▸ hw.lt
    exact (Cyclic.mem_arc_self (Nat.mod_lt _ (List.length_pos_iff.2 hps))).2 hlt
  · next hsh =>
    refine ⟨.nil _, fun i hw => hsh ?_⟩
    rw [shouldAttemptStarts, hasIdleProvidersWithWork_iff.2 ⟨i, hw⟩]
    rfl

/-! ## The invariants -/

/-- The particulars of a startup with sender `tx`. -/
structure Starting (params : KindSupervisorParams K E) (y : System K E)
    (tx : Option InitialSender) : Prop where
  sender : tx = params.initialNotify
  startIndex : y.sup.startIndex = 0
  sessions : y.sessions = []
  scanning : tx.isSome → y.sup.roundExhausted = false

/-- What holds in every state a run reaches. -/
structure Reach (params : KindSupervisorParams K E) (y : System K E) : Prop where
  nonempty : params.providers ≠ []
  config : y.sup.config = params.supervisor.config
  length : y.sup.providers.length = params.providers.length
  startIndex : y.sup.startIndex < y.sup.providers.length
  scanCursor : y.sup.scanCursor < y.sup.providers.length
  agrees : Agrees y.sup.providers y.starts y.sessions
  /-- Only providers that can stream are started, for assigned symbols. -/
  assigned : ∀ (id : Nat) (p : ProviderState) (syms : List Symbol),
    y.sup.providers[id]? = some p → p.symbols? = some syms →
      params.supervisor.canProviderStream id = true ∧ syms ≠ [] ∧
        ∀ sym ∈ syms, params.supervisor.Assigned id sym
  starting : ∀ tx errors, y.sup.phase = .startup tx errors → y.Starting params tx

namespace Reach

variable {params : KindSupervisorParams K E} {y y' : System K E} {e : Event}

theorem providers_ne_nil (h : y.Reach params) : y.sup.providers ≠ [] := by
  rw [← List.length_pos_iff]
  exact Nat.lt_of_le_of_lt (Nat.zero_le _) h.startIndex

/-- During startup no provider is active. -/
theorem not_active (h : y.Reach params) {tx : Option InitialSender} {errors : List BorsaError}
    (hp : y.sup.phase = .startup tx errors) (id : Nat) (syms : List Symbol) :
    y.sup.providers[id]? ≠ some (.active syms) := by
  have hag := h.agrees
  rw [(h.starting tx errors hp).sessions] at hag
  exact hag.not_active id syms

end Reach

/-- Starts are of providers that can stream, for symbols assigned to them. -/
theorem assigned_of_starts {params : KindSupervisorParams K E} {self next : Supervisor K E}
    {reqs : List (Action K E)} (hs : Starts self reqs next)
    (hc : self.config = params.supervisor.config) {id : Nat} {p : ProviderState}
    {syms : List Symbol} (hp : next.providers[id]? = some p) (hsyms : p.symbols? = some syms) :
    self.providers[id]? = some p ∨ params.supervisor.canProviderStream id = true ∧ syms ≠ [] ∧
      ∀ sym ∈ syms, params.supervisor.Assigned id sym := by
  rcases hs.getElem?_cases id with heq | ⟨hw, syms', hp', hne, has⟩
  · exact .inl (heq.symm.trans hp)
  · rw [hp'] at hp
    cases hp
    cases hsyms
    exact .inr ⟨(canProviderStream_congr hc id).symm.trans hw.canStream, hne,
      fun sym hsym => (assigned_congr hc).1 (has sym hsym)⟩

/-! ## One turn keeps them -/

/-- A transition leaves both indices in range. -/
theorem indices_lt {y : System K E} {e : Event} {t : Supervisor K E} {acts : List (Action K E)}
    (ht : y.sup.LiveTransition e t acts) (hs : y.sup.startIndex < y.sup.providers.length)
    (hc : y.sup.scanCursor < y.sup.providers.length) :
    t.startIndex < y.sup.providers.length ∧ t.scanCursor < y.sup.providers.length := by
  have hpos : 0 < y.sup.providers.length := Nat.lt_of_le_of_lt (Nat.zero_le _) hs
  cases ht with
  | succeeded id symbols => exact ⟨Nat.mod_lt _ hpos, Nat.mod_lt _ hpos⟩
  | startupFailed | startupTerminated | runningFailed => exact ⟨hs, Nat.mod_lt _ hpos⟩
  | ended id symbols => exact ⟨hs, hc⟩
  | tickTerminated => exact ⟨hs, hc⟩
  | tickQuiet | tickActive => exact ⟨hs, hs⟩
  | tickInactive => exact ⟨hpos, hpos⟩
  | shutdown | downstreamClosed => exact ⟨hs, hc⟩

/-- A failure during a startup that is not reported as failed leaves the round open. -/
theorem scanning_of_failed {s : Supervisor K E} {id : Nat}
    (hact : ∀ (j : Nat) (syms : List Symbol), s.providers[j]? ≠ some (.active syms))
    (h : (s.advanceScanCursorForFailure id).shouldTerminateStartup = false) :
    (s.advanceScanCursorForFailure id).roundExhausted = false := by
  have hnone : (s.advanceScanCursorForFailure id).hasAnyActive = false := by
    rw [Bool.eq_false_iff]
    intro hany
    obtain ⟨j, syms, hj⟩ := hasAnyActive_iff.1 hany
    rcases getElem?_set_eq_some.1 hj with ⟨-, -, heq⟩ | ⟨-, hj⟩
    · cases heq
    · exact hact j syms hj
  rw [shouldTerminateStartup, hnone] at h
  exact h

/-- A transition that leaves the supervisor starting up keeps the particulars of the startup. -/
theorem Starting.transition {params : KindSupervisorParams K E} {y : System K E} {e : Event}
    {t : Supervisor K E} {acts : List (Action K E)} (ht : y.sup.LiveTransition e t acts)
    (he : y.Enabled e) (h : y.Reach params) {tx : Option InitialSender}
    {errors : List BorsaError} (hp : t.phase = .startup tx errors) :
    tx = params.initialNotify ∧ t.startIndex = 0 ∧ y.sessionsAfter e = [] ∧
      (tx.isSome → t.roundExhausted = false) := by
  cases ht with
  | succeeded id symbols => cases hp
  | startupFailed hphase hterm =>
    cases hp
    have hst := h.starting _ _ hphase
    refine ⟨hst.sender, hst.startIndex, hst.sessions, fun htx => ?_⟩
    rcases hterm with hterm | rfl
    · exact scanning_of_failed (h.not_active hphase) hterm
    · cases htx
  | startupTerminated => cases hp
  | runningFailed hphase =>
    have hp : y.sup.phase = .startup tx errors := hp
    rw [hphase] at hp
    cases hp
  | ended id symbols =>
    have hm : (id, symbols) ∈ y.sessions := he
    rw [(h.starting tx errors hp).sessions] at hm
    cases hm
  | tickTerminated => cases hp
  | tickQuiet hat | tickActive hat _ =>
    have hst := h.starting tx errors hp
    exact ⟨hst.sender, hst.startIndex, hst.sessions, fun _ => rfl⟩
  | tickInactive =>
    have hst := h.starting tx errors hp
    exact ⟨hst.sender, rfl, hst.sessions, fun _ => rfl⟩
  | shutdown | downstreamClosed => cases hp

/-- The controller starts out waiting. -/
theorem start_phase {params : KindSupervisorParams K E} (hn : params.providers ≠ []) :
    (start params).sup.phase = .startup params.initialNotify [] := by
  rw [start, (kick_spec hn).1.frame]
  rfl

/-- The controller's first state. -/
theorem start_reach {params : KindSupervisorParams K E} (hn : params.providers ≠ []) :
    (start params).Reach params := by
  obtain ⟨hs, -⟩ := kick_spec hn
  have hlen : (kick params).1.providers.length = params.providers.length := by
    rw [hs.length_eq]
    exact List.length_replicate
  have hframe := hs.frame
  have hidx : (kick params).1.startIndex = 0 ∧ (kick params).1.scanCursor = 0 := by
    rw [hframe]
    exact ⟨rfl, rfl⟩
  have hpos : 0 < params.providers.length := List.length_pos_iff.2 hn
  refine ⟨hn, ?_, hlen, ?_, ?_, ?_, fun id p syms hp hsyms => ?_, fun tx errors hp => ?_⟩
  · rw [start, hframe]
    rfl
  · rw [start, hidx.1, hlen]
    exact hpos
  · rw [start, hidx.2, hlen]
    exact hpos
  · have hinit : Agrees params.supervisor.providers [] [] := fun id => by
      change ([], []) =
        ((List.replicate params.providers.length ProviderState.idle)[id]?.map _).getD _
      rw [List.getElem?_replicate]
      split <;> rfl
    exact hs.agrees hinit
  · rcases assigned_of_starts hs rfl hp hsyms with hp | h
    · rw [KindSupervisorParams.eq_idle_of_supervisor hp] at hsyms
      cases hsyms
    · exact h
  · cases (start_phase hn).symm.trans hp
    exact ⟨rfl, hidx.1, rfl, fun _ => by rw [start, hframe]; rfl⟩

/-- A turn keeps the invariants. -/
theorem Reach.turn {params : KindSupervisorParams K E} {y y' : System K E} {e : Event}
    (h : y.Reach params) (ht : y.Turn e y') : y'.Reach params := by
  obtain ⟨t, acts, reqs, hc⟩ := ht.cases h.providers_ne_nil
  obtain ⟨hsi, hsc⟩ := indices_lt hc.transition h.startIndex h.scanCursor
  refine ⟨h.nonempty, hc.config.trans h.config, hc.length.trans h.length, ?_, ?_, ?_,
    fun id p syms hp hsyms => ?_, fun tx errors hp => ?_⟩
  · rw [hc.startIndex, hc.length]
    exact hsi
  · rw [hc.scanCursor, hc.length]
    exact hsc
  · rw [hc.inFlight, hc.sessions]
    exact hc.starts.agrees (hc.transition.agrees ht.enabled h.agrees)
  · rcases assigned_of_starts hc.starts (hc.transition.config_eq.trans h.config) hp hsyms with
      hp | has
    · obtain ⟨q, hq, hqs⟩ := hc.transition.symbols ht.enabled h.agrees hp hsyms
      exact h.assigned id q syms hq hqs
    · exact has
  · obtain ⟨hsend, hstart, hsess, hscan⟩ :=
      Starting.transition hc.transition ht.enabled h (hc.phase.symm.trans hp)
    exact ⟨hsend, hc.startIndex.trans hstart, hc.sessions.trans hsess,
      fun htx => hc.roundExhausted.trans (hscan htx)⟩

end System

/-- Every state a run reaches has the invariants. -/
theorem Run.reach {params : KindSupervisorParams K E} {tr : List (LTS.Step (System K E) Event)}
    {y : System K E} (h : Run params tr y) : y.Reach params :=
  h.path.inv (System.start_reach h.nonempty) fun _ _ _ hr ht => hr.turn ht

end Borsa
