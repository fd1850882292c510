import Borsa.Streaming.Reach

/-!
# The backoff delay

The delay stays between its bounds and never decreases. It never decreases at all: a success would
reset it if its provider were still marked as idle from cooldown, but the start that leads to the
success has already overwritten the mark (`Turn.backoffMs_eq`). So a recovered provider finds the
delay reset exactly when no tick had raised it (`resets_run_iff`).
-/

namespace Borsa

open Supervisor

variable {K E : Type}

namespace Supervisor

/-- Growing the delay by a factor of at least one keeps it within its bounds. -/
theorem increaseBackoff_bounds {s : Supervisor K E} (hf : 1 ≤ s.factor)
    (hmax : s.backoffMs ≤ s.maxBackoffMs) :
    s.backoffMs ≤ s.increaseBackoff.backoffMs ∧
      s.increaseBackoff.backoffMs ≤ s.maxBackoffMs := by
  have hgrow : s.backoffMs ≤ saturatingMul s.backoffMs s.factor := by
    rw [UInt32.le_iff_toNat_le] at hf
    have hlt : s.backoffMs.toNat ≤ 2 ^ 64 - 1 := Nat.le_pred_of_lt s.backoffMs.toNat_lt
    have hmul : s.backoffMs.toNat ≤ s.backoffMs.toNat * s.factor.toNat :=
      Nat.le_mul_of_pos_right _ hf
    rw [UInt64.le_iff_toNat_le, saturatingMul, UInt64.toNat_ofNat_of_lt' (by
      have := Nat.min_le_right (s.backoffMs.toNat * s.factor.toNat) (2 ^ 64 - 1)
      simp only [UInt64.size]
      omega)]
    exact Nat.le_min.2 ⟨hmul, hlt⟩
  change s.backoffMs ≤ (if _ ≤ _ then _ else _) ∧ (if _ ≤ _ then _ else _) ≤ s.maxBackoffMs
  split
  · next h => exact ⟨hgrow, h⟩
  · exact ⟨hmax, UInt64.le_refl _⟩

/-- Starts schedule no tick. -/
theorem Starts.scheduled_eq {self next : Supervisor K E} {reqs : List (Action K E)}
    (h : Starts self reqs next) : scheduled reqs = [] := by
  induction h with
  | nil => rfl
  | cons _ _ ih => exact ih

/-- An activation schedules one tick. -/
theorem scheduled_succeeded (s : Supervisor K E) (id : Nat) (symbols : List Symbol) :
    scheduled (s.notifyOk ++ (s.preemptions id symbols ++
      [.scheduleBackoffTick (s.activated id symbols).backoffMs])) =
      [(s.activated id symbols).backoffMs] := by
  have hn : scheduled s.notifyOk = [] := by
    unfold notifyOk
    cases s.phase.initialTx? <;> rfl
  have hp : scheduled (s.preemptions id symbols) = [] := by
    unfold preemptions
    dsimp only
    split <;> rfl
  rw [scheduled_append, scheduled_append, hn, hp]
  rfl

/-- An activation of a connecting provider leaves the delay as it is. -/
theorem activated_backoffMs {s : Supervisor K E} {id : Nat} {syms symbols : List Symbol}
    (h : s.providers[id]? = some (.connecting syms)) :
    (s.activated id symbols).backoffMs = s.backoffMs := by
  rw [activated, h]
  rfl

end Supervisor

namespace System

/-! ## Recoveries -/

/-- A tick ends the cooldown of `id`. -/
def ClearsCooldown (id : Nat) (st : LTS.Step (System K E) Event) : Prop :=
  st.label = .backoffTick ∧ st.pre.sup.providers[id]? = some .inCooldown

/-- The event is about provider `id`. -/
def Concerns (id : Nat) (st : LTS.Step (System K E) Event) : Prop :=
  match st.label with
  | .providerStartSucceeded k _ | .providerStartFailed k _ | .sessionEnded k _ => k = id
  | .backoffTick | .downstreamClosed | .shutdown => False

/-- After the run `tr`, `st` is the success of the start that followed a tick's clearing of the
provider's cooldown. -/
def Recovers (tr : List (LTS.Step (System K E) Event)) (st : LTS.Step (System K E) Event) : Prop :=
  ∃ id symbols, st.label = .providerStartSucceeded id symbols ∧
    LTS.Since (ClearsCooldown id) (Concerns id) tr

/-- The tick finds that a start was attempted since the last one and that the delay can grow. -/
def RaisesDelay (st : LTS.Step (System K E) Event) : Prop :=
  st.label = .backoffTick ∧ st.pre.sup.attemptedSinceLastTick = true ∧
    st.pre.sup.increaseBackoff.backoffMs ≠ st.pre.sup.backoffMs

/-- The delay stays within its bounds, never decreases but by a reset, and is reset by a recovery,
which schedules the next tick after the least delay. -/
structure Resets (params : KindSupervisorParams K E) (tr : List (LTS.Step (System K E) Event)) :
    Prop where
  startBounds : params.minBackoffMs ≤ (start params).sup.backoffMs ∧
    (start params).sup.backoffMs ≤ params.maxBackoffMs
  bounds : ∀ st ∈ tr, params.minBackoffMs ≤ st.post.sup.backoffMs ∧
    st.post.sup.backoffMs ≤ params.maxBackoffMs
  monotone : ∀ st ∈ tr, st.pre.sup.backoffMs ≤ st.post.sup.backoffMs ∨
    st.post.sup.backoffMs = params.minBackoffMs
  recovery : ∀ tr₁ st tr₂, tr = tr₁ ++ st :: tr₂ → Recovers tr₁ st →
    st.post.sup.backoffMs = params.minBackoffMs ∧
      scheduled (st.pre.emitted st.label) = [params.minBackoffMs]

/-! ## One turn -/

/-- The delay after a turn: only a tick changes it. -/
theorem Turn.backoffMs_eq {params : KindSupervisorParams K E} {y y' : System K E} {e : Event}
    (h : y.Reach params) (ht : y.Turn e y') :
    y'.sup.backoffMs = y.sup.backoffMs ∧ ¬ RaisesDelay ⟨y, e, y'⟩ ∨
      y'.sup.backoffMs = y.sup.increaseBackoff.backoffMs ∧ RaisesDelay ⟨y, e, y'⟩ := by
  obtain ⟨t, acts, reqs, hc⟩ := ht.cases h.providers_ne_nil
  rw [hc.backoffMs]
  have grown : y.sup.attemptedSinceLastTick = true →
      y.sup.increaseBackoff.backoffMs = y.sup.backoffMs ∧ ¬ RaisesDelay ⟨y, .backoffTick, y'⟩ ∨
      y.sup.increaseBackoff.backoffMs = y.sup.increaseBackoff.backoffMs ∧
        RaisesDelay ⟨y, .backoffTick, y'⟩ := by
    intro hat
    by_cases hg : y.sup.increaseBackoff.backoffMs = y.sup.backoffMs
    · exact .inl ⟨hg, fun hr => hr.2.2 hg⟩
    · exact .inr ⟨rfl, rfl, hat, hg⟩
  cases hc.transition with
  | succeeded id symbols =>
    have hm : (id, symbols) ∈ y.starts := ht.enabled
    exact .inl ⟨activated_backoffMs (h.agrees.connecting hm), nofun⟩
  | startupFailed | startupTerminated | runningFailed | ended => exact .inl ⟨rfl, nofun⟩
  | tickTerminated hp _ _ hx =>
    rw [(h.starting _ _ hp).scanning rfl] at hx
    cases hx
  | tickQuiet hat =>
    refine .inl ⟨rfl, fun hr => ?_⟩
    have hr : y.sup.attemptedSinceLastTick = true := hr.2.1
    rw [hat] at hr
    cases hr
  | tickActive hat | tickInactive hat => exact grown hat
  | shutdown | downstreamClosed => exact .inl ⟨rfl, nofun⟩

/-- The delay is within its bounds. -/
def Bounded (params : KindSupervisorParams K E) (y : System K E) : Prop :=
  params.minBackoffMs ≤ y.sup.backoffMs ∧ y.sup.backoffMs ≤ params.maxBackoffMs

/-- A turn does not decrease the delay and keeps it within its bounds; it raises it when
`RaisesDelay` says so. -/
theorem Turn.backoffMs_le {params : KindSupervisorParams K E} {y y' : System K E} {e : Event}
    (hf : 1 ≤ params.factor) (h : y.Reach params) (hb : y.Bounded params) (ht : y.Turn e y') :
    y.sup.backoffMs ≤ y'.sup.backoffMs ∧ y'.Bounded params ∧
      (y'.sup.backoffMs = y.sup.backoffMs ↔ ¬ RaisesDelay ⟨y, e, y'⟩) := by
  have hconf := h.config
  simp only [config, Config.mk.injEq] at hconf
  obtain ⟨-, -, -, -, -, -, hmax, hfac⟩ := hconf
  have hmax' : y.sup.backoffMs ≤ y.sup.maxBackoffMs := by
    rw [hmax]
    exact hb.2
  obtain ⟨hlo, hhi⟩ := increaseBackoff_bounds (hfac ▸ hf) hmax'
  rw [hmax] at hhi
  rcases ht.backoffMs_eq h with ⟨heq, hr⟩ | ⟨heq, hr⟩
  · refine ⟨heq ▸ UInt64.le_refl _, ?_, iff_of_true heq hr⟩
    rw [Bounded, heq]
    exact hb
  · refine ⟨heq ▸ hlo, ⟨?_, ?_⟩, iff_of_false (fun h => hr.2.2 ?_) (not_not_intro hr)⟩
    · rw [heq]
      exact UInt64.le_trans hb.1 hlo
    · rw [heq]
      exact hhi
    · exact heq.symm.trans h

/-- The controller starts from the least delay. -/
theorem start_backoffMs {params : KindSupervisorParams K E} (hn : params.providers ≠ []) :
    (start params).sup.backoffMs = params.minBackoffMs := by
  rw [start, (kick_spec hn).1.frame]
  rfl

/-- A success schedules the next tick after the current delay. -/
theorem Turn.scheduled_eq {params : KindSupervisorParams K E} {y y' : System K E} {id : Nat}
    {symbols : List Symbol} (h : y.Reach params)
    (ht : y.Turn (.providerStartSucceeded id symbols) y') :
    scheduled (y.emitted (.providerStartSucceeded id symbols)) = [y'.sup.backoffMs] := by
  obtain ⟨t, acts, reqs, hc⟩ := ht.cases h.providers_ne_nil
  rw [hc.emitted, scheduled_append, hc.starts.scheduled_eq, List.append_nil, hc.backoffMs]
  cases hc.transition
  exact scheduled_succeeded _ _ _

/-! ## Runs -/

/-- Along a run the delay stays within its bounds, and it is the least one exactly when no tick has
raised it. -/
theorem backoffMs_eq_min_iff {params : KindSupervisorParams K E} (hf : 1 ≤ params.factor)
    (hle : params.minBackoffMs ≤ params.maxBackoffMs)
    {tr : List (LTS.Step (System K E) Event)} {y : System K E} (h : Run params tr y) :
    y.Bounded params ∧
      (y.sup.backoffMs = params.minBackoffMs ↔ ∀ st ∈ tr, ¬ RaisesDelay st) := by
  obtain ⟨hn, hp⟩ := h
  induction hp with
  | nil =>
    rw [Bounded, start_backoffMs hn]
    exact ⟨⟨UInt64.le_refl _, hle⟩, iff_of_true rfl (by simp)⟩
  | @snoc tr y y' e hp ht ih =>
    obtain ⟨hb, hiff⟩ := ih
    obtain ⟨hmono, hb', hraise⟩ := ht.backoffMs_le hf (Run.reach ⟨hn, hp⟩) hb
    refine ⟨hb', ?_⟩
    rw [List.forall_mem_append, List.forall_mem_singleton, ← hiff, ← hraise]
    constructor
    · intro hmin
      have hpre : y.sup.backoffMs = params.minBackoffMs :=
        UInt64.le_antisymm (hmin ▸ hmono) hb.1
      exact ⟨hpre, hmin.trans hpre.symm⟩
    · intro ⟨hpre, heq⟩
      exact heq.trans hpre

/-- A recovery leaves the delay as it is, so it ends at the least one exactly when no earlier tick
raised it. -/
theorem Recovers.reset_iff {params : KindSupervisorParams K E} (hf : 1 ≤ params.factor)
    (hle : params.minBackoffMs ≤ params.maxBackoffMs)
    {tr : List (LTS.Step (System K E) Event)} {st : LTS.Step (System K E) Event}
    (h : Run params tr st.pre) (ht : st.pre.Turn st.label st.post) (hrec : Recovers tr st) :
    (st.post.sup.backoffMs = params.minBackoffMs ∧
      scheduled (st.pre.emitted st.label) = [params.minBackoffMs]) ↔
      ∀ tick ∈ tr, ¬ RaisesDelay tick := by
  obtain ⟨id, symbols, hlab, -⟩ := hrec
  obtain ⟨hb, hmin⟩ := backoffMs_eq_min_iff hf hle h
  obtain ⟨-, -, hkeep⟩ := ht.backoffMs_le hf h.reach hb
  have hquiet : ¬ RaisesDelay st := by
    intro hr
    rw [RaisesDelay, hlab] at hr
    cases hr.1
  have hsame : st.post.sup.backoffMs = st.pre.sup.backoffMs := hkeep.2 hquiet
  have hsched : scheduled (st.pre.emitted st.label) = [st.post.sup.backoffMs] := by
    rw [hlab] at ht ⊢
    exact ht.scheduled_eq h.reach
  rw [hsched, hsame, ← hmin]
  exact ⟨And.left, fun hm => ⟨hm, congrArg (fun ms => [ms]) hm⟩⟩

end System

/-- The factor is passed on as at least one. -/
theorem KindSupervisorParams.one_le_factor (params : KindSupervisorParams K E)
    (resolvedBackoff : BackoffConfig) : 1 ≤ (params.withBackoff resolvedBackoff).factor := by
  change 1 ≤ (if _ ≤ _ then _ else _)
  split
  · exact UInt32.le_refl _
  · next h => exact (UInt32.le_total _ _).resolve_left h

/-- A run resets the delay at every recovery exactly when no tick before a recovery raised it. -/
theorem resets_run_iff {params : KindSupervisorParams K E} {resolvedBackoff : BackoffConfig}
    (hle : resolvedBackoff.minBackoffMs ≤ resolvedBackoff.maxBackoffMs)
    {tr : List (LTS.Step (System K E) Event)} {y : System K E}
    (h : Run (params.withBackoff resolvedBackoff) tr y) :
    System.Resets (params.withBackoff resolvedBackoff) tr ↔
      ∀ tr₁ st tr₂, tr = tr₁ ++ st :: tr₂ → System.Recovers tr₁ st →
        ∀ tick ∈ tr₁, ¬ System.RaisesDelay tick := by
  have hf := params.one_le_factor resolvedBackoff
  have hsteps : ∀ tr₁ st tr₂, tr = tr₁ ++ st :: tr₂ →
      Run (params.withBackoff resolvedBackoff) tr₁ st.pre ∧ st.pre.Turn st.label st.post := by
    intro tr₁ st tr₂ heq
    obtain ⟨hp, ht⟩ := LTS.Path.step_of_split (heq ▸ h.path)
    exact ⟨⟨h.nonempty, hp⟩, ht⟩
  constructor
  · intro hresets tr₁ st tr₂ heq hrec
    obtain ⟨hpre, ht⟩ := hsteps tr₁ st tr₂ heq
    exact (System.Recovers.reset_iff hf hle hpre ht hrec).1 (hresets.recovery tr₁ st tr₂ heq hrec)
  · intro hcond
    have hbounds : ∀ st ∈ tr, st.pre.sup.backoffMs ≤ st.post.sup.backoffMs ∧
        st.post.Bounded (params.withBackoff resolvedBackoff) := by
      intro st hst
      obtain ⟨tr₁, tr₂, heq⟩ := List.append_of_mem hst
      obtain ⟨hpre, ht⟩ := hsteps tr₁ st tr₂ heq
      obtain ⟨hmono, hb, -⟩ :=
        ht.backoffMs_le hf hpre.reach (System.backoffMs_eq_min_iff hf hle hpre).1
      exact ⟨hmono, hb⟩
    refine ⟨(System.backoffMs_eq_min_iff hf hle ⟨h.nonempty, .nil⟩).1,
      fun st hst => (hbounds st hst).2, fun st hst => .inl (hbounds st hst).1,
      fun tr₁ st tr₂ heq hrec => ?_⟩
    obtain ⟨hpre, ht⟩ := hsteps tr₁ st tr₂ heq
    exact (System.Recovers.reset_iff hf hle hpre ht hrec).2 (hcond tr₁ st tr₂ heq hrec)

/-- One provider, whose backoff starts at half a second. -/
def soloChain : KindSupervisorParams Unit Unit := quoteChain (some ⟨0⟩) 500 30000 2 [[⟨"X"⟩]]

/-- The session ends, a tick restarts the provider, and the start takes longer than one more tick. -/
def soloEvents : List Event :=
  [.providerStartSucceeded 0 [⟨"X"⟩], .sessionEnded 0 [⟨"X"⟩], .backoffTick, .backoffTick,
    .providerStartSucceeded 0 [⟨"X"⟩]]

set_option maxRecDepth 4000 in
theorem solo_run : Run (soloChain.withBackoff .default)
    ((System.start (soloChain.withBackoff .default)).replay soloEvents)
    ((System.start (soloChain.withBackoff .default)).after soloEvents) :=
  Run.replay (by decide) soloEvents (by decide)

set_option maxRecDepth 4000 in
/-- The recovered provider finds the delay doubled, and the next tick is scheduled after it. -/
theorem solo_run_keeps_delay : Run (soloChain.withBackoff .default)
    ((System.start (soloChain.withBackoff .default)).replay soloEvents)
    ((System.start (soloChain.withBackoff .default)).after soloEvents) ∧
    ¬ System.Resets (soloChain.withBackoff .default)
      ((System.start (soloChain.withBackoff .default)).replay soloEvents) := by
  refine ⟨solo_run, fun h => ?_⟩
  have hrec : System.Recovers
      ((System.start (soloChain.withBackoff .default)).replay (soloEvents.take 4))
      ⟨(System.start (soloChain.withBackoff .default)).after (soloEvents.take 4),
        .providerStartSucceeded 0 [⟨"X"⟩],
        (System.start (soloChain.withBackoff .default)).after soloEvents⟩ := by
    refine ⟨0, [⟨"X"⟩], rfl, (System.start (soloChain.withBackoff .default)).replay
      (soloEvents.take 2), _, [_], rfl, ⟨rfl, by decide⟩, ?_⟩
    intro st hst
    rw [List.mem_singleton.1 hst]
    exact id
  obtain ⟨hmin, -⟩ := h.recovery _ _ [] rfl hrec
  exact absurd hmin (by decide)

/-- The exact condition along that run. -/
theorem resets_solo_run_iff :
    System.Resets (soloChain.withBackoff .default)
      ((System.start (soloChain.withBackoff .default)).replay soloEvents) ↔
      ∀ tr₁ st tr₂, (System.start (soloChain.withBackoff .default)).replay soloEvents =
        tr₁ ++ st :: tr₂ → System.Recovers tr₁ st → ∀ tick ∈ tr₁, ¬ System.RaisesDelay tick :=
  resets_run_iff (by decide) solo_run

end Borsa
