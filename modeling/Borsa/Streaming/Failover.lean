import Borsa.Streaming.Reach

/-!
# Failover

Whether a turn leaves an idle provider with work. The scan after a turn visits a part of the
providers; `noneMissed_iff` says for which unvisited providers that is enough. An activation and a
tick are followed by a scan of all providers. After a failed start or an ended session the scan runs
from the cursor to the start index, or not at all, and `Relieved` is the exact condition on the state
before under which no provider is missed.
-/

namespace Borsa

open Supervisor

variable {K E : Type}

namespace Supervisor

/-- No provider is idle, can stream and has needed instruments. -/
def NoneMissed (self : Supervisor K E) : Prop := ∀ i, ¬ self.IdleWithWork i

/-- `has_idle_providers_with_work` decides it. -/
theorem noneMissed_iff_hasIdle {s : Supervisor K E} :
    s.NoneMissed ↔ s.hasIdleProvidersWithWork = false := by
  rw [Bool.eq_false_iff, Ne, hasIdleProvidersWithWork_iff, not_exists]
  exact Iff.rfl

/-- Every symbol of every unvisited idle provider is covered before it, or is assigned to a visited
idle provider before it. -/
def Settled (self : Supervisor K E) (visited : List Nat) : Prop :=
  ∀ j sym, j ∉ visited → self.IsIdle j → self.canProviderStream j = true → self.Assigned j sym →
    CoveredBefore self.providers j sym ∨
      ∃ i, i < j ∧ i ∈ visited ∧ self.IsIdle i ∧ self.canProviderStream i = true ∧
        self.Assigned i sym

/-- The condition for a turn that puts `id` into cooldown: once `id` is gone, every symbol of every
unvisited idle provider is covered before it by another provider, or is assigned to a visited idle
provider before it. -/
def Relieved (self : Supervisor K E) (id : Nat) (visited : List Nat) : Prop :=
  ∀ j sym, j ∉ visited → j ≠ id → self.IsIdle j → self.canProviderStream j = true →
    self.Assigned j sym →
    (∃ i p, i < j ∧ i ≠ id ∧ self.providers[i]? = some p ∧ p.Covers sym) ∨
      ∃ i, i < j ∧ i ≠ id ∧ i ∈ visited ∧ self.IsIdle i ∧ self.canProviderStream i = true ∧
        self.Assigned i sym

/-- The providers scanned after a start of `id` failed. -/
def visitedAfterFailure (self : Supervisor K E) (id : Nat) : List Nat :=
  let nextCursor := (id + 1) % self.providers.length
  if nextCursor = self.startIndex ∨ self.roundExhausted = true then []
  else Cyclic.arc self.providers.length nextCursor self.startIndex

/-- The providers scanned after a session ended. -/
def visitedAfterEnd (self : Supervisor K E) : List Nat :=
  if self.roundExhausted = true then []
  else Cyclic.arc self.providers.length self.scanCursor self.startIndex

/-! ## The scan and the providers it does not visit -/

/-- The starts of a scan leave no provider idle with work exactly when the providers it does not
visit are settled. -/
theorem noneMissed_iff {t next : Supervisor K E} {reqs : List (Action K E)}
    (hs : Starts t reqs next) (hdone : ∀ i ∈ t.visited, ¬ next.IdleWithWork i)
    (hframe : ∀ i, i ∉ t.visited → next.providers[i]? = t.providers[i]?) :
    next.NoneMissed ↔ t.Settled t.visited := by
  have hconf : next.config = t.config := by rw [hs.frame]; rfl
  refine ⟨fun h j sym hj hidle hcan has => ?_, fun h j hw => ?_⟩
  · -- `j` is untouched, so its symbol is covered in `next`: by an untouched provider or a start
    have hidle' : next.IsIdle j := by
      obtain ⟨p, hp, hi⟩ := hidle
      exact ⟨p, (hframe j hj).trans hp, hi⟩
    have hcov : CoveredBefore next.providers j sym := by
      by_contra hn
      exact h j ⟨hidle', (canProviderStream_congr hconf j).trans hcan,
        needed_ne_nil_iff.2 ⟨sym, (assigned_congr hconf).2 has, hn⟩⟩
    obtain ⟨i, p, hij, hp, hc⟩ := hcov
    rcases hs.getElem?_cases i with heq | ⟨hw, syms, hp', -, hassigned⟩
    · exact .inl ⟨i, p, hij, heq.symm.trans hp, hc⟩
    · right
      rw [hp'] at hp
      cases hp
      refine ⟨i, hij, ?_, hw.idle, hw.canStream, hassigned sym (ProviderState.covers_connecting.1 hc)⟩
      by_contra hi
      obtain ⟨q, hq, hqi⟩ := hw.idle
      rw [hframe i hi, hq] at hp'
      cases hp'
      cases hqi
  · have hwt := hs.idleWithWork hw
    have hj : j ∉ t.visited := fun hv => hdone j hv hw
    obtain ⟨sym, has, hn⟩ := needed_ne_nil_iff.1 hw.work
    have has := (assigned_congr hconf).1 has
    rcases h j sym hj hwt.idle hwt.canStream has with hc | ⟨i, hij, hi, hidle, hcan, hasi⟩
    · exact hn (hs.coveredBefore hc)
    · -- a visited provider was started, or had nothing left to take over
      rcases hs.getElem?_cases i with heq | ⟨-, syms, hp, -, -⟩
      · obtain ⟨p, hp, hpi⟩ := hidle
        refine hdone i hi ⟨⟨p, heq.trans hp, hpi⟩, (canProviderStream_congr hconf i).trans hcan,
          needed_ne_nil_iff.2 ⟨sym, (assigned_congr hconf).2 hasi, fun hc => hn ?_⟩⟩
        exact hc.mono (Nat.le_of_lt hij)
      · exact hn ((hs.coveredBefore_succ hidle hasi hp).mono hij)

/-- A scan of all providers misses none. -/
theorem settled_of_all {t : Supervisor K E} {visited : List Nat}
    (h : ∀ i, i < t.providers.length → i ∈ visited) : t.Settled visited := by
  intro j sym hj hidle
  obtain ⟨p, hp, -⟩ := hidle
  exact absurd (h j (List.getElem?_eq_some_iff.1 hp).1) hj

/-- Without a scan nothing changes, so a supervisor that misses no provider is settled. -/
theorem NoneMissed.settled {t : Supervisor K E} (h : t.NoneMissed) (visited : List Nat) :
    t.Settled visited := by
  intro j sym _ hidle hcan has
  left
  by_contra hn
  exact h j ⟨hidle, hcan, needed_ne_nil_iff.2 ⟨sym, has, hn⟩⟩

/-- After `id` has been put into cooldown, being settled is `Relieved` of the state before. -/
theorem settled_iff_relieved {s t : Supervisor K E} {id : Nat} (hconf : t.config = s.config)
    (hps : t.providers = s.providers.set id .inCooldown) (visited : List Nat) :
    t.Settled visited ↔ s.Relieved id visited := by
  have hidle : ∀ j, t.IsIdle j ↔ j ≠ id ∧ s.IsIdle j := by
    intro j
    unfold IsIdle
    rw [hps]
    constructor
    · intro ⟨p, hp, hi⟩
      rcases getElem?_set_eq_some.1 hp with ⟨-, -, rfl⟩ | ⟨hne, hp⟩
      · cases hi
      · exact ⟨hne.symm, p, hp, hi⟩
    · intro ⟨hne, p, hp, hi⟩
      exact ⟨p, getElem?_set_eq_some.2 (.inr ⟨hne.symm, hp⟩), hi⟩
  have hcov : ∀ j sym, CoveredBefore t.providers j sym ↔
      ∃ i p, i < j ∧ i ≠ id ∧ s.providers[i]? = some p ∧ p.Covers sym := by
    intro j sym
    rw [hps, coveredBefore_set]
    simp
  unfold Settled Relieved
  simp only [hidle, hcov, canProviderStream_congr hconf, assigned_congr hconf]
  refine forall₃_congr fun j sym _ => ⟨fun h hne hi hcan has => ?_, fun h hi hcan has => ?_⟩
  · rcases h ⟨hne, hi⟩ hcan has with hc | ⟨i, hij, hv, ⟨hni, hii⟩, hrest⟩
    · exact .inl hc
    · exact .inr ⟨i, hij, hni, hv, hii, hrest⟩
  · rcases h hi.1 hi.2 hcan has with hc | ⟨i, hij, hni, hv, hii, hrest⟩
    · exact .inl hc
    · exact .inr ⟨i, hij, hv, ⟨hni, hii⟩, hrest⟩

end Supervisor

/-! ## Turns and runs -/

/-- The condition on the state before a turn under which the scan that follows misses no provider:
only a failed start and an ended session need one. -/
def FailsOver (st : LTS.Step (System K E) Event) : Prop :=
  match st.label with
  | .providerStartFailed id _ =>
    st.pre.sup.Relieved id (st.pre.sup.visitedAfterFailure id)
  | .sessionEnded id _ => st.pre.sup.Relieved id st.pre.sup.visitedAfterEnd
  | _ => True

namespace System

/-- A scan from the start index around to it visits every provider. -/
theorem mem_visited_of_full {t : Supervisor K E} (hx : t.roundExhausted = false)
    (hc : t.scanCursor = t.startIndex) {i : Nat} (hi : i < t.providers.length) :
    i ∈ t.visited := by
  have hpos : 0 < t.providers.length := Nat.lt_of_le_of_lt (Nat.zero_le _) hi
  rw [visited, hx, if_neg Bool.false_ne_true, scanned, hc]
  exact (Cyclic.mem_arc_self (Nat.mod_lt _ hpos)).2 hi

/-- What follows a failed start, from the state before. -/
theorem visited_of_failed {params : KindSupervisorParams K E} {y : System K E}
    (h : y.Reach params) {id : Nat} {error : BorsaError} {t : Supervisor K E}
    {acts : List (Action K E)} (ht : y.sup.LiveTransition (.providerStartFailed id error) t acts) :
    t.visited = y.sup.visitedAfterFailure id ∧
      t.providers = y.sup.providers.set id .inCooldown := by
  have hlen := ht.length_eq
  have ⟨hps, hx, hc, hs⟩ : t.providers = y.sup.providers.set id .inCooldown ∧
      t.roundExhausted = (y.sup.advanceScanCursorForFailure id).roundExhausted ∧
      t.scanCursor = (id + 1) % y.sup.providers.length ∧ t.startIndex = y.sup.startIndex := by
    cases ht <;> exact ⟨rfl, rfl, rfl, rfl⟩
  refine ⟨?_, hps⟩
  unfold visited visitedAfterFailure scanned
  rw [hx, hlen, hc, hs, Nat.mod_mod, Nat.mod_eq_of_lt h.startIndex]
  simp only [advanceScanCursorForFailure, beq_iff_eq]
  by_cases hcur : (id + 1) % y.sup.providers.length = y.sup.startIndex <;> simp [hcur]

/-- What follows an ended session, from the state before. -/
theorem visited_of_ended {params : KindSupervisorParams K E} {y : System K E}
    (h : y.Reach params) {id : Nat} {symbols : List Symbol} {t : Supervisor K E}
    {acts : List (Action K E)} (ht : y.sup.LiveTransition (.sessionEnded id symbols) t acts) :
    t.visited = y.sup.visitedAfterEnd ∧ t.providers = y.sup.providers.set id .inCooldown := by
  have hlen := ht.length_eq
  cases ht with
  | ended =>
    refine ⟨?_, rfl⟩
    unfold visited visitedAfterEnd scanned
    rw [hlen, Nat.mod_eq_of_lt h.scanCursor, Nat.mod_eq_of_lt h.startIndex]

/-- A turn from a state that misses no provider misses none exactly when its condition holds. -/
theorem Turn.noneMissed_iff {params : KindSupervisorParams K E} {y y' : System K E} {e : Event}
    (h : y.Reach params) (ht : y.Turn e y') (hn : y.sup.NoneMissed) :
    y'.sup.NoneMissed ↔ FailsOver ⟨y, e, y'⟩ := by
  obtain ⟨t, acts, reqs, hc⟩ := ht.cases h.providers_ne_nil
  have hsettled : y'.sup.NoneMissed ↔ t.Settled t.visited := by
    rw [← Supervisor.noneMissed_iff hc.starts
      (fun i hi hw => hc.done i hi ((hc.idleWithWork_iff i).1 hw)) hc.frame]
    exact forall_congr' fun i => not_congr (hc.idleWithWork_iff i).symm
  have hconf := hc.transition.config_eq
  rw [hsettled]
  cases e with
  | providerStartSucceeded id symbols =>
    cases hc.transition
    exact iff_of_true (settled_of_all fun i hi => mem_visited_of_full rfl rfl hi) trivial
  | providerStartFailed id error =>
    obtain ⟨hv, hps⟩ := visited_of_failed h hc.transition
    rw [settled_iff_relieved hconf hps, hv]
    rfl
  | sessionEnded id symbols =>
    obtain ⟨hv, hps⟩ := visited_of_ended h hc.transition
    rw [settled_iff_relieved hconf hps, hv]
    rfl
  | backoffTick =>
    cases hc.transition with
    | tickTerminated hp _ _ hx =>
      rw [(h.starting _ _ hp).scanning rfl] at hx
      cases hx
    | tickQuiet | tickActive | tickInactive =>
      exact iff_of_true (settled_of_all fun i hi => mem_visited_of_full rfl rfl hi) trivial
  | downstreamClosed | shutdown =>
    have hps : t.providers = y.sup.providers := by cases hc.transition; rfl
    have hnt : t.NoneMissed := fun i hw => hn i ((idleWithWork_congr hconf hps).1 hw)
    exact iff_of_true (hnt.settled _) trivial

end System

/-- In every run no turn misses a provider exactly when each failed start and each ended session
meets its condition. -/
theorem noneMissed_run_iff {params : KindSupervisorParams K E}
    {tr : List (LTS.Step (System K E) Event)} {y : System K E} (h : Run params tr y) :
    (∀ st ∈ tr, st.post.sup.NoneMissed) ↔ ∀ st ∈ tr, FailsOver st := by
  have hstart : (System.start params).Reach params ∧ (System.start params).sup.NoneMissed :=
    ⟨System.start_reach h.nonempty, (System.kick_spec h.nonempty).2⟩
  have hiff := h.path.forall_iff_of_inv (I := fun y => y.Reach params ∧ y.sup.NoneMissed)
    hstart fun t a u hI ht => by
      have hu := hI.1.turn ht
      exact ⟨fun h => (ht.noneMissed_iff hI.1 hI.2).1 h.2,
        fun h => ⟨hu, (ht.noneMissed_iff hI.1 hI.2).2 h⟩⟩
  rw [← hiff]
  refine forall₂_congr fun st hst => ⟨fun hn => ⟨?_, hn⟩, And.right⟩
  exact (h.path.inv_step (System.start_reach h.nonempty) (fun _ _ _ hr ht => hr.turn ht) hst).2.2

/-- A first choice for two symbols, two fallbacks for the second symbol and one, last, for the
first. -/
def splitChain : KindSupervisorParams Unit Unit :=
  quoteChain (some ⟨0⟩) 500 30000 2 [[⟨"X"⟩, ⟨"Y"⟩], [⟨"Y"⟩], [⟨"Y"⟩], [⟨"X"⟩]]

/-- The fallbacks are started, one comes up and the other fails; meanwhile the first choice is tried
again and fails. -/
def splitEvents : List Event :=
  [.providerStartFailed 0 (.other "refused"), .providerStartSucceeded 1 [⟨"Y"⟩], .backoffTick,
    .providerStartFailed 3 (.other "refused"), .backoffTick,
    .providerStartFailed 0 (.other "refused")]

set_option maxRecDepth 4000 in
theorem split_run : Run splitChain ((System.start splitChain).replay splitEvents)
    ((System.start splitChain).after splitEvents) :=
  Run.replay (by decide) splitEvents (by decide)

set_option maxRecDepth 4000 in
/-- The scan after the last failure runs from the second provider to the third, the start index, and
the last provider stays idle although nothing covers its symbol. -/
theorem split_run_misses : Run splitChain ((System.start splitChain).replay splitEvents)
    ((System.start splitChain).after splitEvents) ∧
    ∃ st ∈ (System.start splitChain).replay splitEvents,
      st.pre.sup.phase.Live ∧ ¬ st.post.sup.NoneMissed := by
  have hlast : ∃ st ∈ (System.start splitChain).replay splitEvents,
      st.pre.sup.phase.Live ∧ st.post.sup.hasIdleProvidersWithWork = true := by decide
  obtain ⟨st, hst, hl, hidle⟩ := hlast
  refine ⟨split_run, st, hst, hl, fun h => ?_⟩
  rw [noneMissed_iff_hasIdle.1 h] at hidle
  cases hidle

/-- The exact condition along that run. -/
theorem noneMissed_split_run_iff :
    (∀ st ∈ (System.start splitChain).replay splitEvents, st.post.sup.NoneMissed) ↔
      ∀ st ∈ (System.start splitChain).replay splitEvents, FailsOver st :=
  noneMissed_run_iff split_run

end Borsa
