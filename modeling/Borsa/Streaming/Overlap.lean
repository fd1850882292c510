import Borsa.Streaming.Reach

/-!
# Overlapping sessions

Two active providers that share a symbol both feed the caller. An activation preempts the active
sessions of lower priority that it overlaps (`preempted_succeeded`), but only those, and only at that
moment: a provider of lower priority that is still connecting then and comes up later is not looked
at again. `overlapsPreempted_run_iff` says that this is the only way an overlap escapes.
-/

namespace Borsa

open Supervisor

variable {K E : Type}

namespace Supervisor

/-- Two active providers share a symbol; `i` is the preferred one. -/
def Overlap (self : Supervisor K E) (i j : Nat) : Prop :=
  i < j ∧ ∃ a b sym, self.providers[i]? = some (.active a) ∧ self.providers[j]? = some (.active b) ∧
    sym ∈ a ∧ sym ∈ b

theorem mem_computeLowerPriorityOverlaps {s : Supervisor K E} {id j : Nat}
    {symbols : List Symbol} :
    j ∈ s.computeLowerPriorityOverlaps id symbols ↔
      id < j ∧ ∃ b sym, s.providers[j]? = some (.active b) ∧ sym ∈ symbols ∧ sym ∈ b := by
  unfold computeLowerPriorityOverlaps
  rw [List.mem_filter, List.mem_range'_1]
  constructor
  · intro ⟨⟨hlo, hhi⟩, hact⟩
    refine ⟨hlo, ?_⟩
    split at hact
    · next b hb =>
      simp only [List.any_eq_true, beq_iff_eq] at hact
      obtain ⟨sym, hsym, _, ht, rfl⟩ := hact
      exact ⟨b, _, hb, ht, hsym⟩
    · cases hact
  · intro ⟨hlt, b, sym, hb, hs, hsb⟩
    obtain ⟨hj, -⟩ := List.getElem?_eq_some_iff.1 hb
    refine ⟨⟨hlt, by omega⟩, ?_⟩
    rw [hb]
    simp only [List.any_eq_true, beq_iff_eq]
    exact ⟨sym, hsb, sym, hs, rfl⟩

/-- An activation preempts exactly the active sessions of lower priority that it overlaps. -/
theorem preempted_succeeded (s : Supervisor K E) (id : Nat) (symbols : List Symbol) :
    preempted (s.notifyOk ++ (s.preemptions id symbols ++
      [.scheduleBackoffTick (s.activated id symbols).backoffMs])) =
      (s.activated id symbols).computeLowerPriorityOverlaps id symbols := by
  have hn : preempted s.notifyOk = [] := by
    unfold notifyOk
    cases s.phase.initialTx? <;> rfl
  have hp : preempted (s.preemptions id symbols) =
      (s.activated id symbols).computeLowerPriorityOverlaps id symbols := by
    unfold preemptions
    dsimp only
    split
    · next hnil => rw [List.isEmpty_iff.1 hnil]; rfl
    · exact List.append_nil _
  rw [preempted_append, preempted_append, hn, hp, List.nil_append]
  exact List.append_nil _

/-- Starts preempt nothing. -/
theorem Starts.preempted_eq {self next : Supervisor K E} {reqs : List (Action K E)}
    (h : Starts self reqs next) : preempted reqs = [] := by
  induction h with
  | nil => rfl
  | cons _ _ ih => exact ih

end Supervisor

namespace System

/-- The turn preempts the session of `j`. -/
def Preempts (j : Nat) (st : LTS.Step (System K E) Event) : Prop :=
  j ∈ preempted (st.pre.emitted st.label)

/-- Provider `j` becomes active. -/
def Activates (j : Nat) (st : LTS.Step (System K E) Event) : Prop :=
  ∃ symbols, st.label = .providerStartSucceeded j symbols

/-- Of every two overlapping sessions the one of lower priority has been preempted since it became
active. -/
def OverlapsPreempted (tr : List (LTS.Step (System K E) Event)) (y : System K E) : Prop :=
  ∀ i j, y.sup.Overlap i j → LTS.Since (Preempts j) (Activates j) tr

/-- A provider that becomes active overlaps no active provider of higher priority. -/
def ActivatesClear (st : LTS.Step (System K E) Event) : Prop :=
  ∀ j symbols, st.label = .providerStartSucceeded j symbols →
    ∀ i a, i < j → st.pre.sup.providers[i]? = some (.active a) → ∀ sym ∈ a, sym ∉ symbols

/-! ## One turn -/

/-- An active provider was active before with the same symbols, or has just become active. -/
theorem Turn.active_cases {params : KindSupervisorParams K E} {y y' : System K E} {e : Event}
    (h : y.Reach params) (ht : y.Turn e y') {k : Nat} {a : List Symbol}
    (hk : y'.sup.providers[k]? = some (.active a)) :
    e = .providerStartSucceeded k a ∨
      (y.sup.providers[k]? = some (.active a) ∧ ¬ Activates k ⟨y, e, y'⟩) := by
  have hm := (h.turn ht).agrees.session_mem hk
  rw [ht.next] at hm
  have hm : (k, a) ∈ y.sessionsAfter e := hm
  have old : (k, a) ∈ y.sessions → y.sup.providers[k]? = some (.active a) ∧
      ¬ Activates k ⟨y, e, y'⟩ := by
    intro hs
    have hact := h.agrees.active hs
    refine ⟨hact, ?_⟩
    intro ⟨symbols, hlab⟩
    have hlab : e = .providerStartSucceeded k symbols := hlab
    have hen := ht.enabled
    rw [hlab] at hen
    rw [h.agrees.connecting hen] at hact
    cases hact
  cases e with
  | providerStartSucceeded id symbols =>
    rcases List.mem_append.1 hm with hs | hs
    · exact .inr (old hs)
    · cases List.mem_singleton.1 hs
      exact .inl rfl
  | sessionEnded id symbols => exact .inr (old (List.mem_of_mem_erase hm))
  | providerStartFailed | backoffTick | downstreamClosed | shutdown => exact .inr (old hm)

/-- What a turn preempts. -/
theorem Turn.preempts_iff {params : KindSupervisorParams K E} {y y' : System K E} {id : Nat}
    {symbols : List Symbol} (h : y.Reach params)
    (ht : y.Turn (.providerStartSucceeded id symbols) y') {j : Nat} :
    Preempts j ⟨y, .providerStartSucceeded id symbols, y'⟩ ↔
      id < j ∧ ∃ b sym, y'.sup.providers[j]? = some (.active b) ∧ sym ∈ symbols ∧ sym ∈ b := by
  obtain ⟨t, acts, reqs, hc⟩ := ht.cases h.providers_ne_nil
  have hpre : preempted (y.emitted (.providerStartSucceeded id symbols)) = preempted acts := by
    rw [hc.emitted, preempted_append, hc.starts.preempted_eq, List.append_nil]
  have hact : ∀ b, y'.sup.providers[j]? = some (.active b) ↔
      t.providers[j]? = some (.active b) := by
    intro b
    rcases hc.starts.getElem?_cases j with heq | ⟨hw, syms, hs, -⟩
    · have heq : y'.sup.providers[j]? = t.providers[j]? := heq
      rw [heq]
    · have hs : y'.sup.providers[j]? = some (.connecting syms) := hs
      obtain ⟨p, hp, hi⟩ := hw.idle
      rw [hs, hp]
      refine iff_of_false nofun fun hb => ?_
      cases hb
      cases hi
  unfold Preempts
  rw [hpre]
  simp only [hact]
  cases hc.transition
  rw [preempted_succeeded, mem_computeLowerPriorityOverlaps]

/-- If a provider that becomes active overlaps no active provider of higher priority, a turn keeps
every overlap preempted. -/
theorem Turn.overlapsPreempted {params : KindSupervisorParams K E} {y y' : System K E} {e : Event}
    {tr : List (LTS.Step (System K E) Event)} (h : y.Reach params) (ht : y.Turn e y')
    (hclear : ActivatesClear ⟨y, e, y'⟩) (hpre : OverlapsPreempted tr y) :
    OverlapsPreempted (tr ++ [⟨y, e, y'⟩]) y' := by
  intro i j ⟨hij, a, b, sym, hi, hj, ha, hb⟩
  rw [LTS.since_snoc]
  rcases ht.active_cases h hj with rfl | ⟨hj', hnot⟩
  · -- `j` has just become active, so by the condition nothing above it overlaps it
    rcases ht.active_cases h hi with heq | ⟨hi', -⟩
    · cases heq
      exact absurd hij (Nat.lt_irrefl i)
    · exact absurd hb (hclear j b rfl i a hij hi' sym ha)
  · rcases ht.active_cases h hi with rfl | ⟨hi', -⟩
    · exact .inl ((ht.preempts_iff h).2 ⟨hij, b, sym, hj, ha, hb⟩)
    · exact .inr ⟨hpre i j ⟨hij, a, b, sym, hi', hj', ha, hb⟩, hnot⟩

/-- A provider that becomes active and overlaps an active provider of higher priority is not
preempted. -/
theorem Turn.not_overlapsPreempted {params : KindSupervisorParams K E} {y y' : System K E}
    {e : Event} {tr : List (LTS.Step (System K E) Event)} (h : y.Reach params) (ht : y.Turn e y')
    (hclear : ¬ ActivatesClear ⟨y, e, y'⟩) : ¬ OverlapsPreempted (tr ++ [⟨y, e, y'⟩]) y' := by
  intro hpre
  refine hclear fun j symbols hlab i a hij hi sym ha hs => ?_
  have hlab : e = .providerStartSucceeded j symbols := hlab
  subst hlab
  have h' := h.turn ht
  have hmem : ∀ x, x ∈ y.sessions ∨ x = (j, symbols) → x ∈ y'.sessions := by
    intro x hx
    rw [ht.next]
    exact List.mem_append.2 (hx.imp_right List.mem_singleton.2)
  have hj' := h'.agrees.active (hmem (j, symbols) (.inr rfl))
  have hi' := h'.agrees.active (hmem (i, a) (.inl (h.agrees.session_mem hi)))
  rcases LTS.since_snoc.1 (hpre i j ⟨hij, a, symbols, sym, hi', hj', ha, hs⟩) with hp | ⟨-, hna⟩
  · exact absurd ((ht.preempts_iff h).1 hp).1 (Nat.lt_irrefl j)
  · exact hna ⟨symbols, rfl⟩

end System

/-! ## Runs -/

/-- Along a run whose activations are all clear every overlap has been preempted. -/
theorem Run.overlapsPreempted {params : KindSupervisorParams K E}
    {tr : List (LTS.Step (System K E) Event)} {y : System K E} (h : Run params tr y)
    (hclear : ∀ st ∈ tr, System.ActivatesClear st) : System.OverlapsPreempted tr y := by
  obtain ⟨hn, hpath⟩ := h
  induction hpath with
  | nil =>
    intro i j ⟨_, a, _, _, hi, _⟩
    exact absurd hi ((System.start_reach hn).not_active (System.start_phase hn) i a)
  | @snoc tr y y' e hp ht ih =>
    have hr : y.Reach params := Run.reach ⟨hn, hp⟩
    have hpre := ih fun st hst => hclear st (List.mem_append_left _ hst)
    exact ht.overlapsPreempted hr (hclear _ (List.mem_append_right _ (List.mem_singleton_self _)))
      hpre

/-- In every state of a run all overlaps have been preempted exactly when every activation of the run
is clear. -/
theorem overlapsPreempted_run_iff {params : KindSupervisorParams K E}
    {tr : List (LTS.Step (System K E) Event)} {y : System K E} (h : Run params tr y) :
    (∀ tr₁ tr₂ y₁, tr = tr₁ ++ tr₂ → Run params tr₁ y₁ → System.OverlapsPreempted tr₁ y₁) ↔
      ∀ st ∈ tr, System.ActivatesClear st := by
  constructor
  · intro hall st hst
    obtain ⟨ht, tr₁, tr₂, heq, hp⟩ := h.path.step_mem hst
    have hr : st.pre.Reach params := Run.reach ⟨h.nonempty, hp⟩
    by_contra hclear
    refine ht.not_overlapsPreempted hr hclear (hall (tr₁ ++ [st]) tr₂ st.post ?_ ⟨h.nonempty, ?_⟩)
    · rw [heq, List.append_assoc]
      rfl
    · exact hp.snoc ht
  · intro hclear tr₁ tr₂ y₁ heq h₁
    exact h₁.overlapsPreempted fun st hst => hclear st (heq ▸ List.mem_append_left _ hst)

/-- Two providers for the same symbol. -/
def pairChain : KindSupervisorParams Unit Unit :=
  quoteChain (some ⟨0⟩) 500 30000 2 [[⟨"X"⟩], [⟨"X"⟩]]

/-- The preferred provider fails, so the other one is started; a tick restarts the preferred one,
which comes up first. -/
def pairEvents : List Event :=
  [.providerStartFailed 0 (.other "refused"), .backoffTick, .providerStartSucceeded 0 [⟨"X"⟩],
    .providerStartSucceeded 1 [⟨"X"⟩]]

set_option maxRecDepth 4000 in
theorem pair_run : Run pairChain ((System.start pairChain).replay pairEvents)
    ((System.start pairChain).after pairEvents) :=
  Run.replay (by decide) pairEvents (by decide)

set_option maxRecDepth 4000 in
/-- Both providers end up active for the symbol, and no session was preempted. -/
theorem pair_run_overlaps : Run pairChain ((System.start pairChain).replay pairEvents)
    ((System.start pairChain).after pairEvents) ∧
    ¬ System.OverlapsPreempted ((System.start pairChain).replay pairEvents)
      ((System.start pairChain).after pairEvents) := by
  refine ⟨pair_run, fun h => ?_⟩
  have hover : ((System.start pairChain).after pairEvents).sup.Overlap 0 1 :=
    ⟨Nat.one_pos, [⟨"X"⟩], [⟨"X"⟩], ⟨"X"⟩, by decide, by decide, by decide, by decide⟩
  have hnone : ∀ st ∈ (System.start pairChain).replay pairEvents,
      preempted (st.pre.emitted st.label) = [] := by decide
  obtain ⟨pre, st, post, heq, hp, -⟩ := h 0 1 hover
  have hst : st ∈ (System.start pairChain).replay pairEvents := by
    rw [heq]
    exact List.mem_append_right _ (List.mem_cons_self ..)
  rw [System.Preempts, hnone st hst] at hp
  cases hp

/-- The exact condition along that run. -/
theorem overlapsPreempted_pair_run_iff :
    (∀ tr₁ tr₂ y₁, (System.start pairChain).replay pairEvents = tr₁ ++ tr₂ →
      Run pairChain tr₁ y₁ → System.OverlapsPreempted tr₁ y₁) ↔
      ∀ st ∈ (System.start pairChain).replay pairEvents, System.ActivatesClear st :=
  overlapsPreempted_run_iff pair_run

end Borsa
