import Borsa.Streaming.Filter
import Borsa.Streaming.Reach

/-!
# What a session is started for, and what it lets through

A start is requested for the symbols its provider should take over at the time, and those are what the
supervisor records, what overlaps are computed from and what is reset when the session ends. The
session itself is spawned with all the symbols its provider may ever stream
(`KindSupervisorParams.sessionParams`). The two agree exactly when the start was for all of them
(`confined_iff`), so not while a provider of higher priority covers one of them.
-/

namespace Borsa

open Supervisor

variable {K E : Type} {params : KindSupervisorParams K E} {id : Nat} {allow : Finset Symbol}
  {symbols : List Symbol}

/-- Whatever the provider sends, and whatever its earlier sessions left in the gate, a session of `id`
for `symbols` sends nothing of another symbol and gives no other symbol an entry in the gate. -/
def Confined (params : KindSupervisorParams K E) (enforceMonotonic : Bool) (id : Nat)
    (symbols : List Symbol) : Prop :=
  ∀ tr f, LTS.Path (Feed.Step (params.sessionParams enforceMonotonic id)) .initial tr f →
    ∀ st ∈ tr, ∀ clock s, st.pre = .during clock symbols s →
      (st.post.forwarded = st.pre.forwarded ∨
        ∃ u, st.post.forwarded = st.pre.forwarded ++ [u] ∧ u.streamSymbol ∈ symbols) ∧
      (enforceMonotonic = true → ∀ key, st.pre.gate.state key = none →
        st.post.gate.state key ≠ none → key ∈ symbols.map Symbol.asStr)

/-! ## One step of a session -/

/-- The gate only ever gets an entry for the key it is asked about. -/
theorem MonotonicGate.eq_of_allow {self : MonotonicGate} {now : Nat} {k key : String} {ts : Int}
    (hpre : self.state key = none) (hpost : (self.allow now k ts).2.state key ≠ none) :
    key = k := by
  by_contra hne
  have hins : ∀ e, (self.insert k e).state key = self.state key := fun e => if_neg hne
  refine hpost ?_
  unfold allow
  split
  · split
    · exact (hins _).trans hpre
    · exact (hins _).trans hpre
  · exact (hins _).trans hpre

/-- A step sends and enters into the gate allowed symbols only. -/
theorem Feed.Effect.allowed {enforceMonotonic : Bool} {f f' : Feed} {seen : Option FeedEvent}
    (h : Feed.Effect allow enforceMonotonic f f' seen) :
    (f'.forwarded = f.forwarded ∨
      ∃ u, f'.forwarded = f.forwarded ++ [u] ∧ u.streamSymbol ∈ allow) ∧
    (enforceMonotonic = true → ∀ key, f.gate.state key = none → f'.gate.state key ≠ none →
      ∃ sym ∈ allow, key = sym.asStr) := by
  cases h with
  | unseen hg hf | dropped _ hg hf =>
    exact ⟨.inl hf, fun _ key hpre hpost => absurd (hg ▸ hpre) hpost⟩
  | @offered u now listened hs hg hf =>
    constructor
    · split at hf
      · exact .inr ⟨u, hf, hs⟩
      · exact .inl hf
    · intro he key hpre hpost
      rw [hg he] at hpost
      exact ⟨_, hs, MonotonicGate.eq_of_allow hpre hpost⟩
  | @closed syms hg hf =>
    refine ⟨.inl hf, fun he key hpre hpost => absurd ?_ hpost⟩
    rw [hg he]
    unfold MonotonicGate.resetSymbols
    dsimp only
    rw [hpre, ite_self]
  | @reaped now hg hf =>
    refine ⟨.inl hf, fun _ key hpre hpost => absurd ?_ hpost⟩
    rw [hg]
    unfold MonotonicGate.reap
    dsimp only
    rw [hpre]
    rfl

/-- The provider's first session, which takes one update. -/
theorem exists_forwards (ha : params.providerAllow[id]? = some allow) (enforceMonotonic : Bool)
    (symbols : List Symbol) {sym : Symbol} (hs : sym ∈ allow) :
    ∃ tr f, LTS.Path (Feed.Step (params.sessionParams enforceMonotonic id)) .initial tr f ∧
      ∃ st ∈ tr, ∃ clock s, st.pre = .during clock symbols s ∧
        st.post.forwarded = st.pre.forwarded ++ [⟨sym, 0⟩] := by
  let quiet : StopWatch := ⟨false, false, false⟩
  let s : SessionState := ⟨quiet, false, [⟨sym, 0⟩], false, false, .new, []⟩
  let sp := params.sessionParams enforceMonotonic id symbols
  have hstart := LTS.Path.single
    (@Feed.Step.start (params.sessionParams enforceMonotonic id) 0 .new [] symbols quiet false)
  have harrive := hstart.snoc (@Feed.Step.change _ 0 symbols _ [⟨sym, 0⟩] quiet false false false)
  have htake := harrive.snoc (@Feed.Step.iterate _ 0 symbols s 0
    (receive sp 0 { s with queue := [] } ⟨sym, 0⟩) le_rfl rfl)
  refine ⟨_, _, htake, _, List.mem_append_right _ (List.mem_singleton_self _), 0, s, rfl, ?_⟩
  have heff : Feed.Effect allow enforceMonotonic (.during 0 symbols s)
      (Feed.settle sp 0 (receive sp 0 { s with queue := [] } ⟨sym, 0⟩))
      (some (.received ⟨sym, 0⟩ 0 true)) := Feed.effect_receive ha (Nat.le_refl 0) s ⟨sym, 0⟩ []
  cases heff with
  | dropped hs' => exact absurd hs hs'
  | offered _ _ hf => exact hf.trans (if_pos ⟨rfl, fun _ => rfl⟩)

/-- A session is confined to the symbols it was started for exactly when those are all that its
provider may stream. -/
theorem confined_iff (ha : params.providerAllow[id]? = some allow) (enforceMonotonic : Bool)
    (symbols : List Symbol) :
    Confined params enforceMonotonic id symbols ↔ ∀ sym ∈ allow, sym ∈ symbols := by
  constructor
  · intro hconf sym hs
    obtain ⟨tr, f, hpath, st, hst, clock, s, hpre, hf⟩ :=
      exists_forwards ha enforceMonotonic symbols hs
    rcases (hconf tr f hpath st hst clock s hpre).1 with hsame | ⟨u, hu, hmem⟩
    · rw [hf, List.append_right_eq_self] at hsame
      cases hsame
    · rw [hf] at hu
      cases List.singleton_inj.1 (List.append_cancel_left hu)
      exact hmem
  · intro hsub tr f hpath st hst clock s hpre
    obtain ⟨hstep, -⟩ := hpath.step_mem hst
    obtain ⟨hf, hg⟩ := (hstep.effect ha).allowed
    constructor
    · rcases hf with hf | ⟨u, hf, hu⟩
      · exact .inl hf
      · exact .inr ⟨u, hf, hsub _ hu⟩
    · intro he key hnone hsome
      obtain ⟨sym, hsym, rfl⟩ := hg he key hnone hsome
      exact List.mem_map_of_mem (hsub sym hsym)

/-! ## Runs -/

namespace System

/-- Every session is confined to the symbols it was started for. -/
def SessionsConfined (params : KindSupervisorParams K E) (enforceMonotonic : Bool)
    (y : System K E) : Prop :=
  ∀ id symbols, (id, symbols) ∈ y.sessions → Confined params enforceMonotonic id symbols

/-- A start that succeeds was for all the symbols its provider may stream. -/
def StartsWhole (params : KindSupervisorParams K E) (st : LTS.Step (System K E) Event) : Prop :=
  ∀ id symbols allow, st.label = .providerStartSucceeded id symbols →
    params.providerAllow[id]? = some allow → ∀ sym ∈ allow, sym ∈ symbols

/-- A provider with a start in flight may stream some symbols. -/
theorem Reach.exists_allow {y : System K E} (h : y.Reach params)
    (hm : (id, symbols) ∈ y.starts) : ∃ allow, params.providerAllow[id]? = some allow := by
  obtain ⟨-, hne, has⟩ := h.assigned id _ symbols (h.agrees.connecting hm) rfl
  obtain ⟨sym, hsym⟩ := List.exists_mem_of_ne_nil _ hne
  obtain ⟨allow, -, ha, -⟩ := has sym hsym
  exact ⟨allow, ha⟩

/-- A turn keeps all sessions confined exactly when it spawns none for fewer symbols than its
provider may stream. -/
theorem Turn.sessionsConfined_iff {enforceMonotonic : Bool} {y y' : System K E} {e : Event}
    (hr : y.Reach params) (hy : y.SessionsConfined params enforceMonotonic) (ht : y.Turn e y') :
    y'.SessionsConfined params enforceMonotonic ↔ StartsWhole params ⟨y, e, y'⟩ := by
  have hsess : y'.sessions = y.sessionsAfter e := by rw [ht.next]; rfl
  unfold SessionsConfined
  rw [hsess]
  cases e with
  | providerStartSucceeded id symbols =>
    obtain ⟨allow, ha⟩ := hr.exists_allow ht.enabled
    constructor
    · rintro hall _ _ allow' ⟨⟩ ha' sym hs
      have hconf := hall id symbols (List.mem_append_right _ (List.mem_singleton_self _))
      exact (confined_iff ha' enforceMonotonic symbols).1 hconf sym hs
    · intro hwhole id' symbols' hm
      rcases List.mem_append.1 hm with hm | hm
      · exact hy id' symbols' hm
      · cases List.mem_singleton.1 hm
        exact (confined_iff ha enforceMonotonic symbols).2 (hwhole id symbols allow rfl ha)
  | sessionEnded id symbols =>
    exact iff_of_true (fun id' symbols' hm => hy id' symbols' (List.mem_of_mem_erase hm)) nofun
  | providerStartFailed | backoffTick | downstreamClosed | shutdown => exact iff_of_true hy nofun

end System

/-- All sessions of a run are confined to the symbols they were started for exactly when every start
that succeeds along it was for all the symbols its provider may stream. -/
theorem sessionsConfined_run_iff (enforceMonotonic : Bool)
    {tr : List (LTS.Step (System K E) Event)} {y : System K E} (h : Run params tr y) :
    (∀ st ∈ tr, st.post.SessionsConfined params enforceMonotonic) ↔
      ∀ st ∈ tr, System.StartsWhole params st := by
  have hstart : (System.start params).SessionsConfined params enforceMonotonic := nofun
  have hiff := h.path.forall_iff_of_inv
    (I := fun y => y.Reach params ∧ y.SessionsConfined params enforceMonotonic)
    (C := System.StartsWhole params) ⟨System.start_reach h.nonempty, hstart⟩
    fun y e y' hy ht => (and_iff_right (hy.1.turn ht)).trans (ht.sessionsConfined_iff hy.1 hy.2)
  rw [← hiff]
  refine forall₂_congr fun st hst => ?_
  obtain ⟨-, -, hpost⟩ := h.path.inv_step (System.start_reach h.nonempty)
    (fun _ _ _ hr ht => hr.turn ht) hst
  exact (and_iff_right hpost).symm

/-- Two providers, the second of which may also stream the symbol of the first. -/
def sharedChain : KindSupervisorParams Unit Unit :=
  quoteChain none 500 30000 2 [[⟨"X"⟩], [⟨"X"⟩, ⟨"Y"⟩]]

/-- Both are started at once, the second one only for the symbol the first does not cover. -/
def sharedEvents : List Event :=
  [.providerStartSucceeded 0 [⟨"X"⟩], .providerStartSucceeded 1 [⟨"Y"⟩]]

set_option maxRecDepth 4000 in
theorem shared_run : Run sharedChain ((System.start sharedChain).replay sharedEvents)
    ((System.start sharedChain).after sharedEvents) :=
  Run.replay (by decide) sharedEvents (by decide)

set_option maxRecDepth 4000 in
/-- The session of the second provider is not confined to the symbol it was started for. -/
theorem shared_run_not_confined :
    Run sharedChain ((System.start sharedChain).replay sharedEvents)
      ((System.start sharedChain).after sharedEvents) ∧
    ¬ ((System.start sharedChain).after sharedEvents).SessionsConfined sharedChain true := by
  refine ⟨shared_run, fun h => ?_⟩
  have hconf := h 1 [⟨"Y"⟩] (by decide)
  have ha : sharedChain.providerAllow[1]? = some [⟨"X"⟩, ⟨"Y"⟩].toFinset := rfl
  exact absurd ((confined_iff ha true [⟨"Y"⟩]).1 hconf ⟨"X"⟩ (by decide)) (by decide)

/-- The exact condition along that run. -/
theorem sessionsConfined_shared_run_iff :
    (∀ st ∈ (System.start sharedChain).replay sharedEvents,
      st.post.SessionsConfined sharedChain true) ↔
      ∀ st ∈ (System.start sharedChain).replay sharedEvents, System.StartsWhole sharedChain st :=
  sessionsConfined_run_iff true shared_run

end Borsa
