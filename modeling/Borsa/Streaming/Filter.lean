import Borsa.Lib.Watermark
import Borsa.Streaming.Controller
import Borsa.Streaming.Session

/-!
# What the sessions of a provider let through

The controller keeps one monotonic gate a provider and hands it to every session it spawns for it
(`sessionParams`). A `Feed` is such a provider over its whole life: one session after the other, with
updates and stop signals arriving, the gate's reaper running at any time, and a clock that does not
go back. What the sessions send downstream is what a watermark per symbol lets through
(`forwarded_eq_passed`).
-/

namespace Borsa

variable {K E : Type}

/-- What the controller spawns a session of provider `id` with. -/
def KindSupervisorParams.sessionParams (params : KindSupervisorParams K E)
    (enforceMonotonic : Bool) (id : Nat) (symbols : List Symbol) : SessionParams where
  sessionIndex := id
  allowed := params.providerAllow[id]?
  enforceMonotonic
  sessionSymbols := symbols

/-- What `SessionManager::spawn` does to the gate past its loop. -/
def SessionParams.gateAfter (params : SessionParams) (gate : MonotonicGate)
    (resetMonotonic : Bool) : MonotonicGate :=
  if params.enforceMonotonic && resetMonotonic then gate.resetSymbols params.sessionSymbols
  else gate

/-- A provider of a running stream, between its sessions or during one. The clock is the last instant
anything happened. -/
inductive Feed where
  | between (clock : Nat) (gate : MonotonicGate) (forwarded : List Update)
  | during (clock : Nat) (symbols : List Symbol) (state : SessionState)

/-- What can happen to a provider. -/
inductive FeedLabel where
  /-- A start for these symbols succeeded. -/
  | start (symbols : List Symbol) (stopWatch : StopWatch) (downstreamClosed : Bool)
  /-- The provider sends updates, or what the session watches changes. -/
  | change (arrived : List Update) (stopWatch : StopWatch)
      (sessionStop upstreamClosed downstreamClosed : Bool)
  /-- The session's loop takes an iteration. -/
  | iterate (now : Nat)
  /-- The reaper runs. -/
  | reap (now : Nat)

/-- What is seen of a provider from outside. -/
inductive FeedEvent where
  /-- The session took the update from the provider; `listened` if anybody receives downstream. -/
  | received (u : Update) (now : Nat) (listened : Bool)
  /-- A session for these symbols ended because the upstream closed. -/
  | upstreamClosed (symbols : List Symbol)
  | reaped (now : Nat)

namespace Feed

/-- The gate of the provider. -/
def gate : Feed → MonotonicGate
  | between _ gate _ => gate
  | during _ _ state => state.gate

/-- What its sessions have sent downstream, oldest first. -/
def forwarded : Feed → List Update
  | between _ _ forwarded => forwarded
  | during _ _ state => state.forwarded

def clock : Feed → Nat
  | between clock _ _ => clock
  | during clock _ _ => clock

/-- A provider that has not been started. -/
def initial : Feed := between 0 .new []

/-- Where an iteration of the loop leaves the provider. -/
def settle (params : SessionParams) (now : Nat) : SessionLoop → Feed
  | .running state => during now params.sessionSymbols state
  | .exited state _ resetMonotonic =>
    between now (params.gateAfter state.gate resetMonotonic) state.forwarded

/-- One step of a provider whose sessions are spawned with `spawn`. -/
inductive Step (spawn : List Symbol → SessionParams) : Feed → FeedLabel → Feed → Prop
  | start {clock gate forwarded symbols stopWatch downstreamClosed} :
      Step spawn (between clock gate forwarded) (.start symbols stopWatch downstreamClosed)
        (during clock symbols
          { stopWatch, sessionStop := false, queue := [], upstreamClosed := false,
            downstreamClosed, gate, forwarded })
  | change {clock symbols state arrived stopWatch sessionStop upstreamClosed downstreamClosed} :
      Step spawn (during clock symbols state)
        (.change arrived stopWatch sessionStop upstreamClosed downstreamClosed)
        (during clock symbols
          { state with
            stopWatch, sessionStop, queue := state.queue ++ arrived, upstreamClosed,
            downstreamClosed })
  | iterate {clock symbols state now loop} (hc : clock ≤ now)
      (h : Borsa.iterate (spawn symbols) now state = some loop) :
      Step spawn (during clock symbols state) (.iterate now) (settle (spawn symbols) now loop)
  | reapBetween {clock gate forwarded now} (hc : clock ≤ now) :
      Step spawn (between clock gate forwarded) (.reap now)
        (between now (gate.reap now) forwarded)
  | reapDuring {clock symbols state now} (hc : clock ≤ now) :
      Step spawn (during clock symbols state) (.reap now)
        (during now symbols { state with gate := state.gate.reap now })

/-- What is seen of a step. -/
def observed (st : LTS.Step Feed FeedLabel) : Option FeedEvent :=
  match st.pre, st.label with
  | during _ symbols state, .iterate now =>
    -- The branches of the `select!` before the updates are silent.
    if state.stopWatch.changedReady || state.stopWatch.value || state.sessionStop then none
    else
      match state.queue with
      | u :: _ => some (.received u now !state.downstreamClosed)
      | [] => if state.upstreamClosed then some (.upstreamClosed symbols) else none
  | _, .reap now => some (.reaped now)
  | _, _ => none

/-- What has been seen along a run, newest event first. -/
def history (tr : List (LTS.Step Feed FeedLabel)) : List FeedEvent :=
  (tr.filterMap observed).reverse

end Feed

/-! ## What should pass -/

/-- What an event means for the watermarks of the allowed symbols. -/
def FeedEvent.watermark? (allow : Finset Symbol) : FeedEvent → Option (Watermark.Event Symbol Int)
  | .received u now _ =>
    if u.streamSymbol ∈ allow then some (.offer u.streamSymbol u.streamTs now) else none
  | .upstreamClosed symbols => some (.clear symbols)
  | .reaped now => some (.expire now)

namespace Feed

/-- The events of the watermarks. -/
def watermarks (allow : Finset Symbol) (events : List FeedEvent) :
    List (Watermark.Event Symbol Int) :=
  events.filterMap (FeedEvent.watermark? allow)

/-- The update is of an allowed symbol and, where time stamps are enforced, not older than any update
of its symbol accepted since the symbol was last cleared. -/
def Passes (allow : Finset Symbol) (enforceMonotonic : Bool) (earlier : List FeedEvent)
    (u : Update) : Prop :=
  u.streamSymbol ∈ allow ∧
    (enforceMonotonic = true →
      Watermark.Passes MonotonicGate.entryTtl u.streamSymbol u.streamTs (watermarks allow earlier))

instance (allow : Finset Symbol) (enforceMonotonic : Bool) (earlier : List FeedEvent)
    (u : Update) : Decidable (Passes allow enforceMonotonic earlier u) :=
  inferInstanceAs (Decidable (_ ∧ _))

/-- The updates that pass while somebody receives them, oldest first. -/
def passed (allow : Finset Symbol) (enforceMonotonic : Bool) : List FeedEvent → List Update
  | [] => []
  | .received u _ listened :: earlier =>
    if listened = true ∧ Passes allow enforceMonotonic earlier u then
      passed allow enforceMonotonic earlier ++ [u]
    else passed allow enforceMonotonic earlier
  | .upstreamClosed _ :: earlier | .reaped _ :: earlier => passed allow enforceMonotonic earlier

end Feed

/-! ## The gate is a watermark per symbol -/

namespace MonotonicGate

variable {self : MonotonicGate} {key : String} {ts : Int} {now : Nat}

/-- An update not older than the entry of its key is let through and becomes the entry. -/
theorem allow_of_le (h : ∀ e ∈ self.state key, e.prevTs ≤ ts) :
    self.allow now key ts = (true, self.insert key ⟨ts, now⟩) := by
  unfold allow
  cases he : self.state key with
  | none => rfl
  | some e =>
    have hle : e.prevTs ≤ ts := h e he
    have hmax : (if e.prevTs < ts then ts else e.prevTs) = ts := by
      split <;> omega
    dsimp only
    rw [if_neg (Int.not_lt.2 hle), hmax]

/-- An older update is refused, and its key has been seen. -/
theorem allow_of_lt {e : GateEntry} (he : self.state key = some e) (hlt : ts < e.prevTs) :
    self.allow now key ts = (false, self.insert key ⟨e.prevTs, now⟩) := by
  unfold allow
  rw [he]
  exact if_pos hlt

/-- The entry of a symbol, as a watermark's. -/
def entry (self : MonotonicGate) (sym : Symbol) : Option (Int × Nat) :=
  (self.state sym.asStr).map fun e => (e.prevTs, e.lastSeen)

theorem asStr_inj {a b : Symbol} : a.asStr = b.asStr ↔ a = b := by
  cases a
  cases b
  simp

theorem entry_insert (self : MonotonicGate) (sym k : Symbol) (e : GateEntry) :
    (self.insert k.asStr e).entry sym =
      if k = sym then some (e.prevTs, e.lastSeen) else self.entry sym := by
  unfold entry insert
  dsimp only
  by_cases hk : k = sym
  · rw [if_pos hk, if_pos (congrArg Symbol.asStr hk.symm)]
    rfl
  · rw [if_neg hk, if_neg fun h => hk (asStr_inj.1 h).symm]

theorem entry_resetSymbols (self : MonotonicGate) (symbols : List Symbol) (sym : Symbol) :
    (self.resetSymbols symbols).entry sym = if sym ∈ symbols then none else self.entry sym := by
  have hmem : sym.asStr ∈ symbols.map Symbol.asStr ↔ sym ∈ symbols := by
    simp [asStr_inj]
  unfold entry resetSymbols
  dsimp only
  by_cases hs : sym ∈ symbols
  · rw [if_pos hs, if_pos (hmem.2 hs)]
    rfl
  · rw [if_neg hs, if_neg (mt hmem.1 hs)]

theorem entry_reap (self : MonotonicGate) (now : Nat) (sym : Symbol) :
    (self.reap now).entry sym =
      (self.entry sym).filter fun e => decide (now - e.2 ≤ entryTtl) := by
  unfold entry reap
  dsimp only
  generalize self.state sym.asStr = e?
  cases e? with
  | none => rfl
  | some e =>
    simp only [Option.filter_some, Option.map_some]
    split <;> rfl

end MonotonicGate

/-! ## One step -/

namespace Feed

/-- What a step does to the gate and downstream, by what is seen of it. -/
inductive Effect (allow : Finset Symbol) (enforceMonotonic : Bool) (f f' : Feed) :
    Option FeedEvent → Prop
  | unseen (hg : f'.gate = f.gate) (hf : f'.forwarded = f.forwarded) (hc : f.clock ≤ f'.clock) :
      Effect allow enforceMonotonic f f' none
  /-- The update is not of an allowed symbol. -/
  | dropped {u : Update} {now : Nat} {listened : Bool} (hs : u.streamSymbol ∉ allow)
      (hg : f'.gate = f.gate) (hf : f'.forwarded = f.forwarded) (hc : f.clock ≤ now)
      (hnow : f'.clock = now) :
      Effect allow enforceMonotonic f f' (some (.received u now listened))
  /-- The update goes through the gate, if there is one. -/
  | offered {u : Update} {now : Nat} {listened : Bool} (hs : u.streamSymbol ∈ allow)
      (hg : enforceMonotonic = true →
        f'.gate = (f.gate.allow now u.streamSymbol.asStr u.streamTs).2)
      (hf : f'.forwarded =
        if listened = true ∧ (enforceMonotonic = true →
          (f.gate.allow now u.streamSymbol.asStr u.streamTs).1 = true) then f.forwarded ++ [u]
        else f.forwarded)
      (hc : f.clock ≤ now) (hnow : f'.clock = now) :
      Effect allow enforceMonotonic f f' (some (.received u now listened))
  | closed {symbols : List Symbol}
      (hg : enforceMonotonic = true → f'.gate = f.gate.resetSymbols symbols)
      (hf : f'.forwarded = f.forwarded) (hc : f.clock ≤ f'.clock) :
      Effect allow enforceMonotonic f f' (some (.upstreamClosed symbols))
  | reaped {now : Nat} (hg : f'.gate = f.gate.reap now) (hf : f'.forwarded = f.forwarded)
      (hc : f.clock ≤ now) (hnow : f'.clock = now) :
      Effect allow enforceMonotonic f f' (some (.reaped now))

variable {params : KindSupervisorParams K E} {id : Nat} {allow : Finset Symbol}
  {enforceMonotonic : Bool}

/-- What taking an update does. -/
theorem effect_receive (ha : params.providerAllow[id]? = some allow) {clock now : Nat}
    (hc : clock ≤ now) {symbols : List Symbol} (s : SessionState) (u : Update)
    (rest : List Update) :
    Effect allow enforceMonotonic (during clock symbols s)
      (settle (params.sessionParams enforceMonotonic id symbols) now
        (receive (params.sessionParams enforceMonotonic id symbols) now { s with queue := rest } u))
      (some (.received u now !s.downstreamClosed)) := by
  have hallowed : (params.sessionParams enforceMonotonic id symbols).allowed = some allow := ha
  unfold receive
  rw [hallowed]
  by_cases hs : u.streamSymbol ∈ allow
  · have hin : ((some allow).map fun allowset =>
        decide (u.streamSymbol ∉ allowset)).getD false = false := by simp [hs]
    rw [if_neg (by rw [hin]; exact Bool.false_ne_true)]
    cases enforceMonotonic with
    | false =>
      cases s.downstreamClosed <;>
        refine .offered hs nofun ?_ hc ?_ <;>
        simp [KindSupervisorParams.sessionParams, settle, forwarded, Feed.clock]
    | true =>
      cases hal : (s.gate.allow now u.streamSymbol.asStr u.streamTs).1 <;>
        cases s.downstreamClosed <;>
        refine .offered hs (fun _ => ?_) ?_ hc ?_ <;>
        simp [KindSupervisorParams.sessionParams, settle, hal, forwarded, gate, Feed.clock,
          SessionParams.gateAfter]
  · have hout : ((some allow).map fun allowset =>
        decide (u.streamSymbol ∉ allowset)).getD false = true := by simp [hs]
    rw [if_pos hout]
    exact .dropped hs rfl rfl hc rfl

/-- An iteration before whose branch for the updates another is ready leaves the gate and sends
nothing. -/
theorem iterate_of_stopped {params : SessionParams} {now : Nat} {s : SessionState}
    {loop : SessionLoop}
    (hs : (s.stopWatch.changedReady || s.stopWatch.value || s.sessionStop) = true)
    (h : Borsa.iterate params now s = some loop) :
    (∃ s', loop = .running s' ∧ s'.gate = s.gate ∧ s'.forwarded = s.forwarded) ∨
      ∃ s', loop = .exited s' true false ∧ s'.gate = s.gate ∧ s'.forwarded = s.forwarded := by
  unfold Borsa.iterate at h
  split at h
  · dsimp only at h
    split at h
    · cases h
      exact .inr ⟨_, rfl, rfl, rfl⟩
    · cases h
      exact .inl ⟨_, rfl, rfl, rfl⟩
  · split at h
    · cases h
      exact .inr ⟨_, rfl, rfl, rfl⟩
    · split at h
      · cases h
        exact .inr ⟨_, rfl, rfl, rfl⟩
      · next h1 h2 h3 => simp [h1, h2, h3] at hs

/-- Any other iteration takes an update or finds the upstream closed. -/
theorem iterate_of_not_stopped {params : SessionParams} {now : Nat} {s : SessionState}
    (hs : (s.stopWatch.changedReady || s.stopWatch.value || s.sessionStop) = false) :
    Borsa.iterate params now s =
      match s.queue with
      | u :: rest => some (receive params now { s with queue := rest } u)
      | [] => if s.upstreamClosed then some (.exited s true true) else none := by
  simp only [Bool.or_eq_false_iff] at hs
  obtain ⟨⟨h1, h2⟩, h3⟩ := hs
  unfold Borsa.iterate
  rw [h1, h2, h3]
  rfl

/-- Every step has the effect that goes with what is seen of it. -/
theorem Step.effect (ha : params.providerAllow[id]? = some allow) {f f' : Feed} {label : FeedLabel}
    (h : Step (params.sessionParams enforceMonotonic id) f label f') :
    Effect allow enforceMonotonic f f' (observed ⟨f, label, f'⟩) := by
  cases h with
  | start | change => exact .unseen rfl rfl le_rfl
  | reapBetween hc | reapDuring hc => exact .reaped rfl rfl hc rfl
  | @iterate clock symbols s now loop hc h =>
    unfold observed
    dsimp only
    split
    · next hs =>
      rcases iterate_of_stopped hs h with ⟨s', rfl, hg, hf⟩ | ⟨s', rfl, hg, hf⟩
      · exact .unseen hg hf hc
      · refine .unseen ?_ hf hc
        simp only [settle, gate, SessionParams.gateAfter, Bool.and_false]
        exact hg
    · next hs =>
      rw [iterate_of_not_stopped (Bool.eq_false_iff.2 hs)] at h
      split
      · next u rest hq =>
        rw [hq] at h
        cases h
        exact effect_receive ha hc s u rest
      · next hq =>
        rw [hq] at h
        dsimp only at h
        split at h
        · next hup =>
          cases h
          rw [if_pos hup]
          refine .closed (fun he => ?_) rfl hc
          simp only [settle, gate, SessionParams.gateAfter, KindSupervisorParams.sessionParams, he]
          rfl
        · cases h

/-! ## Runs -/

/-- The provider is as what has been seen of it says. -/
structure Sound (allow : Finset Symbol) (enforceMonotonic : Bool) (events : List FeedEvent)
    (f : Feed) : Prop where
  forwarded : f.forwarded = passed allow enforceMonotonic events
  timed : Watermark.Timed f.clock (watermarks allow events)
  entries : enforceMonotonic = true → ∀ sym,
    Watermark.Tracks MonotonicGate.entryTtl sym (watermarks allow events) (f.gate.entry sym)

namespace Sound

variable {events : List FeedEvent} {f f' : Feed}

/-- An update passes exactly when the gate lets it through. -/
theorem passes_iff (h : Sound allow enforceMonotonic events f) {u : Update}
    (hs : u.streamSymbol ∈ allow) (now : Nat) :
    Passes allow enforceMonotonic events u ↔ (enforceMonotonic = true →
      (f.gate.allow now u.streamSymbol.asStr u.streamTs).1 = true) := by
  rw [Passes, and_iff_right hs]
  refine imp_congr_right fun he => ?_
  rw [(h.entries he u.streamSymbol).passes_iff]
  unfold MonotonicGate.entry MonotonicGate.allow
  cases f.gate.state u.streamSymbol.asStr with
  | none => simp
  | some e =>
    simp only [Option.map_some, Option.mem_some_iff, forall_eq']
    split <;> simp <;> omega

/-- Offering an update keeps the watermarks. -/
theorem entries_offer (h : Sound allow enforceMonotonic events f) (u : Update) {now : Nat}
    (hc : f.clock ≤ now) (he : enforceMonotonic = true) (sym : Symbol) :
    Watermark.Tracks MonotonicGate.entryTtl sym
      (.offer u.streamSymbol u.streamTs now :: watermarks allow events)
      ((f.gate.allow now u.streamSymbol.asStr u.streamTs).2.entry sym) := by
  have htr := h.entries he
  by_cases hp : Watermark.Passes MonotonicGate.entryTtl u.streamSymbol u.streamTs
      (watermarks allow events)
  · have hle : ∀ e ∈ f.gate.state u.streamSymbol.asStr, e.prevTs ≤ u.streamTs := by
      intro e hmem
      refine (htr u.streamSymbol).passes_iff.1 hp (e.prevTs, e.lastSeen) ?_
      rw [MonotonicGate.entry, hmem]
      rfl
    rw [MonotonicGate.allow_of_le hle, MonotonicGate.entry_insert]
    by_cases hk : u.streamSymbol = sym
    · rw [if_pos hk, ← hk]
      exact .offer_passed h.timed hc hp
    · rw [if_neg hk]
      exact (htr sym).offer_of_ne hk _ _
  · have hlt : ∃ e, f.gate.state u.streamSymbol.asStr = some e ∧ u.streamTs < e.prevTs := by
      by_contra hno
      refine hp ((htr u.streamSymbol).passes_iff.2 fun x hx => ?_)
      obtain ⟨e, hmem, rfl⟩ := Option.map_eq_some_iff.1 hx
      exact Int.not_lt.1 fun hlt => hno ⟨e, hmem, hlt⟩
    obtain ⟨e, hmem, hlt⟩ := hlt
    rw [MonotonicGate.allow_of_lt hmem hlt, MonotonicGate.entry_insert]
    by_cases hk : u.streamSymbol = sym
    · have hent := htr u.streamSymbol
      rw [MonotonicGate.entry, hmem] at hent
      rw [if_pos hk, ← hk]
      exact hent.offer_refused h.timed hc hp
    · rw [if_neg hk]
      exact (htr sym).offer_of_ne hk _ _

/-- Every step keeps the provider as what has been seen says. -/
theorem step (h : Sound allow enforceMonotonic events f) {seen : Option FeedEvent}
    (he : Effect allow enforceMonotonic f f' seen) :
    Sound allow enforceMonotonic (seen.toList ++ events) f' := by
  cases he with
  | unseen hg hf hc =>
    exact ⟨hf.trans h.forwarded, h.timed.mono hc, by rw [hg]; exact h.entries⟩
  | @dropped u now listened hs hg hf hc hnow =>
    have hw : watermarks allow (.received u now listened :: events) = watermarks allow events := by
      simp [watermarks, FeedEvent.watermark?, hs]
    have hp : passed allow enforceMonotonic (.received u now listened :: events) =
        passed allow enforceMonotonic events := if_neg fun hx => hs hx.2.1
    refine ⟨(hf.trans h.forwarded).trans hp.symm, ?_, ?_⟩
    · rw [Option.toList_some, List.singleton_append, hw]
      exact h.timed.mono (hc.trans hnow.ge)
    · rw [Option.toList_some, List.singleton_append, hw, hg]
      exact h.entries
  | @offered u now listened hs hg hf hc hnow =>
    have hw : watermarks allow (.received u now listened :: events) =
        .offer u.streamSymbol u.streamTs now :: watermarks allow events := by
      simp [watermarks, FeedEvent.watermark?, hs]
    refine ⟨?_, ?_, ?_⟩
    · rw [hf, h.forwarded]
      simp only [← h.passes_iff hs now]
      rfl
    · rw [Option.toList_some, List.singleton_append, hw]
      refine ⟨?_, h.timed.mono hc⟩
      rintro _ ⟨⟩
      exact hnow.ge
    · intro he sym
      rw [Option.toList_some, List.singleton_append, hw, hg he]
      exact h.entries_offer u hc he sym
  | closed hg hf hc =>
    refine ⟨hf.trans h.forwarded, ⟨nofun, h.timed.mono hc⟩, fun he sym => ?_⟩
    rw [hg he, MonotonicGate.entry_resetSymbols]
    exact (h.entries he sym).clear _
  | reaped hg hf hc hnow =>
    refine ⟨hf.trans h.forwarded, ⟨?_, h.timed.mono hc⟩, fun he sym => ?_⟩
    · rintro _ ⟨⟩
      exact hnow.ge
    · rw [hg, MonotonicGate.entry_reap]
      exact (h.entries he sym).expire _

end Sound

theorem history_snoc (tr : List (LTS.Step Feed FeedLabel)) (st : LTS.Step Feed FeedLabel) :
    history (tr ++ [st]) = (observed st).toList ++ history tr := by
  unfold history
  rw [List.filterMap_append, List.reverse_append, List.filterMap_cons, List.filterMap_nil]
  cases observed st <;> rfl

/-- Along every run the provider is as what has been seen says. -/
theorem sound (ha : params.providerAllow[id]? = some allow)
    {tr : List (LTS.Step Feed FeedLabel)} {f : Feed}
    (h : LTS.Path (Step (params.sessionParams enforceMonotonic id)) initial tr f) :
    Sound allow enforceMonotonic (history tr) f := by
  induction h with
  | nil => exact ⟨rfl, trivial, fun _ _ => .nil⟩
  | snoc _ hstep ih =>
    rw [history_snoc]
    exact ih.step (hstep.effect ha)

/-- The event clears the symbol's entry: a session covering the symbol ended because the upstream
closed, or the reaper ran more than the time to live after every update of the symbol. -/
def Clears (sym : Symbol) (earlier : List FeedEvent) : FeedEvent → Prop
  | .upstreamClosed symbols => sym ∈ symbols
  | .reaped now => ∀ u t listened, .received u t listened ∈ earlier → u.streamSymbol = sym →
      MonotonicGate.entryTtl < now - t
  | .received .. => False

/-- The offers of a symbol are the updates received of it, if it is allowed. -/
theorem mem_offers_watermarks {sym : Symbol} {t : Nat} {events : List FeedEvent} :
    t ∈ Watermark.offers sym (watermarks allow events) ↔ sym ∈ allow ∧
      ∃ u listened, .received u t listened ∈ events ∧ u.streamSymbol = sym := by
  rw [Watermark.mem_offers]
  constructor
  · rintro ⟨value, h⟩
    obtain ⟨e, he, hw⟩ := List.mem_filterMap.1 h
    cases e with
    | received u now listened =>
      rw [FeedEvent.watermark?] at hw
      split at hw
      · next hs =>
        cases hw
        exact ⟨hs, u, listened, he, rfl⟩
      · cases hw
    | upstreamClosed | reaped => cases hw
  · rintro ⟨hs, u, listened, hm, rfl⟩
    exact ⟨u.streamTs, List.mem_filterMap.2 ⟨_, hm, if_pos hs⟩⟩

/-- An entry is only removed by an event that clears its symbol. -/
theorem Sound.clears {events : List FeedEvent} {f f' : Feed}
    (h : Sound allow true events f) {seen : Option FeedEvent} (he : Effect allow true f f' seen)
    {sym : Symbol} (hpre : (f.gate.entry sym).isSome) (hpost : f'.gate.entry sym = none) :
    ∃ e, seen = some e ∧ Clears sym events e := by
  have same : f'.gate = f.gate → False := by
    intro hg
    rw [← hg, hpost] at hpre
    cases hpre
  cases he with
  | unseen hg | dropped _ hg => exact (same hg).elim
  | @offered u now listened hs hg hf hc hnow =>
    have htr := h.entries_offer u hc rfl sym
    rw [← hg rfl, hpost] at htr
    obtain ⟨x, hx⟩ := Option.isSome_iff_exists.1 hpre
    have hmem := ((h.entries rfl sym).greatest x hx).1
    have hnil := htr.absent rfl
    rw [Watermark.accepted] at hnil
    split at hnil
    · cases hnil
    · rw [hnil] at hmem
      cases hmem
  | @closed symbols hg =>
    rw [hg rfl, MonotonicGate.entry_resetSymbols] at hpost
    refine ⟨_, rfl, ?_⟩
    by_contra hs
    have hs : sym ∉ symbols := hs
    rw [if_neg hs] at hpost
    rw [hpost] at hpre
    cases hpre
  | @reaped now hg =>
    obtain ⟨x, hx⟩ := Option.isSome_iff_exists.1 hpre
    have htr := h.entries rfl sym
    rw [hg, MonotonicGate.entry_reap, hx, Option.filter_eq_none_iff] at hpost
    rw [hx] at htr
    have hlt : MonotonicGate.entryTtl < now - x.2 := by
      have hgt := hpost x rfl
      simp only [decide_eq_true_eq] at hgt
      omega
    have hallow := (mem_offers_watermarks.1 (htr.seen x rfl).1).1
    refine ⟨_, rfl, fun u t listened hm hu => ?_⟩
    exact htr.quiet_iff.2 hlt t (mem_offers_watermarks.2 ⟨hallow, u, listened, hm, hu⟩)

/-- After a session covering its symbol has ended because the upstream closed, the first update of an
allowed symbol passes. -/
theorem passes_of_reconnected {u : Update} {mid older : List FeedEvent} {symbols : List Symbol}
    (ha : u.streamSymbol ∈ allow) (hs : u.streamSymbol ∈ symbols)
    (hmid : ∀ v t listened, .received v t listened ∈ mid → v.streamSymbol ≠ u.streamSymbol) :
    Passes allow enforceMonotonic (mid ++ .upstreamClosed symbols :: older) u := by
  refine ⟨ha, fun _ => ?_⟩
  have hw : watermarks allow (mid ++ .upstreamClosed symbols :: older) =
      watermarks allow mid ++ .clear symbols :: watermarks allow older :=
    List.filterMap_append ..
  have hno : Watermark.offers u.streamSymbol (watermarks allow mid) = [] := by
    refine List.eq_nil_iff_forall_not_mem.2 fun t ht => ?_
    obtain ⟨-, v, b, hm, hv⟩ := mem_offers_watermarks.1 ht
    exact hmid v t b hm hv
  rw [hw, Watermark.Passes, Watermark.accepted_eq_nil_of_clear hs hno]
  simp

/-- The sessions of a provider send downstream exactly the updates that pass, in the order they took
them from the provider; an entry of the gate is only removed by an event that clears its symbol; and
after a reconnect of a session covering it the first update of an allowed symbol is sent. -/
theorem forwarded_eq_passed (ha : params.providerAllow[id]? = some allow)
    {tr : List (LTS.Step Feed FeedLabel)} {f : Feed}
    (h : LTS.Path (Step (params.sessionParams enforceMonotonic id)) initial tr f) :
    f.forwarded = passed allow enforceMonotonic (history tr) ∧
      (∀ earlier st later sym, tr = earlier ++ st :: later → enforceMonotonic = true →
        (st.pre.gate.entry sym).isSome → st.post.gate.entry sym = none →
        ∃ e, observed st = some e ∧ Clears sym (history earlier) e) ∧
      ∀ earlier st later u now mid symbols older, tr = earlier ++ st :: later →
        observed st = some (.received u now true) →
        history earlier = mid ++ .upstreamClosed symbols :: older →
        u.streamSymbol ∈ allow → u.streamSymbol ∈ symbols →
        (∀ v t listened, .received v t listened ∈ mid → v.streamSymbol ≠ u.streamSymbol) →
        st.post.forwarded = st.pre.forwarded ++ [u] := by
  refine ⟨(sound ha h).forwarded, ?_, ?_⟩
  · intro earlier st later sym htr he hpre hpost
    subst htr he
    obtain ⟨hpath, hstep⟩ := h.step_of_split
    exact (sound ha hpath).clears (hstep.effect ha) hpre hpost
  · intro earlier st later u now mid symbols older htr hobs hearlier hallow hsym hmid
    subst htr
    obtain ⟨hpath, hstep⟩ := h.step_of_split
    have hpre := sound ha hpath
    have hpost := hpre.step (hstep.effect ha)
    have hobs' : observed ⟨st.pre, st.label, st.post⟩ = some (.received u now true) := hobs
    have hpass : Passes allow enforceMonotonic (history earlier) u := by
      rw [hearlier]
      exact passes_of_reconnected hallow hsym hmid
    rw [hpost.forwarded, hpre.forwarded, hobs']
    exact if_pos ⟨rfl, hpass⟩

/-- A session for `X` takes an update and one that is older; the run is as the theorem says, and the
older one is not sent. -/
theorem clockSkew_forwarded_eq_passed : ∃ tr f,
    LTS.Path (Step ((quoteChain none 1 2 2 [[⟨"X"⟩]]).sessionParams true 0)) initial tr f ∧
      f.forwarded = passed [⟨"X"⟩].toFinset true (history tr) ∧ f.forwarded = [⟨⟨"X"⟩, 1000⟩] := by
  have hrun : ∃ tr f,
      LTS.Path (Step ((quoteChain none 1 2 2 [[⟨"X"⟩]]).sessionParams true 0)) initial tr f ∧
        f.forwarded = [⟨⟨"X"⟩, 1000⟩] := by
    refine ⟨_, _, (((LTS.Path.single (@Step.start _ 0 .new [] [⟨"X"⟩] ⟨false, false, false⟩
      false)).snoc (@Step.change _ 0 _ _ [⟨⟨"X"⟩, 1000⟩, ⟨⟨"X"⟩, 900⟩] ⟨false, false, false⟩ false
        false false)).snoc (@Step.iterate _ _ _ _ 5 _ (Nat.zero_le 5) rfl)).snoc
      (@Step.iterate _ _ _ _ 6 _ (Nat.le_succ 5) rfl), rfl⟩
  obtain ⟨tr, f, hpath, hf⟩ := hrun
  exact ⟨tr, f, hpath, (forwarded_eq_passed rfl hpath).1, hf⟩

end Feed

end Borsa
