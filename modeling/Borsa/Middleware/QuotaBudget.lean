import Borsa.Lib.Path
import Borsa.Middleware.Quota

/-!
# The quota budget over whole runs

External and internal calls reach a quota layer one after another. The instants of the calls it has
allowed to the user are its charges, and both of its counters read them (`QuotaLayer.Accounts`), so
the budgets hold in every window and in every slice.
-/

namespace Borsa

open LTS

/-- A call that a quota layer has answered. -/
structure QuotaCall where
  time : ℕ
  origin : CallOrigin
  outcome : Except BorsaError Unit

/-- The call was the user's, and it was allowed. -/
def QuotaCall.charged (c : QuotaCall) : Bool := !c.origin.isInternal && c.outcome.isOk

/-- A quota layer, and the instant of the last call. -/
structure QuotaLayer where
  now : ℕ
  runtime : QuotaRuntime

namespace QuotaLayer

/-- The layer that `new` makes when its two readings of the clock are `t₀` and `s₀`. -/
def new (config : QuotaConfig) (t₀ s₀ : ℕ) : QuotaLayer := ⟨s₀, .new config t₀ s₀⟩

/-- One more call, not before the last one. -/
inductive Step : QuotaLayer → QuotaCall → QuotaLayer → Prop
  | call (q : QuotaLayer) (time : ℕ) (origin : CallOrigin) (h : q.now ≤ time) :
    Step q ⟨time, origin, (q.runtime.preCall origin time).2⟩
      ⟨time, (q.runtime.preCall origin time).1⟩

/-- The instants of the user's calls that were allowed. -/
def charges (tr : List (LTS.Step QuotaLayer QuotaCall)) : List ℕ :=
  (tr.filter fun st => st.label.charged).map fun st => st.label.time

theorem charges_concat (tr : List (LTS.Step QuotaLayer QuotaCall))
    (st : LTS.Step QuotaLayer QuotaCall) :
    charges (tr ++ [st]) = charges tr ++ if st.label.charged then [st.label.time] else [] := by
  rw [charges, charges, List.filter_append, List.map_append]
  cases h : st.label.charged <;> simp [h]

/-! ## Slices -/

end QuotaLayer

/-- The budget of a slice. -/
def QuotaConfig.perSlice (config : QuotaConfig) : ℕ := max 1 (config.limit.toNat / 24)

/-- The length of a slice. -/
def QuotaConfig.sliceLength (config : QuotaConfig) : ℕ :=
  max 1 (Duration.asMillis config.window / 24) * 1000000

section
variable {config : QuotaConfig}

theorem QuotaConfig.slice_fst (hs : config.strategy = .evenSpreadHourly) :
    config.slice.1 = config.perSlice := by
  rw [QuotaConfig.slice, hs]
  rfl

theorem QuotaConfig.slice_snd (hs : config.strategy = .evenSpreadHourly) :
    config.slice.2 =
      max 1 ((saturate (Duration.asMillis config.window)).toNat / 24) * 1000000 := by
  have hlt : max 1 ((saturate (Duration.asMillis config.window)).toNat / 24) < 2 ^ 64 := by
    have := (saturate (Duration.asMillis config.window)).toNat_lt
    omega
  rw [QuotaConfig.slice, hs]
  dsimp only
  rw [Duration.fromMillis, saturate_of_lt hlt]

theorem QuotaConfig.slice_pos (hs : config.strategy = .evenSpreadHourly) :
    0 < config.slice.2 := by
  rw [slice_snd hs]
  omega

/-- The slices are as long as they should be, unless both lengths exceed `u64` nanoseconds. -/
theorem QuotaConfig.slice_snd_cases (hs : config.strategy = .evenSpreadHourly) :
    config.slice.2 = config.sliceLength ∨
      2 ^ 64 ≤ config.slice.2 ∧ 2 ^ 64 ≤ config.sliceLength := by
  rw [slice_snd hs, sliceLength]
  rcases lt_or_ge (Duration.asMillis config.window) (2 ^ 64) with h | h
  · exact .inl (by rw [saturate_of_lt h])
  · rw [saturate_of_le h]
    omega

end

namespace QuotaLayer

/-! ## The invariant -/

/-- The layer counts under the configuration, and its intervals have begun. -/
structure Clocked (config : QuotaConfig) (q : QuotaLayer) : Prop where
  configured : q.runtime.Configured config
  windowStarted : q.runtime.lastReset ≤ q.now
  sliceStarted : q.runtime.sliceStart ≤ q.now

/-- Both counters read the charges, which respect both budgets. -/
structure Accounts (config : QuotaConfig) (t₀ s₀ : ℕ) (charges : List ℕ)
    (q : QuotaLayer) : Prop extends Clocked config q where
  window : Meter.Reads config.window t₀ charges q.runtime.windowMeter
  slice : config.strategy = .evenSpreadHourly →
    Meter.Reads config.slice.2 s₀ charges q.runtime.sliceMeter
  started : t₀ ≤ s₀ ∧ s₀ ≤ q.now
  charged : ∀ c ∈ charges, s₀ ≤ c ∧ c ≤ q.now
  windowBudget : Meter.WithinBudget config.window t₀ config.limit.toNat charges
  sliceBudget : config.strategy = .evenSpreadHourly →
    Meter.WithinBudget config.slice.2 s₀ config.perSlice charges

section
variable {config : QuotaConfig} {t₀ s₀ time : ℕ} {cs : List ℕ} {q q' : QuotaLayer}

theorem Clocked.new (h : t₀ ≤ s₀) : Clocked config (new config t₀ s₀) :=
  ⟨.new config t₀ s₀, h, le_rfl⟩

theorem Accounts.new (h : t₀ ≤ s₀) : Accounts config t₀ s₀ [] (new config t₀ s₀) where
  toClocked := .new h
  window := .new _ _
  slice _ := .new _ _
  started := ⟨h, le_rfl⟩
  charged := by simp
  windowBudget := .nil
  sliceBudget _ := .nil

theorem lastReset_reset_le (rt : QuotaRuntime) (h : rt.lastReset ≤ time) :
    (rt.reset time).lastReset ≤ time := by
  have hw : (rt.resetWindow time).lastReset ≤ time := by
    have := QuotaRuntime.boundaryOffset_le (time - rt.lastReset) rt.window
    rw [QuotaRuntime.resetWindow]
    split
    · dsimp only
      omega
    · exact h
  rw [QuotaRuntime.reset]
  split
  · exact (congrArg Meter.start QuotaRuntime.windowMeter_resetSlice).trans_le hw
  · exact hw

theorem sliceStart_reset_le (rt : QuotaRuntime) (h : rt.sliceStart ≤ time) :
    (rt.reset time).sliceStart ≤ time := by
  have hstart : (rt.resetWindow time).sliceStart = rt.sliceStart :=
    congrArg Meter.start QuotaRuntime.sliceMeter_resetWindow
  rw [QuotaRuntime.reset]
  split
  · have := QuotaRuntime.boundaryOffset_le (time - (rt.resetWindow time).sliceStart)
      (rt.resetWindow time).sliceDuration
    rw [QuotaRuntime.resetSlice]
    split
    · dsimp only
      omega
    · exact hstart.trans_le h
  · exact hstart.trans_le h

theorem Clocked.reset (h : Clocked config q) (hle : q.now ≤ time) :
    Clocked config ⟨time, q.runtime.reset time⟩ where
  configured := h.configured.reset
  windowStarted := lastReset_reset_le _ (h.windowStarted.trans hle)
  sliceStarted := sliceStart_reset_le _ (h.sliceStarted.trans hle)

theorem Clocked.consume (h : Clocked config q) : Clocked config ⟨q.now, q.runtime.consume⟩ :=
  ⟨h.configured.consume, h.windowStarted, h.sliceStarted⟩

/-- Time passes. -/
theorem Clocked.wait (h : Clocked config q) (hle : q.now ≤ time) :
    Clocked config ⟨time, q.runtime⟩ :=
  ⟨h.configured, h.windowStarted.trans hle, h.sliceStarted.trans hle⟩

theorem Clocked.step (h : Clocked config q) {a : QuotaCall} (hstep : Step q a q') :
    Clocked config q' := by
  cases hstep with
  | call time origin hle =>
    rw [QuotaRuntime.preCall]
    split
    · exact h.wait hle
    · rcases q.runtime.shouldAllowCall_cases time with ⟨-, -, heq⟩ | ⟨-, -, heq⟩ | ⟨-, heq⟩ <;>
        rw [heq]
      · exact (h.reset hle).consume
      · exact h.reset hle
      · exact h.reset hle

/-- The resets of a call keep the invariant and bring both counters to the instant of the call. -/
theorem Accounts.reset (hw : 0 < config.window) (h : Accounts config t₀ s₀ cs q)
    (hle : q.now ≤ time) (hend : time < t₀ + 2 ^ 64) :
    Accounts config t₀ s₀ cs ⟨time, q.runtime.reset time⟩ ∧
      (q.runtime.reset time).windowMeter.Holds config.window time ∧
      (config.strategy = .evenSpreadHourly →
        (q.runtime.reset time).sliceMeter.Holds config.slice.2 time) := by
  obtain ⟨k, hk⟩ := h.window.onGrid
  have hstart : t₀ ≤ q.runtime.lastReset := by
    have : q.runtime.lastReset = t₀ + k * config.window := hk
    omega
  have hwstart := h.windowStarted.trans hle
  have hsstart := h.sliceStarted.trans hle
  have hwm : (q.runtime.reset time).windowMeter =
      q.runtime.windowMeter.align config.window time := by
    rw [QuotaRuntime.windowMeter_reset (by omega), h.configured.window]
  have hsm (hs : config.strategy = .evenSpreadHourly) : (q.runtime.reset time).sliceMeter =
      q.runtime.sliceMeter.align config.slice.2 time := by
    obtain ⟨j, hj⟩ := (h.slice hs).onGrid
    have : q.runtime.sliceStart = s₀ + j * config.slice.2 := hj
    have := h.started
    rw [QuotaRuntime.sliceMeter_reset (h.configured.strategy.trans hs) (by omega),
      h.configured.sliceDuration]
  refine ⟨{
    toClocked := h.toClocked.reset hle
    window := hwm ▸ h.window.align hw
    slice := fun hs => hsm hs ▸ (h.slice hs).align (QuotaConfig.slice_pos hs)
    started := ⟨h.started.1, h.started.2.trans hle⟩
    charged := fun c hc => ⟨(h.charged c hc).1, (h.charged c hc).2.trans hle⟩
    windowBudget := h.windowBudget
    sliceBudget := h.sliceBudget }, ?_, ?_⟩
  · exact hwm ▸ Meter.Holds.align hw hwstart
  · exact fun hs => hsm hs ▸ Meter.Holds.align (QuotaConfig.slice_pos hs) hsstart

/-- The window's counter reads the charges of the window. -/
theorem Accounts.callsMadeInWindow_eq (hw : 0 < config.window) (h : Accounts config t₀ s₀ cs q)
    (hold : q.runtime.windowMeter.Holds config.window time) :
    q.runtime.callsMadeInWindow = Meter.atCell config.window t₀ time cs :=
  h.window.count_eq_atCell hw (fun c hc => h.started.1.trans (h.charged c hc).1) hold

/-- The slice's counter reads the charges of the slice. -/
theorem Accounts.callsMadeInSlice_eq (hs : config.strategy = .evenSpreadHourly)
    (h : Accounts config t₀ s₀ cs q)
    (hold : q.runtime.sliceMeter.Holds config.slice.2 time) :
    q.runtime.callsMadeInSlice = Meter.atCell config.slice.2 s₀ time cs :=
  (h.slice hs).count_eq_atCell (QuotaConfig.slice_pos hs) (fun c hc => (h.charged c hc).1) hold

/-! ## A step and a run -/

/-- An allowed call was within both budgets, and is charged. -/
theorem Accounts.consume (hw : 0 < config.window) (h : Accounts config t₀ s₀ cs q)
    (hwhold : q.runtime.windowMeter.Holds config.window q.now)
    (hshold : config.strategy = .evenSpreadHourly →
      q.runtime.sliceMeter.Holds config.slice.2 q.now)
    (hslice : ¬ q.runtime.SliceSpent) (hwindow : ¬ q.runtime.WindowSpent) :
    Accounts config t₀ s₀ (cs ++ [q.now]) ⟨q.now, q.runtime.consume⟩ where
  toClocked := h.toClocked.consume
  window := h.window.charge hwhold
  slice hs := by
    rw [QuotaRuntime.sliceMeter_consume (h.configured.strategy.trans hs)]
    exact (h.slice hs).charge (hshold hs)
  started := h.started
  charged := by
    intro c hc
    rcases List.mem_append.1 hc with hc | hc
    · exact h.charged c hc
    · rw [List.mem_singleton.1 hc]
      exact ⟨h.started.2, le_rfl⟩
  windowBudget := by
    have hroom : q.runtime.callsMadeInWindow < config.limit.toNat := by
      rw [← h.configured.limit]
      exact not_le.1 hwindow
    refine h.windowBudget.concat hw (h.started.1.trans h.started.2) ?_
    rwa [← h.window.count_eq_inCell hw hwhold]
  sliceBudget hs := by
    have hroom : q.runtime.callsMadeInSlice < config.perSlice := by
      rw [← QuotaConfig.slice_fst hs, ← h.configured.allowedPerSlice]
      exact not_le.1 fun hspent => hslice ⟨h.configured.strategy.trans hs, hspent⟩
    refine (h.sliceBudget hs).concat (QuotaConfig.slice_pos hs) h.started.2 ?_
    rwa [← (h.slice hs).count_eq_inCell (QuotaConfig.slice_pos hs) (hshold hs)]

/-- What an external call does: it is charged or rejected, and a rejection names the units left of a
window when that or the slice has none to spare. -/
theorem Accounts.shouldAllowCall (hw : 0 < config.window) (h : Accounts config t₀ s₀ cs q)
    (hle : q.now ≤ time) (hend : time < t₀ + 2 ^ 64) :
    ((q.runtime.shouldAllowCall time).2 = .ok () ∧
      Accounts config t₀ s₀ (cs ++ [time]) ⟨time, (q.runtime.shouldAllowCall time).1⟩ ∧
      (q.runtime.shouldAllowCall time).1.windowMeter.Holds config.window time ∧
      (config.strategy = .evenSpreadHourly →
        (q.runtime.shouldAllowCall time).1.sliceMeter.Holds config.slice.2 time)) ∨
    (∃ remaining resetInMs,
      (q.runtime.shouldAllowCall time).2 = .error (.quotaExceeded remaining resetInMs) ∧
      remaining.toNat = config.limit.toNat - Meter.atCell config.window t₀ time cs ∧
      (config.limit.toNat ≤ Meter.atCell config.window t₀ time cs ∨
        config.strategy = .evenSpreadHourly ∧
          config.perSlice ≤ Meter.atCell config.slice.2 s₀ time cs)) ∧
      Accounts config t₀ s₀ cs ⟨time, (q.runtime.shouldAllowCall time).1⟩ ∧
      (q.runtime.shouldAllowCall time).1.windowMeter.Holds config.window time ∧
      (config.strategy = .evenSpreadHourly →
        (q.runtime.shouldAllowCall time).1.sliceMeter.Holds config.slice.2 time) := by
  obtain ⟨hreset, hwhold, hshold⟩ := h.reset hw hle hend
  have hcount := hreset.callsMadeInWindow_eq hw hwhold
  have hlimit : (q.runtime.reset time).limit = config.limit.toNat := hreset.configured.limit
  have hremaining : (UInt64.ofNat ((q.runtime.reset time).limit -
      (q.runtime.reset time).callsMadeInWindow)).toNat =
      config.limit.toNat - Meter.atCell config.window t₀ time cs := by
    rw [UInt64.toNat_ofNat', hlimit, hcount]
    have := config.limit.toNat_lt
    exact Nat.mod_eq_of_lt (by omega)
  rcases q.runtime.shouldAllowCall_cases time with
    ⟨hs, hwin, heq⟩ | ⟨hs, -, heq⟩ | ⟨hwin, heq⟩ <;> rw [heq]
  · exact .inl ⟨rfl, hreset.consume hw hwhold hshold hs hwin, hwhold, fun h' => by
      rw [QuotaRuntime.sliceMeter_consume (hreset.configured.strategy.trans h')]
      exact hshold h'⟩
  · refine .inr ⟨⟨_, _, rfl, hremaining, .inr ?_⟩, hreset, hwhold, hshold⟩
    have hstrat : config.strategy = .evenSpreadHourly := hreset.configured.strategy ▸ hs.1
    refine ⟨hstrat, ?_⟩
    rw [← hreset.callsMadeInSlice_eq hstrat (hshold hstrat), ← QuotaConfig.slice_fst hstrat,
      ← hreset.configured.allowedPerSlice]
    exact hs.2
  · refine .inr ⟨⟨_, _, rfl, hremaining, .inl ?_⟩, hreset, hwhold, hshold⟩
    rw [← hcount, ← hlimit]
    exact hwin

theorem Step.now_le {a : QuotaCall} (h : Step q a q') : q.now ≤ a.time ∧ a.time = q'.now := by
  cases h with
  | call _ _ hle => exact ⟨hle, rfl⟩

/-- A step keeps the invariant for the charges it makes. -/
theorem Accounts.step (hw : 0 < config.window) (h : Accounts config t₀ s₀ cs q) {a : QuotaCall}
    (hstep : Step q a q') (hend : q'.now < t₀ + 2 ^ 64) :
    Accounts config t₀ s₀ (cs ++ if a.charged then [a.time] else []) q' := by
  cases hstep with
  | call time origin hle =>
    rw [QuotaRuntime.preCall]
    split
    · next hin =>
      simp only [QuotaCall.charged, hin, Bool.not_true, Bool.false_and, Bool.false_eq_true,
        if_false, List.append_nil]
      exact { h with
        toClocked := h.toClocked.wait hle
        started := ⟨h.started.1, h.started.2.trans hle⟩
        charged := fun c hc => ⟨(h.charged c hc).1, (h.charged c hc).2.trans hle⟩ }
    · next hext =>
      have hnot : (!origin.isInternal) = true := by simpa using hext
      rcases h.shouldAllowCall hw hle hend with ⟨hok, hacc, -⟩ | ⟨⟨_, _, herr, -⟩, hacc, -⟩
      · simp only [QuotaCall.charged, hnot, hok, Except.isOk, Except.toBool, Bool.true_and, if_true]
        exact hacc
      · simp only [QuotaCall.charged, herr, Except.isOk, Except.toBool, Bool.and_false,
          Bool.false_eq_true, if_false, List.append_nil]
        exact hacc

/-- The invariant holds along every run that is short enough. -/
theorem accounts_of_path (hw : 0 < config.window) (hnew : t₀ ≤ s₀)
    {tr : List (LTS.Step QuotaLayer QuotaCall)} (hrun : Path Step (new config t₀ s₀) tr q)
    (hend : q.now < t₀ + 2 ^ 64) : Accounts config t₀ s₀ (charges tr) q := by
  induction hrun with
  | nil => exact .new hnew
  | snoc _ hstep ih =>
    obtain ⟨hle, htime⟩ := hstep.now_le
    rw [charges_concat]
    exact (ih (by omega)).step hw hstep hend

theorem now_le_of_path {tr : List (LTS.Step QuotaLayer QuotaCall)} (hrun : Path Step q tr q') :
    q.now ≤ q'.now :=
  hrun.inv (I := fun r => q.now ≤ r.now) le_rfl fun _ _ _ hle hstep =>
    hle.trans (hstep.now_le.1.trans_eq hstep.now_le.2)

/-- The slices of the counter are those of the configuration, as far as the clock can tell. -/
theorem Accounts.atCell_sliceLength (hs : config.strategy = .evenSpreadHourly)
    (h : Accounts config t₀ s₀ cs q) (hend : q.now < t₀ + 2 ^ 64) (htime : time ≤ q.now) :
    Meter.atCell config.slice.2 s₀ time cs = Meter.atCell config.sliceLength s₀ time cs := by
  rcases QuotaConfig.slice_snd_cases hs with heq | ⟨hlen, hlen'⟩
  · rw [heq]
  · have hstarted := h.started
    have hshort (len : ℕ) (hle : 2 ^ 64 ≤ len) : ∀ c ∈ cs, c - s₀ < len := by
      intro c hc
      have := h.charged c hc
      omega
    rw [Meter.atCell_eq_length (hshort _ hlen) (by omega),
      Meter.atCell_eq_length (hshort _ hlen') (by omega)]

/-- The budget of a slice holds for the slices of the configuration. -/
theorem Accounts.sliceLength_budget (hs : config.strategy = .evenSpreadHourly)
    (h : Accounts config t₀ s₀ cs q) (hend : q.now < t₀ + 2 ^ 64) :
    Meter.WithinBudget config.sliceLength s₀ config.perSlice cs := by
  rcases QuotaConfig.slice_snd_cases hs with heq | ⟨hlen, -⟩
  · exact heq ▸ h.sliceBudget hs
  · have hstarted := h.started
    have hshort : ∀ c ∈ cs, s₀ ≤ c ∧ c - s₀ < config.slice.2 := by
      intro c hc
      have := h.charged c hc
      omega
    exact fun k => Meter.inCell_le_length.trans ((h.sliceBudget hs).length_le hshort)

/-- How a call is answered after the charges `cs`. -/
theorem Accounts.answer (hw : 0 < config.window) (h : Accounts config t₀ s₀ cs q) {a : QuotaCall}
    (hstep : Step q a q') (hend : q'.now < t₀ + 2 ^ 64) :
    (∀ e, a.outcome = .error e →
      a.origin.isInternal = false ∧
      ∃ remaining resetInMs, e = .quotaExceeded remaining resetInMs ∧
        remaining.toNat = config.limit.toNat - Meter.atCell config.window t₀ a.time cs ∧
        (config.limit.toNat ≤ Meter.atCell config.window t₀ a.time cs ∨
          config.strategy = .evenSpreadHourly ∧
            config.perSlice ≤ Meter.atCell config.sliceLength s₀ a.time cs)) ∧
    (a.origin.isInternal = true → q'.runtime = q.runtime) ∧
    (a.origin.isInternal = false →
      q'.runtime.callsMadeInWindow = Meter.atCell config.window t₀ a.time
        (cs ++ if a.charged then [a.time] else []) ∧
      (config.strategy = .evenSpreadHourly →
        q'.runtime.callsMadeInSlice = Meter.atCell config.sliceLength s₀ a.time
          (cs ++ if a.charged then [a.time] else []))) := by
  have hacc := h.step hw hstep hend
  cases hstep with
  | call time origin hle =>
    cases origin with
    | internal parent stage => exact ⟨nofun, fun _ => rfl, nofun⟩
    | external =>
      have hpre : q.runtime.preCall .external time = q.runtime.shouldAllowCall time := rfl
      have hnow : Accounts config t₀ s₀ cs ⟨time, q.runtime.reset time⟩ := (h.reset hw hle hend).1
      have hcall := h.shouldAllowCall hw hle hend
      rw [← hpre] at hcall
      refine ⟨fun e he => ⟨rfl, ?_⟩, nofun, fun _ => ?_⟩
      · rcases hcall with ⟨hok, -⟩ | ⟨⟨remaining, ms, herr, hrem, hspent⟩, -⟩
        · cases hok.symm.trans he
        · obtain rfl := Except.error.inj (herr.symm.trans he)
          refine ⟨remaining, ms, rfl, hrem, hspent.imp_right fun ⟨hs, hslice⟩ => ⟨hs, ?_⟩⟩
          rwa [hnow.atCell_sliceLength hs hend le_rfl] at hslice
      · have hholds : (q.runtime.preCall .external time).1.windowMeter.Holds config.window time ∧
            (config.strategy = .evenSpreadHourly →
              (q.runtime.preCall .external time).1.sliceMeter.Holds config.slice.2 time) := by
          rcases hcall with ⟨-, -, hholds⟩ | ⟨-, -, hholds⟩ <;> exact hholds
        refine ⟨hacc.callsMadeInWindow_eq hw hholds.1, fun hs => ?_⟩
        rw [← hacc.atCell_sliceLength hs hend le_rfl]
        exact hacc.callsMadeInSlice_eq hs (hholds.2 hs)

end

/-- What the quota enforces over a whole run. No window has more charges than the limit, and no slice
more than its share. A call is only rejected when one of the two budgets is spent, and the rejection
names the units left in the window. Calls of the orchestrator leave the counters alone, and after each
call of the user they are the numbers of charges in its window and in its slice. -/
theorem quota_budget (config : QuotaConfig) (hw : 0 < config.window) {t₀ s₀ : ℕ} (hnew : t₀ ≤ s₀)
    {tr : List (LTS.Step QuotaLayer QuotaCall)} {q : QuotaLayer}
    (hrun : Path Step (new config t₀ s₀) tr q) (hend : q.now < t₀ + 2 ^ 64) :
    (∀ k, Meter.inCell config.window t₀ k (charges tr) ≤ config.limit.toNat) ∧
    (config.strategy = .evenSpreadHourly →
      ∀ k, Meter.inCell config.sliceLength s₀ k (charges tr) ≤ config.perSlice) ∧
    ∀ (pre : List (LTS.Step QuotaLayer QuotaCall)) (st : LTS.Step QuotaLayer QuotaCall) rest,
      tr = pre ++ st :: rest →
      (∀ e : BorsaError, st.label.outcome = .error e →
        st.label.origin.isInternal = false ∧
        ∃ remaining resetInMs : UInt64, e = .quotaExceeded remaining resetInMs ∧
          remaining.toNat = config.limit.toNat -
            Meter.atCell config.window t₀ st.label.time (charges pre) ∧
          (config.limit.toNat ≤ Meter.atCell config.window t₀ st.label.time (charges pre) ∨
            config.strategy = .evenSpreadHourly ∧ config.perSlice ≤
              Meter.atCell config.sliceLength s₀ st.label.time (charges pre))) ∧
      (st.label.origin.isInternal = true → st.post.runtime = st.pre.runtime) ∧
      (st.label.origin.isInternal = false →
        st.post.runtime.callsMadeInWindow =
          Meter.atCell config.window t₀ st.label.time (charges (pre ++ [st])) ∧
        (config.strategy = .evenSpreadHourly →
          st.post.runtime.callsMadeInSlice =
            Meter.atCell config.sliceLength s₀ st.label.time (charges (pre ++ [st])))) := by
  have hall := accounts_of_path hw hnew hrun hend
  refine ⟨hall.windowBudget, fun hs => hall.sliceLength_budget hs hend, ?_⟩
  rintro pre ⟨p, a, p'⟩ rest rfl
  obtain ⟨hpre, hstep⟩ := hrun.step_of_split
  have hrest : p'.now ≤ q.now := now_le_of_path hrun.rest_of_split
  obtain ⟨hle, htime⟩ := hstep.now_le
  have hacc := accounts_of_path hw hnew hpre (by dsimp only at *; omega)
  rw [charges_concat]
  exact hacc.answer hw hstep (hrest.trans_lt hend)

/-- One call a millisecond: the second call of the first slice is rejected, and a call of the
orchestrator is not counted. -/
theorem quota_budget_spread : ∃ tr q, Path Step
    (new ⟨24, 24000000, .evenSpreadHourly⟩ 0 0) tr q ∧
      charges tr = [0, 1000000] ∧ ∀ k, Meter.inCell 1000000 0 k (charges tr) ≤ 1 := by
  have hrun := Path.snoc (.snoc (.snoc (.snoc .nil
    (Step.call (new ⟨24, 24000000, .evenSpreadHourly⟩ 0 0) 0 .external le_rfl))
    (Step.call _ 500000 .external (by decide)))
    (Step.call _ 600000 (.internal none "history") (by decide)))
    (Step.call _ 1000000 .external (by decide))
  refine ⟨_, _, hrun, by decide, fun k => ?_⟩
  exact (quota_budget _ (by decide) le_rfl hrun (by decide)).2.1 rfl k

end QuotaLayer

end Borsa
