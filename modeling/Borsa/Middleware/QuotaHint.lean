import Borsa.Middleware.QuotaBudget

/-!
# The retry hint of a rejection

A rejected call names the milliseconds after which to try again. The hint is the time to the end of
one interval, rounded down. It is right when that time is a whole number of milliseconds, and when, at
the end of the window, the slice is not still spent (`quota_hint`).
-/

namespace Borsa

open LTS

namespace QuotaRuntime

/-- At the instant the window has no unit left: it has not ended, and its units are consumed. -/
def WindowSpentAt (rt : QuotaRuntime) (now : ℕ) : Prop :=
  now < rt.lastReset + rt.window ∧ rt.limit ≤ rt.callsMadeInWindow

/-- At the instant the slice has no unit left. -/
def SliceSpentAt (rt : QuotaRuntime) (now : ℕ) : Prop :=
  rt.strategy = .evenSpreadHourly ∧ now < rt.sliceStart + rt.sliceDuration ∧
    rt.allowedPerSlice ≤ rt.callsMadeInSlice

/-- The hint of a rejection at the instant will be right. Where the window is spent, its end is told
exactly and the slice is not spent for longer than the window. Where only the slice is spent, its end is
a whole number of milliseconds away. -/
def HintRight (rt : QuotaRuntime) (now : ℕ) : Prop :=
  (rt.WindowSpentAt now →
    Duration.Exact (rt.lastReset + rt.window - now) ∧
      ¬ rt.SliceSpentAt (rt.lastReset + rt.window)) ∧
  (¬ rt.WindowSpentAt now → rt.SliceSpentAt now →
    Duration.WholeMillis (rt.sliceStart + rt.sliceDuration - now))

instance (rt : QuotaRuntime) (now : ℕ) : Decidable (rt.WindowSpentAt now) :=
  inferInstanceAs (Decidable (_ ∧ _))

instance (rt : QuotaRuntime) (now : ℕ) : Decidable (rt.SliceSpentAt now) :=
  inferInstanceAs (Decidable (_ ∧ _ ∧ _))

instance (rt : QuotaRuntime) (now : ℕ) : Decidable (rt.HintRight now) :=
  inferInstanceAs (Decidable (_ ∧ _))

section
variable {config : QuotaConfig} {rt : QuotaRuntime} {now : ℕ}

/-! ## What the resets keep -/

/-- The window is spent after the resets exactly if it was before, and then it stays where it is. -/
theorem windowSpent_reset (hlimit : 0 < rt.limit) (hstart : rt.lastReset ≤ now) :
    ((rt.reset now).WindowSpent ↔ rt.WindowSpentAt now) ∧
      (rt.WindowSpentAt now → (rt.reset now).lastReset = rt.lastReset) := by
  have hmeter : (rt.reset now).windowMeter = (rt.resetWindow now).windowMeter := by
    rw [reset]
    split
    · exact windowMeter_resetSlice
    · rfl
  have hlim : (rt.reset now).limit = rt.limit := by
    simp only [reset, resetSlice, resetWindow]
    split_ifs <;> rfl
  have hcalls : (rt.reset now).callsMadeInWindow = (rt.resetWindow now).callsMadeInWindow :=
    congrArg Meter.count hmeter
  have hreset : (rt.reset now).lastReset = (rt.resetWindow now).lastReset :=
    congrArg Meter.start hmeter
  rw [WindowSpent, WindowSpentAt, hcalls, hreset, hlim, resetWindow]
  split
  · dsimp only
    omega
  · omega

/-- The slice is spent after the resets exactly if it was before, and then it stays as it is. -/
theorem sliceSpent_reset (hallowed : rt.strategy = .evenSpreadHourly → 0 < rt.allowedPerSlice)
    (hstart : rt.sliceStart ≤ now) :
    ((rt.reset now).SliceSpent ↔ rt.SliceSpentAt now) ∧
      (rt.SliceSpentAt now → (rt.reset now).sliceStart = rt.sliceStart ∧
        (rt.reset now).callsMadeInSlice = rt.callsMadeInSlice) := by
  by_cases hs : rt.strategy = .evenSpreadHourly
  · have hwin : rt.resetWindow now = { rt with
        callsMadeInWindow := (rt.resetWindow now).callsMadeInWindow
        lastReset := (rt.resetWindow now).lastReset } := by
      rw [resetWindow]
      split <;> rfl
    have hpos := hallowed hs
    rw [SliceSpent, SliceSpentAt, reset, if_pos hs, hwin, resetSlice]
    split
    · simp only [hs, true_and]
      dsimp only at *
      omega
    · next hopen =>
      dsimp only at hopen
      simp only [hs, true_and, implies_true, and_true]
      omega
  · have hstrat : (rt.reset now).strategy = rt.strategy := by
      simp only [reset, resetSlice, resetWindow]
      split_ifs <;> rfl
    simp [SliceSpent, SliceSpentAt, hstrat, hs]

end

end QuotaRuntime

namespace QuotaLayer

section
variable {config : QuotaConfig} {q q' : QuotaLayer} {time : ℕ}

theorem clocked_of_path {t₀ s₀ : ℕ} (hnew : t₀ ≤ s₀)
    {tr : List (LTS.Step QuotaLayer QuotaCall)} (hrun : Path Step (new config t₀ s₀) tr q) :
    Clocked config q :=
  hrun.inv (.new hnew) fun _ _ _ h hstep => h.step hstep

theorem Clocked.allowedPerSlice_pos (h : Clocked config q)
    (hs : q.runtime.strategy = .evenSpreadHourly) : 0 < q.runtime.allowedPerSlice := by
  rw [h.configured.allowedPerSlice, QuotaConfig.slice_fst (h.configured.strategy ▸ hs)]
  exact Nat.lt_of_lt_of_le Nat.one_pos (Nat.le_max_left _ _)

/-- A call is allowed exactly when neither budget is spent at its instant. -/
theorem Clocked.allowed_iff (hlimit : 0 < config.limit) (h : Clocked config q)
    (hle : q.now ≤ time) :
    (q.runtime.shouldAllowCall time).2 = .ok () ↔
      ¬ q.runtime.WindowSpentAt time ∧ ¬ q.runtime.SliceSpentAt time := by
  have hlim : 0 < q.runtime.limit := by
    rw [h.configured.limit]
    exact hlimit
  rw [← (QuotaRuntime.windowSpent_reset hlim (h.windowStarted.trans hle)).1,
    ← (QuotaRuntime.sliceSpent_reset h.allowedPerSlice_pos (h.sliceStarted.trans hle)).1]
  rcases q.runtime.shouldAllowCall_cases time with
    ⟨hs, hw, heq⟩ | ⟨hs, hw, heq⟩ | ⟨hw, heq⟩ <;> simp [*]

/-- The resets of a call do not change whether the slice is spent later. -/
theorem Clocked.sliceSpentAt_reset (h : Clocked config q) (hle : q.now ≤ time) {later : ℕ}
    (hlater : time ≤ later) :
    (q.runtime.reset time).SliceSpentAt later ↔ q.runtime.SliceSpentAt later := by
  obtain ⟨hspent, hsame⟩ :=
    QuotaRuntime.sliceSpent_reset h.allowedPerSlice_pos (h.sliceStarted.trans hle)
  have hr := (h.reset hle).configured
  have hstrat := hr.strategy.trans h.configured.strategy.symm
  have hallowed := hr.allowedPerSlice.trans h.configured.allowedPerSlice.symm
  have hlen := hr.sliceDuration.trans h.configured.sliceDuration.symm
  by_cases hs : q.runtime.SliceSpentAt time
  · obtain ⟨hstart, hcalls⟩ := hsame hs
    dsimp only at hstrat hallowed hlen
    rw [QuotaRuntime.SliceSpentAt, QuotaRuntime.SliceSpentAt, hstart, hcalls, hstrat, hallowed, hlen]
  · -- a slice with units left now has them later
    refine iff_of_false (fun h' => hs (hspent.1 ⟨h'.1, h'.2.2⟩)) fun h' => hs ⟨h'.1, ?_, h'.2.2⟩
    exact hlater.trans_lt h'.2.1

theorem Clocked.limit_pos (hlimit : 0 < config.limit) (h : Clocked config q) :
    0 < q.runtime.limit := by
  rw [h.configured.limit]
  exact hlimit

/-- The rejection of a call when the window is spent. -/
theorem Clocked.exceeded_window (hlimit : 0 < config.limit) (h : Clocked config q)
    (hle : q.now ≤ time) (hw : q.runtime.WindowSpentAt time) :
    ∃ remaining, (q.runtime.reset time).exceeded (q.runtime.reset time).window
      (q.runtime.reset time).lastReset time = .quotaExceeded remaining
        (saturate (Duration.asMillis (q.runtime.lastReset + q.runtime.window - time))) := by
  have hstarted := h.windowStarted.trans hle
  have hsame := (QuotaRuntime.windowSpent_reset (h.limit_pos hlimit) hstarted).2 hw
  have hlen : (q.runtime.reset time).window = q.runtime.window :=
    (h.reset hle).configured.window.trans h.configured.window.symm
  have hleft : q.runtime.window - (time - q.runtime.lastReset) =
      q.runtime.lastReset + q.runtime.window - time := by omega
  rw [QuotaRuntime.exceeded, hsame, hlen, hleft]
  exact ⟨_, rfl⟩

/-- The rejection of a call when the slice is spent. -/
theorem Clocked.exceeded_slice (h : Clocked config q) (hle : q.now ≤ time)
    (hs : q.runtime.SliceSpentAt time) :
    ∃ remaining, (q.runtime.reset time).exceeded (q.runtime.reset time).sliceDuration
      (q.runtime.reset time).sliceStart time = .quotaExceeded remaining
        (saturate (Duration.asMillis (q.runtime.sliceStart + q.runtime.sliceDuration - time))) := by
  have hstarted := h.sliceStarted.trans hle
  have hsame := ((QuotaRuntime.sliceSpent_reset h.allowedPerSlice_pos hstarted).2 hs).1
  have hlen : (q.runtime.reset time).sliceDuration = q.runtime.sliceDuration :=
    (h.reset hle).configured.sliceDuration.trans h.configured.sliceDuration.symm
  have hleft : q.runtime.sliceDuration - (time - q.runtime.sliceStart) =
      q.runtime.sliceStart + q.runtime.sliceDuration - time := by omega
  rw [QuotaRuntime.exceeded, hsame, hlen, hleft]
  exact ⟨_, rfl⟩

/-- The hint of a window's rejection, when the window is spent. -/
theorem Clocked.window_hint (hlimit : 0 < config.limit) (h : Clocked config q)
    (hle : q.now ≤ time) (hw : q.runtime.WindowSpentAt time) :
    ((q.runtime.reset time).shouldAllowCall (time + (saturate (Duration.asMillis
        (q.runtime.lastReset + q.runtime.window - time))).toNat * 1000000)).2 = .ok () ↔
      Duration.Exact (q.runtime.lastReset + q.runtime.window - time) ∧
        ¬ q.runtime.SliceSpentAt (q.runtime.lastReset + q.runtime.window) := by
  obtain ⟨hspent, hsame⟩ :=
    QuotaRuntime.windowSpent_reset (h.limit_pos hlimit) (h.windowStarted.trans hle)
  have hr := h.reset hle
  have hwindow := hr.configured.window.trans h.configured.window.symm
  have hstart := hsame hw
  have hcalls : (q.runtime.reset time).limit ≤ (q.runtime.reset time).callsMadeInWindow :=
    hspent.2 hw
  have hms := Duration.saturate_asMillis_le (q.runtime.lastReset + q.runtime.window - time)
  have hexact := Duration.saturate_asMillis_eq_iff (q.runtime.lastReset + q.runtime.window - time)
  dsimp only at hwindow
  rw [hr.allowed_iff hlimit (Nat.le_add_right _ _), h.sliceSpentAt_reset hle (Nat.le_add_right _ _),
    ← hexact]
  generalize (saturate (Duration.asMillis (q.runtime.lastReset + q.runtime.window - time))).toNat *
    1000000 = ms at hms hexact ⊢
  have hlt := hw.1
  have hwin : ¬ (q.runtime.reset time).WindowSpentAt (time + ms) ↔
      ms = q.runtime.lastReset + q.runtime.window - time := by
    rw [QuotaRuntime.WindowSpentAt, hstart, hwindow, and_iff_left hcalls]
    omega
  rw [hwin]
  refine and_congr_right fun hms' => ?_
  rw [hms', Nat.add_sub_cancel' hlt.le]

/-- A slice is a `u64` of milliseconds, so only the rounding of a hint can lose anything. -/
theorem Clocked.exact_slice (h : Clocked config q) (hs : q.runtime.SliceSpentAt time)
    (hstarted : q.runtime.sliceStart ≤ time) :
    Duration.Exact (q.runtime.sliceStart + q.runtime.sliceDuration - time) ↔
      Duration.WholeMillis (q.runtime.sliceStart + q.runtime.sliceDuration - time) := by
  have hlen : q.runtime.sliceDuration < 2 ^ 64 * 1000000 := by
    have hstrat := h.configured.strategy.symm.trans hs.1
    have := (saturate (Duration.asMillis config.window)).toNat_lt
    rw [h.configured.sliceDuration, QuotaConfig.slice_snd hstrat]
    omega
  refine and_iff_left ?_
  rw [Duration.asMillis]
  omega

/-- The hint of a slice's rejection, when only the slice is spent. -/
theorem Clocked.slice_hint (hlimit : 0 < config.limit) (h : Clocked config q)
    (hle : q.now ≤ time) (hw : ¬ q.runtime.WindowSpentAt time)
    (hs : q.runtime.SliceSpentAt time) :
    ((q.runtime.reset time).shouldAllowCall (time + (saturate (Duration.asMillis
        (q.runtime.sliceStart + q.runtime.sliceDuration - time))).toNat * 1000000)).2 = .ok () ↔
      Duration.WholeMillis (q.runtime.sliceStart + q.runtime.sliceDuration - time) := by
  have hwspent :=
    (QuotaRuntime.windowSpent_reset (h.limit_pos hlimit) (h.windowStarted.trans hle)).1
  have hr := h.reset hle
  have hms := Duration.saturate_asMillis_le (q.runtime.sliceStart + q.runtime.sliceDuration - time)
  have hexact := Duration.saturate_asMillis_eq_iff
    (q.runtime.sliceStart + q.runtime.sliceDuration - time)
  rw [h.exact_slice hs (h.sliceStarted.trans hle)] at hexact
  rw [hr.allowed_iff hlimit (Nat.le_add_right _ _), h.sliceSpentAt_reset hle (Nat.le_add_right _ _),
    ← hexact]
  generalize (saturate (Duration.asMillis (q.runtime.sliceStart + q.runtime.sliceDuration -
    time))).toNat * 1000000 = ms at hms hexact ⊢
  have hwin : ¬ (q.runtime.reset time).WindowSpentAt (time + ms) :=
    fun h' => hw (hwspent.1 h'.2)
  have hlt := hs.2.1
  rw [and_iff_right hwin, QuotaRuntime.SliceSpentAt, and_iff_right hs.1, and_iff_left hs.2.2]
  omega

/-- A rejection's hint is right exactly under the condition on the state before the call. -/
theorem Clocked.hint_iff (hlimit : 0 < config.limit) (h : Clocked config q)
    (hle : q.now ≤ time) :
    (∀ remaining resetInMs,
      (q.runtime.shouldAllowCall time).2 = .error (.quotaExceeded remaining resetInMs) →
        0 < resetInMs ∧ ((q.runtime.shouldAllowCall time).1.shouldAllowCall
          (time + resetInMs.toNat * 1000000)).2 = .ok ()) ↔
      q.runtime.HintRight time := by
  have hwspent :=
    (QuotaRuntime.windowSpent_reset (h.limit_pos hlimit) (h.windowStarted.trans hle)).1
  have hsspent :=
    (QuotaRuntime.sliceSpent_reset h.allowedPerSlice_pos (h.sliceStarted.trans hle)).1
  rcases q.runtime.shouldAllowCall_cases time with ⟨hs, hw, heq⟩ | ⟨hs, hw, heq⟩ | ⟨hw, heq⟩ <;>
    rw [heq]
  · rw [hwspent] at hw
    rw [hsspent] at hs
    exact iff_of_true nofun ⟨fun h' => absurd h' hw, fun _ h' => absurd h' hs⟩
  · have hW : ¬ q.runtime.WindowSpentAt time := fun h' => hw (hwspent.2 h')
    have hS := hsspent.1 hs
    have hhint := h.slice_hint hlimit hle hW hS
    obtain ⟨_, hexceeded⟩ := h.exceeded_slice hle hS
    rw [hexceeded]
    constructor
    · intro hall
      exact ⟨fun h' => absurd h' hW, fun _ _ => hhint.1 (hall _ _ rfl).2⟩
    · rintro ⟨-, hright⟩ _ _ herr
      obtain ⟨-, rfl⟩ := BorsaError.quotaExceeded.inj (Except.error.inj herr)
      have hexact := (h.exact_slice hS (h.sliceStarted.trans hle)).2 (hright hW hS)
      exact ⟨Duration.saturate_asMillis_pos (Nat.sub_pos_of_lt hS.2.1) hexact,
        hhint.2 (hright hW hS)⟩
  · have hW := hwspent.1 hw
    have hhint := h.window_hint hlimit hle hW
    obtain ⟨_, hexceeded⟩ := h.exceeded_window hlimit hle hW
    rw [hexceeded]
    constructor
    · intro hall
      exact ⟨fun _ => hhint.1 (hall _ _ rfl).2, fun h' => absurd hW h'⟩
    · rintro ⟨hright, -⟩ _ _ herr
      obtain ⟨-, rfl⟩ := BorsaError.quotaExceeded.inj (Except.error.inj herr)
      exact ⟨Duration.saturate_asMillis_pos (Nat.sub_pos_of_lt hW.1) (hright hW).1,
        hhint.2 (hright hW)⟩

end

/-- When the hint of a rejection is right. In every state that a run can reach, and at every instant,
a rejected call that is made again after the milliseconds of its hint is allowed, and the hint is
positive, exactly when `HintRight` holds of the state. -/
theorem quota_hint (config : QuotaConfig) (hlimit : 0 < config.limit) {t₀ s₀ : ℕ} (hnew : t₀ ≤ s₀)
    {tr : List (LTS.Step QuotaLayer QuotaCall)} {q : QuotaLayer}
    (hrun : Path Step (new config t₀ s₀) tr q) {time : ℕ} (hle : q.now ≤ time) :
    (∀ remaining resetInMs,
      (q.runtime.shouldAllowCall time).2 = .error (.quotaExceeded remaining resetInMs) →
        0 < resetInMs ∧ ((q.runtime.shouldAllowCall time).1.shouldAllowCall
          (time + resetInMs.toNat * 1000000)).2 = .ok ()) ↔
      q.runtime.HintRight time :=
  (clocked_of_path hnew hrun).hint_iff hlimit hle

/-- One call a minute, and a second call a millisecond later: its hint is right. -/
theorem quota_hint_whole : ∃ tr q, Path Step
    (new ⟨1, 60000000000, .unit⟩ 0 0) tr q ∧ q.runtime.HintRight 1000000 ∧
      (q.runtime.shouldAllowCall 1000000).2 = .error (.quotaExceeded 0 59999) ∧
      ((q.runtime.shouldAllowCall 1000000).1.shouldAllowCall 60000000000).2 = .ok () := by
  have hrun := Path.single
    (Step.call (new ⟨1, 60000000000, .unit⟩ 0 0) 0 .external le_rfl)
  have hright : (((new ⟨1, 60000000000, .unit⟩ 0 0).runtime.preCall .external 0).1).HintRight
      1000000 := by decide
  exact ⟨_, _, hrun, hright, rfl,
    ((quota_hint _ (by decide) le_rfl hrun (by decide)).2 hright _ _ rfl).2⟩

/-- Half a millisecond after the only call of a window of a millisecond, a call is rejected with the
hint to try again at once. -/
theorem quota_hint_zero : ¬ ∀ (config : QuotaConfig), 0 < config.limit → 0 < config.window →
    ∀ {t₀ s₀ : ℕ}, t₀ ≤ s₀ → ∀ {tr : List (LTS.Step QuotaLayer QuotaCall)} {q : QuotaLayer},
      Path Step (new config t₀ s₀) tr q → ∀ {time : ℕ}, q.now ≤ time →
        ∀ remaining resetInMs,
          (q.runtime.shouldAllowCall time).2 = .error (.quotaExceeded remaining resetInMs) →
            0 < resetInMs ∧ ((q.runtime.shouldAllowCall time).1.shouldAllowCall
              (time + resetInMs.toNat * 1000000)).2 = .ok () := by
  intro h
  have hrun := Path.single (Step.call (new ⟨1, 1000000, .unit⟩ 0 0) 0 .external le_rfl)
  obtain ⟨hpos, -⟩ := h _ (by decide) (by decide) le_rfl hrun (show 0 ≤ 500000 by decide) 0 0 rfl
  exact absurd hpos (by decide)

end QuotaLayer

end Borsa
