import Borsa.Lib.Meter
import Borsa.Middleware.Call

/-!
# The quota layer

`QuotaAwareConnector` counts the external calls it lets through against a budget per window and,
when calls are spread over the window, against a budget per slice of it. Both counters are reset at
the next call after their interval has ended. A window of zero, by which the code divides, is not
represented.
-/

namespace Borsa

/-- How requests consume units of a quota. -/
inductive QuotaConsumptionStrategy where
  | unit
  | weighted
  | evenSpreadHourly
  deriving DecidableEq

/-- A budget of calls over a window. -/
structure QuotaConfig where
  limit : UInt64
  window : ℕ
  strategy : QuotaConsumptionStrategy
  deriving DecidableEq

/-- `QuotaConfig::default`. -/
def QuotaConfig.default : QuotaConfig := ⟨1000, 60000000000, .unit⟩

/-- The counters of a quota layer. Counters stay within the limit, which is a `u64`. -/
structure QuotaRuntime where
  limit : ℕ
  callsMadeInWindow : ℕ
  lastReset : ℕ
  window : ℕ
  allowedPerSlice : ℕ
  sliceDuration : ℕ
  callsMadeInSlice : ℕ
  sliceStart : ℕ
  strategy : QuotaConsumptionStrategy
  deriving DecidableEq

/-- The budget of a slice and its length, for calls spread over the window. -/
def QuotaConfig.slice (config : QuotaConfig) : ℕ × ℕ :=
  match config.strategy with
  | .evenSpreadHourly =>
    let slices := 24
    let perSlice := max 1 (config.limit.toNat / slices)
    let windowMs := (saturate (Duration.asMillis config.window)).toNat
    let rawSliceMs := max 1 (windowMs / slices)
    (perSlice, Duration.fromMillis (saturate rawSliceMs))
  | _ => (0, 0)

namespace QuotaRuntime

/-- `QuotaAwareConnector::new`, which reads the clock twice. -/
def new (config : QuotaConfig) (now now' : ℕ) : QuotaRuntime where
  limit := config.limit.toNat
  callsMadeInWindow := 0
  lastReset := now
  window := config.window
  allowedPerSlice := config.slice.1
  sliceDuration := config.slice.2
  callsMadeInSlice := 0
  sliceStart := now'
  strategy := config.strategy

/-- `boundary_offset`: the whole intervals that have passed. -/
def boundaryOffset (elapsed len : ℕ) : ℕ :=
  Duration.fromNanos (saturate (elapsed / len * len))

/-- Resets the window if it has elapsed. -/
def resetWindow (rt : QuotaRuntime) (now : ℕ) : QuotaRuntime :=
  let elapsed := now - rt.lastReset
  if rt.window ≤ elapsed then
    { rt with
      callsMadeInWindow := 0
      lastReset := rt.lastReset + boundaryOffset elapsed rt.window }
  else rt

/-- Resets the slice if it has elapsed. -/
def resetSlice (rt : QuotaRuntime) (now : ℕ) : QuotaRuntime :=
  let elapsed := now - rt.sliceStart
  if rt.sliceDuration ≤ elapsed then
    { rt with
      callsMadeInSlice := 0
      sliceStart := rt.sliceStart + boundaryOffset elapsed rt.sliceDuration }
  else rt

/-- The resets at the beginning of a call. -/
def reset (rt : QuotaRuntime) (now : ℕ) : QuotaRuntime :=
  if rt.strategy = .evenSpreadHourly then (rt.resetWindow now).resetSlice now
  else rt.resetWindow now

/-- One call is counted. -/
def consume (rt : QuotaRuntime) : QuotaRuntime :=
  { rt with
    callsMadeInWindow := rt.callsMadeInWindow + 1
    callsMadeInSlice :=
      if rt.strategy = .evenSpreadHourly then rt.callsMadeInSlice + 1 else rt.callsMadeInSlice }

/-- The rejection of a call: the units left in the window, and the time to the end of the interval
of length `len` that began at `start`. -/
def exceeded (rt : QuotaRuntime) (len : ℕ) (start now : ℕ) : BorsaError :=
  .quotaExceeded (UInt64.ofNat (rt.limit - rt.callsMadeInWindow))
    (saturate (Duration.asMillis (len - (now - start))))

/-- `should_allow_call`. -/
def shouldAllowCall (rt : QuotaRuntime) (now : ℕ) :
    QuotaRuntime × Except BorsaError Unit :=
  let rt := rt.reset now
  if rt.strategy = .evenSpreadHourly ∧ rt.allowedPerSlice ≤ rt.callsMadeInSlice ∧
      rt.callsMadeInWindow < rt.limit then
    -- the slice is exhausted but the window still has room
    (rt, .error (rt.exceeded rt.sliceDuration rt.sliceStart now))
  else if rt.callsMadeInWindow < rt.limit then (rt.consume, .ok ())
  else (rt, .error (rt.exceeded rt.window rt.lastReset now))

/-- `pre_call` of the quota layer. -/
def preCall (rt : QuotaRuntime) (origin : CallOrigin) (now : ℕ) :
    QuotaRuntime × Except BorsaError Unit :=
  if origin.isInternal then (rt, .ok ()) else rt.shouldAllowCall now

end QuotaRuntime

/-- `translate_provider_error`: takes the tag off a rate limit. -/
def translateProviderError : BorsaError → BorsaError
  | .connector connector error =>
    match error with
    | .rateLimitExceeded limit windowMs => .rateLimitExceeded limit windowMs
    | inner => .connector connector inner
  | other => other

/-- `map_error` of the quota layer. -/
def quotaMapError (origin : CallOrigin) (err : BorsaError) : BorsaError :=
  if origin.isInternal then err else translateProviderError err

namespace QuotaRuntime

/-! ## The counters as meters -/

/-- The window's counter. -/
def windowMeter (rt : QuotaRuntime) : Meter := ⟨rt.lastReset, rt.callsMadeInWindow⟩

/-- The slice's counter. -/
def sliceMeter (rt : QuotaRuntime) : Meter := ⟨rt.sliceStart, rt.callsMadeInSlice⟩

/-- The runtime counts under this configuration. -/
structure Configured (config : QuotaConfig) (rt : QuotaRuntime) : Prop where
  limit : rt.limit = config.limit.toNat
  window : rt.window = config.window
  allowedPerSlice : rt.allowedPerSlice = config.slice.1
  sliceDuration : rt.sliceDuration = config.slice.2
  strategy : rt.strategy = config.strategy

section
variable {config : QuotaConfig} {rt : QuotaRuntime} {now : ℕ}

theorem boundaryOffset_of_lt {elapsed : ℕ} (len : ℕ) (h : elapsed < 2 ^ 64) :
    boundaryOffset elapsed len = elapsed / len * len :=
  saturate_of_lt ((Nat.div_mul_le_self _ _).trans_lt h)

theorem boundaryOffset_le (elapsed len : ℕ) : boundaryOffset elapsed len ≤ elapsed :=
  (saturate_le _).trans (Nat.div_mul_le_self _ _)

theorem windowMeter_resetWindow (h : now - rt.lastReset < 2 ^ 64) :
    (rt.resetWindow now).windowMeter = rt.windowMeter.align rt.window now := by
  rw [resetWindow, boundaryOffset_of_lt _ h]
  exact apply_ite windowMeter _ _ _

theorem sliceMeter_resetSlice (h : now - rt.sliceStart < 2 ^ 64) :
    (rt.resetSlice now).sliceMeter = rt.sliceMeter.align rt.sliceDuration now := by
  rw [resetSlice, boundaryOffset_of_lt _ h]
  exact apply_ite sliceMeter _ _ _

@[simp] theorem sliceMeter_resetWindow : (rt.resetWindow now).sliceMeter = rt.sliceMeter := by
  rw [resetWindow]
  split <;> rfl

@[simp] theorem windowMeter_resetSlice : (rt.resetSlice now).windowMeter = rt.windowMeter := by
  rw [resetSlice]
  split <;> rfl

theorem sliceMeter_consume (h : rt.strategy = .evenSpreadHourly) :
    rt.consume.sliceMeter = rt.sliceMeter.charge := by
  simp [sliceMeter, consume, Meter.charge, h]

theorem Configured.new (config : QuotaConfig) (now now' : ℕ) :
    Configured config (new config now now') := ⟨rfl, rfl, rfl, rfl, rfl⟩

theorem Configured.resetWindow (h : Configured config rt) :
    Configured config (rt.resetWindow now) := by
  rw [QuotaRuntime.resetWindow]
  split
  · exact { h with }
  · exact h

theorem Configured.resetSlice (h : Configured config rt) :
    Configured config (rt.resetSlice now) := by
  rw [QuotaRuntime.resetSlice]
  split
  · exact { h with }
  · exact h

theorem Configured.reset (h : Configured config rt) : Configured config (rt.reset now) := by
  rw [QuotaRuntime.reset]
  split
  · exact h.resetWindow.resetSlice
  · exact h.resetWindow

theorem Configured.consume (h : Configured config rt) : Configured config rt.consume := { h with }

/-- The window's counter after the resets of a call. -/
theorem windowMeter_reset (h : now - rt.lastReset < 2 ^ 64) :
    (rt.reset now).windowMeter = rt.windowMeter.align rt.window now := by
  rw [reset]
  split
  · rw [windowMeter_resetSlice, windowMeter_resetWindow h]
  · exact windowMeter_resetWindow h

/-- The slice's counter after the resets of a call. -/
theorem sliceMeter_reset (hs : rt.strategy = .evenSpreadHourly)
    (h : now - rt.sliceStart < 2 ^ 64) :
    (rt.reset now).sliceMeter = rt.sliceMeter.align rt.sliceDuration now := by
  have hslice : (rt.resetWindow now).sliceMeter = rt.sliceMeter := sliceMeter_resetWindow
  have hstart : (rt.resetWindow now).sliceStart = rt.sliceStart := congrArg Meter.start hslice
  have hlen : (rt.resetWindow now).sliceDuration = rt.sliceDuration := by
    rw [resetWindow]
    split <;> rfl
  rw [reset, if_pos hs, sliceMeter_resetSlice (by rwa [hstart]), hslice, hlen]

/-! ## What a call does -/

/-- The slice has no unit left. -/
def SliceSpent (rt : QuotaRuntime) : Prop :=
  rt.strategy = .evenSpreadHourly ∧ rt.allowedPerSlice ≤ rt.callsMadeInSlice

/-- The window has no unit left. -/
def WindowSpent (rt : QuotaRuntime) : Prop := rt.limit ≤ rt.callsMadeInWindow

/-- A call is allowed and counted when neither budget is spent, else rejected and not counted. -/
theorem shouldAllowCall_cases (rt : QuotaRuntime) (now : ℕ) :
    (¬ (rt.reset now).SliceSpent ∧ ¬ (rt.reset now).WindowSpent ∧
      rt.shouldAllowCall now = ((rt.reset now).consume, .ok ())) ∨
    ((rt.reset now).SliceSpent ∧ ¬ (rt.reset now).WindowSpent ∧
      rt.shouldAllowCall now = (rt.reset now, .error ((rt.reset now).exceeded
        (rt.reset now).sliceDuration (rt.reset now).sliceStart now))) ∨
    ((rt.reset now).WindowSpent ∧
      rt.shouldAllowCall now = (rt.reset now, .error ((rt.reset now).exceeded
        (rt.reset now).window (rt.reset now).lastReset now))) := by
  rw [shouldAllowCall]
  generalize rt.reset now = rt'
  simp only [SliceSpent, WindowSpent, not_le]
  rcases lt_or_ge rt'.callsMadeInWindow rt'.limit with hw | hw
  · by_cases hs : rt'.strategy = .evenSpreadHourly ∧ rt'.allowedPerSlice ≤ rt'.callsMadeInSlice
    · refine .inr (.inl ⟨hs, hw, ?_⟩)
      rw [if_pos ⟨hs.1, hs.2, hw⟩]
    · refine .inl ⟨hs, hw, ?_⟩
      rw [if_neg fun h => hs ⟨h.1, h.2.1⟩, if_pos hw]
  · refine .inr (.inr ⟨hw, ?_⟩)
    rw [if_neg fun h => hw.not_gt h.2.2, if_neg hw.not_gt]

end

end QuotaRuntime

end Borsa
