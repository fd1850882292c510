import Borsa.Lib.Fallible
import Borsa.Middleware.BuilderNormal

/-!
# Where a quota check panics

`should_allow_call` again, with the operations that can panic: a division by zero, a product beyond
`u128`, and the addition of a duration to an instant beyond the last one. A panic happens while the
mutex is held and poisons it, so every later check panics too.

The slice's length is at least a millisecond, but nothing keeps the window's from being zero. That is
the only way a check panics (`checks_panic_iff`). A window of zero can be configured, it can be read
from JSON, and the shortcuts of the builder make it of any window under a millisecond
(`window_rereadQuota_eq_zero_iff`).
-/

namespace Borsa

open Duration Fallible

/-- Why a quota check panics. -/
inductive QuotaPanic where
  | divisionByZero
  | u128Overflow
  | instantOverflow
  | poisoned
  deriving DecidableEq

/-- `Instant + Duration`. -/
def InstantRange.add (range : InstantRange) (t d : ℕ) : Except QuotaPanic ℕ :=
  if t + d ≤ range.last then .ok (t + d) else .error .instantOverflow

/-- The division of two `u128`. -/
def divU128 (a b : ℕ) : Except QuotaPanic ℕ :=
  if b = 0 then .error .divisionByZero else .ok (a / b)

/-- The product of two `u128`. -/
def mulU128 (a b : ℕ) : Except QuotaPanic ℕ :=
  if a * b < 2 ^ 128 then .ok (a * b) else .error .u128Overflow

namespace QuotaRuntime

/-- `boundary_offset`, with its panics. -/
def boundaryOffsetChecked (elapsed len : ℕ) : Except QuotaPanic ℕ := do
  let passed ← divU128 elapsed len
  let nanos ← mulU128 passed len
  return fromNanos (saturate nanos)

/-- The reset of the window, with its panics. -/
def resetWindowChecked (range : InstantRange) (rt : QuotaRuntime) (now : ℕ) :
    Except QuotaPanic QuotaRuntime :=
  let elapsed := now - rt.lastReset
  if rt.window ≤ elapsed then do
    let boundaryOffset ← boundaryOffsetChecked elapsed rt.window
    let lastReset ← range.add rt.lastReset boundaryOffset
    return { rt with callsMadeInWindow := 0, lastReset }
  else return rt

/-- The reset of the slice, with its panics. -/
def resetSliceChecked (range : InstantRange) (rt : QuotaRuntime) (now : ℕ) :
    Except QuotaPanic QuotaRuntime :=
  let elapsed := now - rt.sliceStart
  if rt.sliceDuration ≤ elapsed then do
    let boundaryOffset ← boundaryOffsetChecked elapsed rt.sliceDuration
    let sliceStart ← range.add rt.sliceStart boundaryOffset
    return { rt with callsMadeInSlice := 0, sliceStart }
  else return rt

/-- The resets at the beginning of a call, with their panics. -/
def resetChecked (range : InstantRange) (rt : QuotaRuntime) (now : ℕ) :
    Except QuotaPanic QuotaRuntime := do
  let rt ← rt.resetWindowChecked range now
  if rt.strategy = .evenSpreadHourly then rt.resetSliceChecked range now else return rt

/-- What `should_allow_call` does once the counters are reset. -/
def answerCall (rt : QuotaRuntime) (now : ℕ) : QuotaRuntime × Except BorsaError Unit :=
  if rt.strategy = .evenSpreadHourly ∧ rt.allowedPerSlice ≤ rt.callsMadeInSlice ∧
      rt.callsMadeInWindow < rt.limit then
    (rt, .error (rt.exceeded rt.sliceDuration rt.sliceStart now))
  else if rt.callsMadeInWindow < rt.limit then (rt.consume, .ok ())
  else (rt, .error (rt.exceeded rt.window rt.lastReset now))

/-- `should_allow_call`, with its panics. -/
def shouldAllowCallChecked (range : InstantRange) (rt : QuotaRuntime) (now : ℕ) :
    Except QuotaPanic (QuotaRuntime × Except BorsaError Unit) := do
  let rt ← rt.resetChecked range now
  return rt.answerCall now

theorem shouldAllowCall_eq (rt : QuotaRuntime) (now : ℕ) :
    rt.shouldAllowCall now = (rt.reset now).answerCall now := rfl

end QuotaRuntime

/-- One check on the mutex around the counters, which is `none` once poisoned. -/
def checkQuota (range : InstantRange) (runtime : Option QuotaRuntime) (now : ℕ) :
    Option QuotaRuntime × Except QuotaPanic (Except BorsaError Unit) :=
  match runtime with
  | none => (none, .error .poisoned)
  | some rt =>
    match rt.shouldAllowCallChecked range now with
    | .ok (rt, result) => (some rt, .ok result)
    | .error panic => (none, .error panic)

/-- The outcomes of checks at these times. -/
def checks (range : InstantRange) (runtime : Option QuotaRuntime) :
    List ℕ → List (Except QuotaPanic (Except BorsaError Unit))
  | [] => []
  | now :: times =>
    (checkQuota range runtime now).2 :: checks range (checkQuota range runtime now).1 times

/-! ## What is computed without a panic -/

namespace QuotaRuntime

variable {range : InstantRange} {rt : QuotaRuntime} {now : ℕ}

/-- An offset of whole intervals does not go beyond what has elapsed. -/
theorem boundaryOffsetChecked_eq {elapsed len : ℕ} (hlen : len ≠ 0) (h : elapsed < 2 ^ 128) :
    boundaryOffsetChecked elapsed len = .ok (boundaryOffset elapsed len) := by
  have hmul : elapsed / len * len < 2 ^ 128 := (Nat.div_mul_le_self _ _).trans_lt h
  unfold boundaryOffsetChecked divU128 mulU128
  rw [if_neg hlen, ok_bind, if_pos hmul]
  rfl

/-- An interval of positive length that began before `now` is moved up to it. -/
theorem boundaryOffsetChecked_bind {α : Type} {start len : ℕ} (hlen : len ≠ 0)
    (hle : len ≤ now - start) (hnow : now ≤ range.last) (next : ℕ → Except QuotaPanic α) :
    (boundaryOffsetChecked (now - start) len >>= fun off => range.add start off >>= next) =
      next (start + boundaryOffset (now - start) len) := by
  have hfits : now - start < 2 ^ 128 := by
    have := range.fits
    omega
  have hadd : range.add start (boundaryOffset (now - start) len) =
      .ok (start + boundaryOffset (now - start) len) := by
    have hoff := boundaryOffset_le (now - start) len
    exact if_pos (by omega)
  rw [boundaryOffsetChecked_eq hlen hfits, ok_bind, hadd, ok_bind]

theorem resetWindowChecked_eq (hw : rt.window ≠ 0) (hnow : now ≤ range.last) :
    rt.resetWindowChecked range now = .ok (rt.resetWindow now) := by
  unfold resetWindowChecked resetWindow
  dsimp only
  split
  · next hle => exact boundaryOffsetChecked_bind hw hle hnow _
  · rfl

theorem resetSliceChecked_eq (hs : rt.sliceDuration ≠ 0) (hnow : now ≤ range.last) :
    rt.resetSliceChecked range now = .ok (rt.resetSlice now) := by
  unfold resetSliceChecked resetSlice
  dsimp only
  split
  · next hle => exact boundaryOffsetChecked_bind hs hle hnow _
  · rfl

/-- A slice is at least a millisecond. -/
theorem slice_pos {config : QuotaConfig} (h : config.strategy = .evenSpreadHourly) :
    config.slice.2 ≠ 0 := by
  have hpos : ∀ n, 1 ≤ (saturate (max 1 n)).toNat := by
    intro n
    rcases lt_or_ge (max 1 n) (2 ^ 64) with hlt | hge
    · rw [saturate_of_lt hlt]
      exact le_max_left 1 n
    · rw [saturate_of_le hge]
      decide
  unfold QuotaConfig.slice
  rw [h]
  dsimp only
  rw [fromMillis]
  have := hpos ((saturate (asMillis config.window)).toNat / 24)
  omega

/-- Without a window of zero a check does what it does and does not panic. -/
theorem shouldAllowCallChecked_eq {config : QuotaConfig} (hrt : Configured config rt)
    (hw : config.window ≠ 0) (hnow : now ≤ range.last) :
    rt.shouldAllowCallChecked range now = .ok (rt.shouldAllowCall now) := by
  have hwindow : rt.window ≠ 0 := hrt.window ▸ hw
  have hreset : rt.resetChecked range now = .ok (rt.reset now) := by
    unfold resetChecked reset
    have hmid : Configured config (rt.resetWindow now) := hrt.resetWindow
    rw [resetWindowChecked_eq hwindow hnow, ok_bind, hmid.strategy, hrt.strategy]
    split
    · next hs =>
      have hslice : (rt.resetWindow now).sliceDuration ≠ 0 := by
        rw [hmid.sliceDuration]
        exact slice_pos hs
      exact resetSliceChecked_eq hslice hnow
    · rfl
  rw [shouldAllowCall_eq]
  unfold shouldAllowCallChecked
  rw [hreset]
  rfl

/-- With a window of zero the first thing a check does is to divide by it. -/
theorem shouldAllowCallChecked_of_zero (hw : rt.window = 0) :
    rt.shouldAllowCallChecked range now = .error .divisionByZero := by
  unfold shouldAllowCallChecked resetChecked resetWindowChecked boundaryOffsetChecked divU128
  dsimp only
  rw [hw, if_pos (Nat.zero_le _), if_pos rfl]
  rfl

theorem Configured.shouldAllowCall {config : QuotaConfig} (hrt : Configured config rt) (now : ℕ) :
    Configured config (rt.shouldAllowCall now).1 := by
  rcases rt.shouldAllowCall_cases now with ⟨-, -, heq⟩ | ⟨-, -, heq⟩ | ⟨-, heq⟩
  · rw [heq]
    exact hrt.reset.consume
  · rw [heq]
    exact hrt.reset
  · rw [heq]
    exact hrt.reset

end QuotaRuntime

/-! ## Sequences of checks -/

open QuotaRuntime

/-- Without a window of zero no check panics. -/
theorem checks_of_pos {range : InstantRange} {config : QuotaConfig} (hw : config.window ≠ 0)
    {rt : QuotaRuntime} (hrt : Configured config rt) {times : List ℕ}
    (htimes : ∀ now ∈ times, now ≤ range.last) :
    ∀ outcome ∈ checks range (some rt) times, ∃ result, outcome = .ok result := by
  induction times generalizing rt with
  | nil => exact nofun
  | cons now times ih =>
    obtain ⟨hnow, hrest⟩ := List.forall_mem_cons.1 htimes
    have hcheck : checkQuota range (some rt) now =
        (some (rt.shouldAllowCall now).1, .ok (rt.shouldAllowCall now).2) := by
      unfold checkQuota
      dsimp only
      rw [shouldAllowCallChecked_eq hrt hw hnow]
    rw [checks, hcheck]
    exact List.forall_mem_cons.2 ⟨⟨_, rfl⟩, ih (hrt.shouldAllowCall now) hrest⟩

/-- Once poisoned, every check panics. -/
theorem checks_poisoned (range : InstantRange) (times : List ℕ) :
    checks range none times = times.map fun _ => .error .poisoned := by
  induction times with
  | nil => rfl
  | cons now times ih => exact congrArg _ ih

/-- With a window of zero every check panics: the first divides by zero, the others find the mutex
poisoned. -/
theorem checks_of_zero (range : InstantRange) {rt : QuotaRuntime} (hw : rt.window = 0) (now : ℕ)
    (times : List ℕ) : checks range (some rt) (now :: times) =
      .error .divisionByZero :: times.map fun _ => .error .poisoned := by
  have hcheck : checkQuota range (some rt) now = (none, .error .divisionByZero) := by
    unfold checkQuota
    dsimp only
    rw [shouldAllowCallChecked_of_zero hw]
  rw [checks, hcheck, checks_poisoned]

/-! ## Where a window of zero comes from -/

theorem fromMillis_eq_zero_iff {ms : UInt64} : fromMillis ms = 0 ↔ ms = 0 := by
  rw [fromMillis, ← UInt64.toNat_inj]
  have : (0 : UInt64).toNat = 0 := rfl
  omega

/-- A quota read from JSON has a window of zero exactly when the JSON says so. -/
theorem window_parseQuotaConfigFrom_eq_zero_iff (json : Json) :
    (parseQuotaConfigFrom json).window = 0 ↔ u64Field json "window_ms" = some 0 := by
  have hwindow : (parseQuotaConfigFrom json).window =
      fromMillis ((u64Field json "window_ms").getD 60000) := rfl
  rw [hwindow, fromMillis_eq_zero_iff]
  cases u64Field json "window_ms" with
  | none => exact iff_of_false (by decide) nofun
  | some ms => exact Option.some_inj.symm

/-- A quota read back by the builder has a window of zero exactly when its window was under a
millisecond. -/
theorem window_rereadQuota_eq_zero_iff [SerdeJson] {config : QuotaConfig} {json : Json}
    (h : (MiddlewareDescriptor.quota config).configJson = some json) :
    (ConnectorBuilder.rereadQuota json).window = 0 ↔ config.window < 1000000 := by
  have hmillis : asMillis config.window = 0 ↔ config.window < 1000000 := by
    unfold asMillis
    omega
  obtain ⟨ms, hms, hjson⟩ := Option.bind_eq_some_iff.1 h
  cases hjson
  have hfield : u64Field (.obj [("limit", .num config.limit), ("window_ms", ms),
      ("strategy", .str config.strategy.toStr)]) "window_ms" = ms.asU64 := by
    simp [u64Field, Json.get_cons_self, Json.get_cons_of_ne]
  rw [ConnectorBuilder.rereadQuota, hfield, fromMillis_eq_zero_iff, ← hmillis]
  unfold millisJson at hms
  split at hms
  · next hlt =>
    cases hms
    have hnat : (UInt64.ofNat (asMillis config.window)).toNat = asMillis config.window :=
      Nat.mod_eq_of_lt hlt
    have hzero : UInt64.ofNat (asMillis config.window) = 0 ↔ asMillis config.window = 0 := by
      rw [← UInt64.toNat_inj, hnat]
      rfl
    exact hzero
  · next hge =>
    obtain ⟨text, -, rfl⟩ := Option.map_eq_some_iff.1 hms
    have hdefault : saturate (asMillis QuotaConfig.default.window) ≠ 0 := by decide
    exact iff_of_false hdefault (by omega)

/-- A quota check panics exactly when the window is zero, at whatever times it is made. A quota read from
JSON has such a window when the JSON says so, and one changed by a shortcut of the builder, when it is
given such a window or its window was under a millisecond. -/
theorem checks_panic_iff (range : InstantRange) (config : QuotaConfig) (t₀ s₀ : ℕ) {times : List ℕ}
    (htimes : ∀ now ∈ times, now ≤ range.last) :
    ((∀ outcome ∈ checks range (some (.new config t₀ s₀)) times, ∃ result, outcome = .ok result) ↔
      config.window ≠ 0 ∨ times = []) ∧
    (∀ json, (parseQuotaConfigFrom json).window = 0 ↔ u64Field json "window_ms" = some 0) ∧
    ∀ [SerdeJson] (json : Json), (MiddlewareDescriptor.quota config).configJson = some json →
      ((ConnectorBuilder.rereadQuota json).window = 0 ↔ config.window < 1000000) := by
  refine ⟨⟨fun h => ?_, fun h => ?_⟩, window_parseQuotaConfigFrom_eq_zero_iff,
    fun json hjson => window_rereadQuota_eq_zero_iff hjson⟩
  · cases times with
    | nil => exact .inr rfl
    | cons now times =>
      refine .inl fun hw => ?_
      rw [checks_of_zero range hw] at h
      obtain ⟨result, hr⟩ := h _ (List.mem_cons_self ..)
      cases hr
  · rcases h with hw | rfl
    · exact checks_of_pos hw (.new config t₀ s₀) htimes
    · exact nofun

/-- A window of half a millisecond, and then a limit: the window is read back as zero, and the first
check divides by it. -/
theorem quotaWindow_quotaLimit_panics :
    letI := SerdeJson.plain
    ∃ b, (ConnectorBuilder.new "borsa-yfinance").calls [.quotaWindow 500000, .quotaLimit 5] =
        some b ∧ b.layers = [.quota ⟨5, 0, .unit⟩] ∧
      checks aYear (some (.new ⟨5, 0, .unit⟩ 0 0)) [1, 2] =
        [.error .divisionByZero, .error .poisoned] := by
  let := SerdeJson.plain
  exact ⟨_, rfl, rfl, checks_of_zero aYear rfl 1 [2]⟩

/-- A hundred units a day, spread over its hours. -/
def hundredADay : QuotaConfig := ⟨100, 86400000000000, .evenSpreadHourly⟩

/-- When it is checked: on the first day, on the next one and twice two days after that. -/
def hundredTimes : List ℕ := [1, 100000000000000, 300000000000000, 300000000000001]

/-- In later windows and slices its checks do not panic either. -/
theorem checks_panic_iff_hourly :
    (checks aYear (some (.new hundredADay 0 0)) hundredTimes).length = 4 ∧
    ∀ outcome ∈ checks aYear (some (.new hundredADay 0 0)) hundredTimes,
      ∃ result, outcome = .ok result :=
  ⟨rfl, (checks_panic_iff aYear hundredADay 0 0 (by decide)).1.2 (.inl (by decide))⟩

end Borsa
