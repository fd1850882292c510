import Borsa.Middleware.Call

/-!
# The blacklist layer

`BlacklistConnector` rejects external calls for a while after its inner connector has reported a rate
limit. The end of the block is an instant, so a duration that leads beyond the last one makes the layer
panic and not block.
-/

namespace Borsa

/-- A blacklist layer. -/
structure BlacklistConnector where
  /-- Blacklisted until then; `none` means active. -/
  state : Option ℕ
  defaultDuration : ℕ
  deriving DecidableEq

namespace BlacklistConnector

/-- `BlacklistConnector::new`. -/
def new (defaultDuration : ℕ) : BlacklistConnector := ⟨none, defaultDuration⟩

/-- `blacklist_remaining_ms`: the milliseconds left, at least one. A block that has expired is
cleared. -/
def blacklistRemainingMs (b : BlacklistConnector) (now : ℕ) :
    BlacklistConnector × Option UInt64 :=
  match b.state with
  | some until' =>
    if now < until' then (b, some (max (saturate (Duration.asMillis (until' - now))) 1))
    else ({ b with state := none }, none)
  | none => (b, none)

/-- `blacklist_until`. -/
def blacklistUntil (b : BlacklistConnector) (until' : ℕ) : BlacklistConnector :=
  { b with state := some until' }

/-- How long a rate limit blocks: the provider's window when it names one. -/
def blockFor (b : BlacklistConnector) (windowMs : UInt64) : ℕ :=
  if 0 < windowMs then Duration.fromMillis windowMs else b.defaultDuration

/-- `handle_error`, which gives nothing where it panics. It adds before it takes the lock, so a panic
leaves the state as it is and does not poison the mutex. -/
def handleError (range : InstantRange) (b : BlacklistConnector) (now : ℕ) (err : BorsaError) :
    Option (BlacklistConnector × BorsaError) :=
  match err with
  | .rateLimitExceeded _ windowMs =>
    (range.checkedAdd now (b.blockFor windowMs)).map fun until' => (b.blacklistUntil until', err)
  | _ => some (b, err)

/-- `pre_call` of the blacklist layer. -/
def preCall (b : BlacklistConnector) (origin : CallOrigin) (now : ℕ) :
    BlacklistConnector × Except BorsaError Unit :=
  if origin.isInternal then (b, .ok ())
  else
    match b.blacklistRemainingMs now with
    | (b, some ms) => (b, .error (.temporarilyBlacklisted ms))
    | (b, none) => (b, .ok ())

/-- `map_error` of the blacklist layer. -/
def mapError (range : InstantRange) (b : BlacklistConnector) (origin : CallOrigin) (now : ℕ)
    (err : BorsaError) : Option (BlacklistConnector × BorsaError) :=
  if origin.isInternal then some (b, err) else b.handleError range now err

/-- The layer blocks external calls at the instant. -/
def Blocks (b : BlacklistConnector) (now : ℕ) : Prop := ∃ d ∈ b.state, now < d

instance (b : BlacklistConnector) (now : ℕ) : Decidable (b.Blocks now) :=
  match h : b.state with
  | none => isFalse (by simp [Blocks, h])
  | some d => decidable_of_iff (now < d) (by simp [Blocks, h])

section
variable {b : BlacklistConnector} {now : ℕ}

@[simp] theorem blocks_blacklistUntil {d : ℕ} : (b.blacklistUntil d).Blocks now ↔ now < d := by
  simp [Blocks, blacklistUntil]

theorem max_one_pos (ms : UInt64) : 0 < max ms 1 := by
  have hmax : max ms 1 = if ms ≤ 1 then 1 else ms := rfl
  rw [hmax]
  split
  · decide
  · next h => exact UInt64.lt_trans (by decide) (UInt64.not_le.1 h)

/-- An external call is rejected while the layer blocks, and the rejection changes nothing. Otherwise it
is admitted, and no block is left. -/
theorem preCall_external (b : BlacklistConnector) (now : ℕ) :
    (b.Blocks now ∧ ∃ ms, 0 < ms ∧
      b.preCall .external now = (b, .error (.temporarilyBlacklisted ms))) ∨
    (¬ b.Blocks now ∧ b.preCall .external now = ({ b with state := none }, .ok ())) := by
  obtain ⟨state, defaultDuration⟩ := b
  cases state with
  | none => exact .inr ⟨by simp [Blocks], rfl⟩
  | some d =>
    by_cases h : now < d
    · have heq : preCall ⟨some d, defaultDuration⟩ .external now = (⟨some d, defaultDuration⟩,
          .error (.temporarilyBlacklisted (max (saturate (Duration.asMillis (d - now))) 1))) := by
        simp only [preCall, blacklistRemainingMs, CallOrigin.isInternal, h, if_true]
        rfl
      exact .inl ⟨by simpa [Blocks] using h, _, max_one_pos _, heq⟩
    · refine .inr ⟨by simpa [Blocks] using h, ?_⟩
      simp only [preCall, blacklistRemainingMs, CallOrigin.isInternal, h, if_false]
      rfl

theorem preCall_internal {origin : CallOrigin} (h : origin.isInternal = true) :
    b.preCall origin now = (b, .ok ()) := by
  rw [preCall, if_pos h]

theorem mapError_internal {origin : CallOrigin} (h : origin.isInternal = true)
    (range : InstantRange) (err : BorsaError) :
    b.mapError range origin now err = some (b, err) := by
  rw [mapError, if_pos h]

theorem mapError_external (range : InstantRange) (err : BorsaError) :
    b.mapError range .external now err = b.handleError range now err := rfl

theorem handleError_fits {range : InstantRange} (limit : UInt64) {windowMs : UInt64}
    (h : now + b.blockFor windowMs ≤ range.last) :
    b.handleError range now (.rateLimitExceeded limit windowMs) =
      some (b.blacklistUntil (now + b.blockFor windowMs), .rateLimitExceeded limit windowMs) := by
  rw [handleError, InstantRange.checkedAdd_of_le h, Option.map_some]

theorem handleError_beyond {range : InstantRange} (limit : UInt64) {windowMs : UInt64}
    (h : range.last < now + b.blockFor windowMs) :
    b.handleError range now (.rateLimitExceeded limit windowMs) = none := by
  rw [handleError, InstantRange.checkedAdd_of_lt h, Option.map_none]

/-- The layer does not change an error. -/
theorem handleError_snd {range : InstantRange} {err err' : BorsaError} {b' : BlacklistConnector}
    (h : b.handleError range now err = some (b', err')) : err' = err := by
  cases err with
  | rateLimitExceeded limit windowMs =>
    obtain ⟨until', -, heq⟩ := Option.map_eq_some_iff.1 h
    exact (Prod.ext_iff.1 heq).2.symm
  | _ => exact (Prod.ext_iff.1 (Option.some.inj h)).2.symm

theorem mapError_snd {range : InstantRange} {origin : CallOrigin} {err err' : BorsaError}
    {b' : BlacklistConnector} (h : b.mapError range origin now err = some (b', err')) :
    err' = err := by
  cases origin with
  | external => exact handleError_snd h
  | internal parent stage => exact (Prod.ext_iff.1 (Option.some.inj h)).2.symm

end

end BlacklistConnector

end Borsa
