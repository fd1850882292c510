import Borsa.Error

/-!
# Calls through the middleware

What the layers around a connector share: the clock they read, the origin of a call, and the
conversions between durations and the numbers of milliseconds in errors and configurations.

Instants of the monotonic clock and durations are natural numbers, of nanoseconds; those of the clock
are counted from some start. A platform has a last instant (`InstantRange`), and the addition of a
duration that leads beyond it panics.
-/

namespace Borsa

/-- `u64::try_from(n).unwrap_or(u64::MAX)`. -/
def saturate (n : ℕ) : UInt64 := if n < 2 ^ 64 then UInt64.ofNat n else UInt64.ofNat (2 ^ 64 - 1)

theorem saturate_of_lt {n : ℕ} (h : n < 2 ^ 64) : (saturate n).toNat = n := by
  rw [saturate, if_pos h, UInt64.toNat_ofNat']
  exact Nat.mod_eq_of_lt h

theorem saturate_of_le {n : ℕ} (h : 2 ^ 64 ≤ n) : (saturate n).toNat = 2 ^ 64 - 1 := by
  rw [saturate, if_neg h.not_gt]
  rfl

theorem saturate_le (n : ℕ) : (saturate n).toNat ≤ n := by
  rcases lt_or_ge n (2 ^ 64) with h | h
  · rw [saturate_of_lt h]
  · rw [saturate_of_le h]
    omega

namespace Duration

/-- `as_millis`: the whole milliseconds. -/
def asMillis (d : ℕ) : ℕ := d / 1000000

/-- `from_millis`. -/
def fromMillis (ms : UInt64) : ℕ := ms.toNat * 1000000

/-- `from_nanos`. -/
def fromNanos (ns : UInt64) : ℕ := ns.toNat

/-- The duration is a whole number of milliseconds. -/
def WholeMillis (d : ℕ) : Prop := d % 1000000 = 0

instance (d : ℕ) : Decidable (WholeMillis d) := inferInstanceAs (Decidable (_ = _))

@[simp] theorem asMillis_fromMillis (ms : UInt64) : asMillis (fromMillis ms) = ms.toNat :=
  Nat.mul_div_cancel _ (by decide)

theorem wholeMillis_fromMillis (ms : UInt64) : WholeMillis (fromMillis ms) :=
  Nat.mul_mod_left _ _

theorem asMillis_mul_of_wholeMillis {d : ℕ} (h : WholeMillis d) :
    asMillis d * 1000000 = d :=
  Nat.div_mul_cancel (Nat.dvd_of_mod_eq_zero h)

/-- Whole milliseconds, and no more of them than a `u64` holds. -/
def Exact (d : ℕ) : Prop := WholeMillis d ∧ asMillis d < 2 ^ 64

instance (d : ℕ) : Decidable (Exact d) := inferInstanceAs (Decidable (_ ∧ _))

theorem fromMillis_ofNat_asMillis {d : ℕ} (h : Exact d) :
    fromMillis (UInt64.ofNat (asMillis d)) = d := by
  rw [fromMillis, UInt64.toNat_ofNat', Nat.mod_eq_of_lt h.2, asMillis_mul_of_wholeMillis h.1]

theorem exact_fromMillis (ms : UInt64) : Exact (fromMillis ms) := by
  refine ⟨wholeMillis_fromMillis ms, ?_⟩
  rw [asMillis_fromMillis]
  exact ms.toNat_lt

theorem saturate_asMillis_le (d : ℕ) : (saturate (asMillis d)).toNat * 1000000 ≤ d :=
  (Nat.mul_le_mul_right _ (saturate_le _)).trans (Nat.div_mul_le_self _ _)

/-- The milliseconds that a `u64` tells of a duration are all of it exactly when it is exact. -/
theorem saturate_asMillis_eq_iff (d : ℕ) :
    (saturate (asMillis d)).toNat * 1000000 = d ↔ Exact d := by
  rw [Exact, WholeMillis]
  rcases lt_or_ge (asMillis d) (2 ^ 64) with h | h
  · rw [saturate_of_lt h, and_iff_left h, asMillis]
    omega
  · rw [saturate_of_le h]
    have : asMillis d * 1000000 ≤ d := Nat.div_mul_le_self _ _
    omega

theorem saturate_asMillis_pos {d : ℕ} (hd : 0 < d) (h : Exact d) : 0 < saturate (asMillis d) := by
  have := (saturate_asMillis_eq_iff d).2 h
  rw [UInt64.lt_iff_toNat_lt]
  change 0 < (saturate (asMillis d)).toNat
  omega

end Duration

/-- The instants of a platform, which are counted in fewer nanoseconds than a `u128` holds. -/
structure InstantRange where
  last : ℕ
  fits : last < 2 ^ 128

/-- `Instant::checked_add`. `Instant + Duration` panics where it gives nothing. -/
def InstantRange.checkedAdd (range : InstantRange) (t d : ℕ) : Option ℕ :=
  if t + d ≤ range.last then some (t + d) else none

namespace InstantRange

/-- It is an instant of the platform. -/
def Contains (range : InstantRange) (t : ℕ) : Prop := t ≤ range.last

theorem antitone_contains (range : InstantRange) : Antitone range.Contains :=
  fun _ _ hle h => hle.trans h

variable {range : InstantRange} {t d : ℕ}

theorem checkedAdd_of_le (h : t + d ≤ range.last) : range.checkedAdd t d = some (t + d) :=
  if_pos h

theorem checkedAdd_of_lt (h : range.last < t + d) : range.checkedAdd t d = none :=
  if_neg h.not_ge

end InstantRange

/-- The instants up to a year. -/
def aYear : InstantRange := ⟨31536000000000000, by decide⟩

/-- Who initiated a call: the user, or the orchestrator in the course of another capability. -/
inductive CallOrigin where
  | external
  | internal (parent : Option Capability) (stage : String)
  deriving DecidableEq

/-- `matches!(origin, CallOrigin::Internal { .. })`. -/
def CallOrigin.isInternal : CallOrigin → Bool
  | .external => false
  | .internal .. => true

end Borsa
