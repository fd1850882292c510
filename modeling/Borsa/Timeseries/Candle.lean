import Mathlib
import Borsa.Lib.Clock
import Borsa.Lib.Fallible
import Borsa.Lib.SortKey
import Borsa.Error

/-!
# Candles

The values of a price history, from the `paft` and `chrono` crates, and the helpers of `util.rs`.

An instant is a whole number of nanoseconds from the epoch within chrono's calendar; leap seconds
are not represented. Amounts of money are only ever compared, so they are a type parameter `A` with
its order. A currency is compared, hashed and printed through its `Debug` text.

The code computes with `i64`. An operation that overflows panics, as it does in a build with overflow
checks; `Failure` tells that from an error that the code returns.
-/

namespace Borsa

open Fallible

/-! ## Failures -/

/-- How a computation fails: it panics, or it returns an error. -/
inductive Failure where
  | panic
  | err (e : BorsaError)

/-- The range of `i64`. -/
def InI64 (n : ℤ) : Prop := -9223372036854775808 ≤ n ∧ n ≤ 9223372036854775807

instance (n : ℤ) : Decidable (InI64 n) := inferInstanceAs (Decidable (_ ∧ _))

/-- The result of an `i64` operation whose exact result is `n`. -/
def i64 (n : ℤ) : Except Failure ℤ := if InI64 n then .ok n else .error .panic

/-- What comes after an `i64` operation sees the exact result, or is not reached. -/
theorem i64_bind {α : Type} (n : ℤ) (f : ℤ → Except Failure α) :
    (i64 n >>= f) = if InI64 n then f n else .error .panic := by
  rw [i64]
  split <;> rfl

/-- The result of code that returns errors and does not panic. -/
def ofResult {α : Type} : Except BorsaError α → Except Failure α
  | .ok a => .ok a
  | .error e => .error (.err e)

theorem ofResult_eq_ok {α : Type} {x : Except BorsaError α} {a : α} :
    ofResult x = .ok a ↔ x = .ok a := by
  cases x <;> simp [ofResult]

/-! ## Instants -/

/-- `DateTime::<Utc>::MIN_UTC`, in seconds. -/
def minTimestamp : ℤ := -8334601228800

/-- `DateTime::<Utc>::MAX_UTC`, in seconds. -/
def maxTimestamp : ℤ := 8210266876799

/-- An instant of chrono's calendar. -/
structure DateTime where
  /-- The nanoseconds from the epoch. -/
  nanos : ℤ
  inCalendar : minTimestamp * 1000000000 ≤ nanos ∧ nanos < (maxTimestamp + 1) * 1000000000

namespace DateTime

theorem nanos_injective : Function.Injective nanos := by
  intro ⟨n, h⟩ ⟨m, h'⟩ heq
  obtain rfl : n = m := heq
  rfl

/-- Instants in the order of time. -/
instance : LinearOrder DateTime := LinearOrder.lift' nanos nanos_injective

theorem le_def {t u : DateTime} : t ≤ u ↔ t.nanos ≤ u.nanos := Iff.rfl

theorem lt_def {t u : DateTime} : t < u ↔ t.nanos < u.nanos := Iff.rfl

/-- `timestamp`: the whole seconds from the epoch. -/
def timestamp (t : DateTime) : ℤ := t.nanos / 1000000000

/-- The instant of a whole second of the calendar. -/
def ofTimestamp (secs : ℤ) (h : minTimestamp ≤ secs ∧ secs ≤ maxTimestamp) : DateTime :=
  ⟨secs * 1000000000, by omega⟩

theorem epoch_inCalendar : minTimestamp ≤ 0 ∧ 0 ≤ maxTimestamp := by decide

/-- `DateTime::from_timestamp` at a whole second: `none` outside the calendar. -/
def fromTimestamp (secs : ℤ) : Option DateTime :=
  if h : minTimestamp ≤ secs ∧ secs ≤ maxTimestamp then some (ofTimestamp secs h) else none

theorem timestamp_mono {t u : DateTime} (h : t ≤ u) : t.timestamp ≤ u.timestamp :=
  Int.ediv_le_ediv (by omega) h

theorem timestamp_bounds (t : DateTime) :
    minTimestamp ≤ t.timestamp ∧ t.timestamp ≤ maxTimestamp := by
  have := t.inCalendar
  simp only [timestamp, minTimestamp, maxTimestamp] at *
  omega

theorem fromTimestamp_eq_some {secs : ℤ} {t : DateTime} :
    fromTimestamp secs = some t ↔ t.nanos = secs * 1000000000 := by
  have hcal := t.inCalendar
  rw [fromTimestamp]
  constructor
  · intro h
    split at h
    · obtain rfl : _ = t := by simpa using h
      rfl
    · simp at h
  · intro h
    have hin : minTimestamp ≤ secs ∧ secs ≤ maxTimestamp := by
      simp only [minTimestamp, maxTimestamp] at *
      omega
    rw [dif_pos hin, Option.some.injEq]
    exact nanos_injective h.symm

theorem fromTimestamp_eq_none {secs : ℤ} :
    fromTimestamp secs = none ↔ secs < minTimestamp ∨ maxTimestamp < secs := by
  rw [fromTimestamp]
  split
  · next h => simpa using h
  · next h => simpa using by omega

end DateTime

/-! ## Money and candles -/

/-- A currency. -/
structure Currency where
  /-- The `Debug` text. -/
  debug : String
  deriving DecidableEq

/-- An amount of money. -/
@[ext]
structure Money (A : Type) where
  amount : A
  currency : Currency
  deriving DecidableEq

/-- The prices and the volume of a span of time. -/
@[ext]
structure Candle (A : Type) where
  ts : DateTime
  «open» : Money A
  high : Money A
  low : Money A
  close : Money A
  closeUnadj : Option (Money A)
  volume : Option UInt64
  deriving DecidableEq

/-- A candle with a single price. -/
def Candle.flat {A : Type} (ts : DateTime) (price : Money A) : Candle A :=
  ⟨ts, price, price, price, price, none, none⟩

/-- A candle with one price, in dollars. -/
def dollarCandle (secs : ℤ) (h : minTimestamp ≤ secs ∧ secs ≤ maxTimestamp) (amount : ℕ) :
    Candle ℕ :=
  .flat (.ofTimestamp secs h) ⟨amount, ⟨"USD"⟩⟩

/-- `Action`: a dividend, a split or a capital gain. -/
inductive MarketAction (A : Type) where
  | dividend (ts : DateTime) (amount : Money A)
  | split (ts : DateTime) (numerator denominator : UInt32)
  | capitalGain (ts : DateTime) (gain : Money A)
  deriving DecidableEq

/-- A time zone. -/
abbrev Tz := WallClock.Clock

/-- What a provider says of the place of its prices. -/
structure HistoryMeta where
  timezone : Option Tz
  utcOffsetSeconds : Option ℤ

/-- A provider's answer to a history request. -/
structure HistoryResponse (A : Type) where
  candles : List (Candle A)
  actions : List (MarketAction A)
  adjusted : Bool
  «meta» : Option HistoryMeta

section
variable {A : Type}

/-- `strip_unadjusted`. -/
def stripUnadjusted (candles : List (Candle A)) : List (Candle A) :=
  candles.map fun c => { c with closeUnadj := none }

/-- `ensure_candle_currency_uniform`. -/
def ensureCandleCurrencyUniform (c : Candle A) : Except BorsaError Unit :=
  let cur := c.open.currency
  if cur ≠ c.high.currency ∨ cur ≠ c.low.currency ∨ cur ≠ c.close.currency then
    .error (.data "currency mismatch within candle")
  else .ok ()

/-- The prices of the candle are all in the currency. -/
def Candle.In (cur : Currency) (c : Candle A) : Prop :=
  c.open.currency = cur ∧ c.high.currency = cur ∧ c.low.currency = cur ∧ c.close.currency = cur

instance (cur : Currency) (c : Candle A) : Decidable (c.In cur) :=
  inferInstanceAs (Decidable (_ ∧ _))

/-- The prices of the candle are in one currency. -/
def Candle.Uniform (c : Candle A) : Prop := c.In c.open.currency

instance (c : Candle A) : Decidable c.Uniform := inferInstanceAs (Decidable (c.In _))

theorem Candle.In.uniform {cur : Currency} {c : Candle A} (h : c.In cur) : c.Uniform := by
  rw [Uniform, h.1]
  exact h

theorem ensureCandleCurrencyUniform_eq_ok {c : Candle A} :
    ensureCandleCurrencyUniform c = .ok () ↔ c.Uniform := by
  rw [ensureCandleCurrencyUniform, Candle.Uniform, Candle.In]
  split
  · next h => simpa [eq_comm] using by tauto
  · next h => simpa [eq_comm] using h

/-- The candles have all their prices in one currency. -/
def SingleCurrency (candles : List (Candle A)) : Prop := ∃ cur, ∀ c ∈ candles, c.In cur

/-- The candles are strictly ascending in time. -/
def Ascending (candles : List (Candle A)) : Prop := candles.Pairwise fun c d => c.ts < d.ts

end

end Borsa
