import Borsa.Lib.Grid
import Borsa.Timeseries.Grouping

/-!
# Cadences

The daily, weekly and minute resamplers side by side. At a fixed offset from UTC each cuts time into
buckets of one length, which start at the points of a grid (`bucketOf_eq`).
-/

namespace Borsa

/-- The cadences to which a series can be resampled. -/
inductive Cadence where
  | daily
  | weekly
  | minutes (n : ℤ)
  deriving DecidableEq

namespace Cadence

/-- The length of a bucket, in seconds. -/
def length : Cadence → ℤ
  | .daily => day
  | .weekly => 7 * day
  | .minutes n => n * 60

/-- A local time at which a bucket starts: midnight of a Monday for weeks. -/
def origin : Cadence → ℤ
  | .weekly => -3 * day
  | .daily | .minutes _ => 0

/-- The bucket function of the resampler. -/
def bucketOf (cadence : Cadence) («meta» : Option HistoryMeta) (ts : DateTime) : Bucket :=
  match cadence with
  | .daily => chooseBucketDay ts «meta»
  | .weekly => chooseBucketWeek ts «meta»
  | .minutes n => chooseBucketMinutes ts n «meta»

section
variable {A : Type} [ToString DateTime] [LinearOrder A]

/-- The resampler that uses the meta. -/
def resampleWithMeta (cadence : Cadence) (candles : List (Candle A))
    («meta» : Option HistoryMeta) : Except Failure (List (Candle A)) :=
  match cadence with
  | .daily => resampleToDailyWithMeta candles «meta»
  | .weekly => resampleToWeeklyWithMeta candles «meta»
  | .minutes n => resampleToMinutesWithMeta candles n «meta»

/-- The resampler in UTC. -/
def resample (cadence : Cadence) (candles : List (Candle A)) : Except Failure (List (Candle A)) :=
  match cadence with
  | .daily => resampleToDaily candles
  | .weekly => resampleToWeekly candles
  | .minutes n => resampleToMinutes candles n

/-- Resampling in UTC is resampling without a meta. -/
theorem resample_eq (cadence : Cadence) (candles : List (Candle A)) :
    cadence.resample candles = cadence.resampleWithMeta candles none := by
  cases cadence <;> rfl

/-- Resampling to no positive number of minutes does nothing. -/
theorem resampleWithMeta_eq_self {cadence : Cadence} (hpos : ¬ 0 < cadence.length)
    (candles : List (Candle A)) («meta» : Option HistoryMeta) :
    cadence.resampleWithMeta candles «meta» = .ok candles := by
  cases cadence with
  | daily | weekly => exact absurd (by decide) hpos
  | minutes n =>
    have hn : n ≤ 0 := by
      simp only [length] at hpos
      omega
    rw [resampleWithMeta, resampleToMinutesWithMeta, if_pos (.inr hn)]

/-- A resampler of positive length groups by its bucket function. -/
theorem resampleWithMeta_eq {cadence : Cadence} (hpos : 0 < cadence.length)
    (candles : List (Candle A)) («meta» : Option HistoryMeta) :
    cadence.resampleWithMeta candles «meta» = resampleBy candles (cadence.bucketOf «meta») := by
  cases cadence with
  | daily | weekly => rfl
  | minutes n =>
    have hn : ¬ n ≤ 0 := by
      simp only [length] at hpos
      omega
    cases candles with
    | nil => rfl
    | cons c cs =>
      rw [resampleWithMeta, resampleToMinutesWithMeta, if_neg (by simp [hn])]
      rfl

end

/-! ## Buckets at a fixed offset -/

/-- The meta fixes the offset: it names no time zone. -/
def FixedOffset («meta» : Option HistoryMeta) (off : ℤ) : Prop :=
  match «meta» with
  | some m => m.timezone = none ∧ m.utcOffsetSeconds.getD 0 = off
  | none => off = 0

/-- The start of the bucket of a second, where local time is UTC plus `off`. -/
def start (cadence : Cadence) (off secs : ℤ) : ℤ :=
  Grid.floorTo cadence.length (cadence.origin - off) secs

/-- No operation overflows in computing the bucket of a second. -/
def Fits (cadence : Cadence) (off secs : ℤ) : Prop :=
  InI64 cadence.length ∧ InI64 (secs + off) ∧ InI64 (cadence.start off secs + off) ∧
    InI64 (cadence.start off secs)

instance (cadence : Cadence) (off secs : ℤ) : Decidable (cadence.Fits off secs) :=
  inferInstanceAs (Decidable (_ ∧ _))

theorem inI64_timestamp (ts : DateTime) : InI64 ts.timestamp := by
  have := ts.timestamp_bounds
  simp only [InI64, minTimestamp, maxTimestamp] at *
  omega

/-- A bucket starts where it does in local time. -/
theorem start_eq_sub (cadence : Cadence) (off secs : ℤ) :
    cadence.start off secs = cadence.start 0 (secs + off) - off := by
  have hshift : secs - (cadence.origin - off) = secs + off - (cadence.origin - 0) := by ring
  simp only [start, Grid.floorTo, hshift]
  ring

theorem start_daily (secs : ℤ) : daily.start 0 secs = secs / day * day := by
  simp only [start, Grid.floorTo, length, origin, day]
  omega

theorem start_weekly (secs : ℤ) : weekly.start 0 secs = weekStartDay (secs / day) * day := by
  simp only [start, Grid.floorTo, length, origin, weekStartDay, day]
  omega

theorem start_minutes (n secs : ℤ) : (minutes n).start 0 secs = secs - secs % (n * 60) := by
  have := Int.mul_ediv_add_emod secs (n * 60)
  simp only [start, Grid.floorTo, length, origin, sub_zero, zero_add]
  omega

theorem bucketDayUtc_eq (ts : DateTime) : bucketDayUtc ts =
    if daily.Fits 0 ts.timestamp then
      .ok (DateTime.fromTimestamp (daily.start 0 ts.timestamp))
    else .error .panic := by
  have hlen : InI64 daily.length := by decide
  simp only [bucketDayUtc, i64_bind, Fits, start_daily, hlen, add_zero, inI64_timestamp, true_and,
    and_self]
  rfl

theorem weekStartTs_eq (ts : DateTime) : weekStartTs ts =
    if weekly.Fits 0 ts.timestamp then
      .ok (DateTime.fromTimestamp (weekly.start 0 ts.timestamp))
    else .error .panic := by
  have hlen : InI64 weekly.length := by decide
  simp only [weekStartTs, i64_bind, Fits, start_weekly, hlen, add_zero, inI64_timestamp, true_and,
    and_self]
  rfl

theorem bucketMinutesUtc_eq (ts : DateTime) (n : ℤ) : bucketMinutesUtc ts n =
    if (minutes n).Fits 0 ts.timestamp then
      .ok (DateTime.fromTimestamp ((minutes n).start 0 ts.timestamp))
    else .error .panic := by
  simp only [bucketMinutesUtc, i64_bind, Fits, start_minutes, length, add_zero, inI64_timestamp,
    true_and, and_self, ite_and]
  rfl

theorem bucketDayWithOffset_eq (ts : DateTime) (off : ℤ) : bucketDayWithOffset ts off =
    if daily.Fits off ts.timestamp then
      .ok (DateTime.fromTimestamp (daily.start off ts.timestamp))
    else .error .panic := by
  have hstart := start_eq_sub daily off ts.timestamp
  have hlen : InI64 daily.length := by decide
  rw [start_daily] at hstart
  simp only [bucketDayWithOffset, i64_bind, Fits, hstart, hlen, sub_add_cancel, true_and, ite_and]
  rfl

theorem bucketWeekMondayWithOffset_eq (ts : DateTime) (off : ℤ) :
    bucketWeekMondayWithOffset ts off =
      if weekly.Fits off ts.timestamp then
        .ok (DateTime.fromTimestamp (weekly.start off ts.timestamp))
      else .error .panic := by
  have hstart := start_eq_sub weekly off ts.timestamp
  have hlen : InI64 weekly.length := by decide
  rw [start_weekly] at hstart
  simp only [bucketWeekMondayWithOffset, i64_bind, Fits, hstart, hlen, sub_add_cancel, true_and,
    ite_and]
  rfl

theorem bucketMinutesWithOffset_eq (ts : DateTime) (n off : ℤ) :
    bucketMinutesWithOffset ts n off =
      if (minutes n).Fits off ts.timestamp then
        .ok (DateTime.fromTimestamp ((minutes n).start off ts.timestamp))
      else .error .panic := by
  have hstart := start_eq_sub (minutes n) off ts.timestamp
  rw [start_minutes] at hstart
  simp only [bucketMinutesWithOffset, i64_bind, Fits, hstart, length, sub_add_cancel, ite_and]
  rfl

/-- At a fixed offset the bucket of an instant starts at the start of its cell, unless an operation
overflows. -/
theorem bucketOf_eq (cadence : Cadence) {«meta» : Option HistoryMeta} {off : ℤ}
    (hoff : FixedOffset «meta» off) (ts : DateTime) : cadence.bucketOf «meta» ts =
      if cadence.Fits off ts.timestamp then
        .ok (DateTime.fromTimestamp (cadence.start off ts.timestamp))
      else .error .panic := by
  rcases «meta» with _ | ⟨_ | tz, _ | off'⟩
  · obtain rfl : off = 0 := hoff
    cases cadence with
    | daily => exact bucketDayUtc_eq ts
    | weekly => exact weekStartTs_eq ts
    | minutes n => exact bucketMinutesUtc_eq ts n
  · obtain rfl : 0 = off := hoff.2
    cases cadence with
    | daily => exact bucketDayUtc_eq ts
    | weekly => exact weekStartTs_eq ts
    | minutes n => exact bucketMinutesUtc_eq ts n
  · obtain rfl : off' = off := hoff.2
    cases cadence with
    | daily => exact bucketDayWithOffset_eq ts off'
    | weekly => exact bucketWeekMondayWithOffset_eq ts off'
    | minutes n => exact bucketMinutesWithOffset_eq ts n off'
  · cases hoff.1
  · cases hoff.1

theorem i64_eq_error {n : ℤ} {f : Failure} (h : i64 n = .error f) : f = .panic := by
  rw [i64] at h
  split at h
  · cases h
  · exact (Except.error.inj h).symm

theorem localMidnightUtcForDate_eq_error {ts : DateTime} {date : ℤ} {tz : Tz} {f : Failure}
    (h : localMidnightUtcForDate ts date tz = .error f) : f = .panic := by
  rw [localMidnightUtcForDate] at h
  split at h
  · cases h
  · cases h
  · rw [bucketDayUtc_eq] at h
    split at h
    · cases h
    · exact (Except.error.inj h).symm

theorem dateNaive_eq_error {ts : DateTime} {tz : Tz} {f : Failure}
    (h : dateNaive ts tz = .error f) : f = .panic := by
  rw [dateNaive] at h
  split_ifs at h
  exact (Except.error.inj h).symm

/-- A bucket function fails only by a panic. -/
theorem bucketOf_eq_error {cadence : Cadence} {«meta» : Option HistoryMeta} {ts : DateTime}
    {f : Failure} (h : cadence.bucketOf «meta» ts = .error f) : f = .panic := by
  have hfixed : ∀ off, FixedOffset «meta» off → f = .panic := fun off hoff => by
    rw [bucketOf_eq cadence hoff] at h
    split at h
    · cases h
    · exact (Except.error.inj h).symm
  rcases «meta» with _ | ⟨_ | tz, off⟩
  · exact hfixed 0 rfl
  · exact hfixed (off.getD 0) ⟨rfl, rfl⟩
  · cases cadence with
    | daily | weekly =>
      rcases Fallible.bind_eq_error.1 h with hdate | ⟨date, -, h⟩
      · exact dateNaive_eq_error hdate
      · exact localMidnightUtcForDate_eq_error h
    | minutes n =>
      rcases Fallible.bind_eq_error.1 h with hstep | ⟨step, -, h⟩
      · exact i64_eq_error hstep
      rcases Fallible.bind_eq_error.1 h with hdate | ⟨date, -, h⟩
      · exact dateNaive_eq_error hdate
      · dsimp only at h
        split at h
        · cases h
        · split at h <;> cases h
        · rcases Fallible.bind_eq_error.1 h with hback | ⟨_, -, h⟩
          · exact i64_eq_error hback
          · cases h

/-! ## Cells -/

/-- The instant is a whole second at which a bucket starts, where local time is UTC plus `off`. -/
def StartsBucket (cadence : Cadence) (off : ℤ) (b : DateTime) : Prop :=
  b.nanos = b.timestamp * 1000000000 ∧ cadence.length ∣ b.timestamp + off - cadence.origin

/-- The instant lies in the bucket that starts at `b`. -/
def InBucket (cadence : Cadence) (b ts : DateTime) : Prop :=
  b.timestamp ≤ ts.timestamp ∧ ts.timestamp < b.timestamp + cadence.length

instance (cadence : Cadence) (b ts : DateTime) : Decidable (cadence.InBucket b ts) :=
  inferInstanceAs (Decidable (_ ∧ _))

section
variable {cadence : Cadence} {off : ℤ} (hpos : 0 < cadence.length)
include hpos

theorem start_mono (off : ℤ) {s t : ℤ} (h : s ≤ t) : cadence.start off s ≤ cadence.start off t :=
  Grid.floorTo_mono hpos _ h

theorem inBucket_iff {b ts : DateTime} (hb : cadence.StartsBucket off b) :
    cadence.InBucket b ts ↔ b.timestamp = cadence.start off ts.timestamp := by
  have hdvd : cadence.length ∣ b.timestamp - (cadence.origin - off) := by
    have h : b.timestamp - (cadence.origin - off) = b.timestamp + off - cadence.origin := by ring
    exact h ▸ hb.2
  constructor
  · rintro ⟨hle, hlt⟩
    exact Grid.eq_floorTo hpos hdvd hle hlt
  · intro h
    rw [InBucket, h]
    exact ⟨Grid.floorTo_le hpos _ _, Grid.lt_floorTo_add hpos _ _⟩

/-- The bucket given at a fixed offset is the one that contains the instant. -/
theorem fromTimestamp_start_eq_some {ts b : DateTime} :
    DateTime.fromTimestamp (cadence.start off ts.timestamp) = some b ↔
      cadence.StartsBucket off b ∧ cadence.InBucket b ts := by
  rw [DateTime.fromTimestamp_eq_some]
  constructor
  · intro h
    have hts : b.timestamp = cadence.start off ts.timestamp := by
      rw [DateTime.timestamp, h]
      omega
    have hstarts : cadence.StartsBucket off b := by
      refine ⟨by rw [hts, h], ?_⟩
      have hdvd := Grid.dvd_floorTo_sub cadence.length (cadence.origin - off) ts.timestamp
      have heq : b.timestamp + off - cadence.origin =
          cadence.start off ts.timestamp - (cadence.origin - off) := by rw [hts]; ring
      exact heq ▸ hdvd
    exact ⟨hstarts, (inBucket_iff hpos hstarts).2 hts⟩
  · rintro ⟨hstarts, hin⟩
    rw [hstarts.1, (inBucket_iff hpos hstarts).1 hin]

end

end Cadence

end Borsa
