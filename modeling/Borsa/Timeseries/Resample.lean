import Borsa.Timeseries.Candle

/-!
# Resampling

`resample.rs`: the bucket functions, which assign to an instant the start of its bucket, and
`resample_by`, which aggregates the candles of each bucket. A bucket function gives no bucket when
the start lies outside chrono's calendar.

A time zone is a wall clock. The calendar bounds its local times as it does instants: `date_naive`
panics on an instant whose local time is outside. The text of an instant in an error is chrono's,
taken as a parameter.
-/

namespace Borsa

/-- The seconds of a day. -/
def day : ℤ := 86400

/-- The outcome of a bucket function. -/
abbrev Bucket := Except Failure (Option DateTime)

/-! ## Bucket functions -/

/-- `week_start_day`: the Monday of a day's week; day 0 is a Thursday. -/
def weekStartDay (d : ℤ) : ℤ := d - (d + 3) % 7

/-- The UTC day of an instant. -/
def bucketDayUtc (ts : DateTime) : Bucket := do
  let d := ts.timestamp / day
  return DateTime.fromTimestamp (← i64 (d * day))

/-- `week_start_ts`. -/
def weekStartTs (ts : DateTime) : Bucket := do
  let ws := weekStartDay (ts.timestamp / day)
  return DateTime.fromTimestamp (← i64 (ws * day))

/-- The multiple of `minutes` from the epoch. -/
def bucketMinutesUtc (ts : DateTime) (minutes : ℤ) : Bucket := do
  let step ← i64 (minutes * 60)
  return DateTime.fromTimestamp (← i64 (ts.timestamp - ts.timestamp % step))

/-- `bucket_day_with_offset`. -/
def bucketDayWithOffset (ts : DateTime) (offsetSeconds : ℤ) : Bucket := do
  let shifted ← i64 (ts.timestamp + offsetSeconds)
  let d := shifted / day
  let localDayStart ← i64 ((← i64 (d * day)) - offsetSeconds)
  return DateTime.fromTimestamp localDayStart

/-- `bucket_week_monday_with_offset`. -/
def bucketWeekMondayWithOffset (ts : DateTime) (offsetSeconds : ℤ) : Bucket := do
  let shifted ← i64 (ts.timestamp + offsetSeconds)
  let ws := weekStartDay (shifted / day)
  let localWeekStart ← i64 ((← i64 (ws * day)) - offsetSeconds)
  return DateTime.fromTimestamp localWeekStart

/-- `bucket_minutes_with_offset`. -/
def bucketMinutesWithOffset (ts : DateTime) (minutes offsetSeconds : ℤ) : Bucket := do
  let step ← i64 (minutes * 60)
  let shifted ← i64 (ts.timestamp + offsetSeconds)
  let bucket ← i64 (shifted - shifted % step)
  let back ← i64 (bucket - offsetSeconds)
  return DateTime.fromTimestamp back

/-- `tz.from_local_datetime`: the instants of a local time, which must all be in the calendar. -/
def fromLocalDatetime (tz : Tz) (naive : ℤ) : WallClock.LocalResult DateTime :=
  (tz.fromLocal naive).andThen DateTime.fromTimestamp

/-- The local time of an instant is in the calendar. -/
def LocalInCalendar (tz : Tz) (ts : DateTime) : Prop :=
  minTimestamp ≤ tz.wall ts.timestamp ∧ tz.wall ts.timestamp ≤ maxTimestamp

instance (tz : Tz) (ts : DateTime) : Decidable (LocalInCalendar tz ts) :=
  inferInstanceAs (Decidable (_ ∧ _))

/-- `date_naive`: the local date of an instant, as its number of days from the epoch. -/
def dateNaive (ts : DateTime) (tz : Tz) : Except Failure ℤ :=
  if LocalInCalendar tz ts then .ok (tz.wall ts.timestamp / day) else .error .panic

/-- What comes after `date_naive` sees the local date, or is not reached. -/
theorem dateNaive_bind {α : Type} (ts : DateTime) (tz : Tz) (f : ℤ → Except Failure α) :
    (dateNaive ts tz >>= f) =
      if LocalInCalendar tz ts then f (tz.wall ts.timestamp / day) else .error .panic := by
  rw [dateNaive]
  split_ifs <;> rfl

/-- `checked_sub_signed` of a number of days: `none` outside the calendar. -/
def checkedSubDays (date days : ℤ) : Option ℤ :=
  if minTimestamp ≤ (date - days) * day ∧ (date - days) * day ≤ maxTimestamp then some (date - days)
  else none

/-- `local_midnight_utc_for_date`. -/
def localMidnightUtcForDate (ts : DateTime) (date : ℤ) (tz : Tz) : Bucket :=
  match fromLocalDatetime tz (date * day) with
  | .single dt => .ok (some dt)
  | .ambiguous dt1 _ => .ok (some dt1)
  | .none => bucketDayUtc ts

/-- `bucket_day_with_tz`. -/
def bucketDayWithTz (ts : DateTime) (tz : Tz) : Bucket := do
  let date ← dateNaive ts tz
  localMidnightUtcForDate ts date tz

/-- `bucket_week_monday_with_tz`. -/
def bucketWeekMondayWithTz (ts : DateTime) (tz : Tz) : Bucket := do
  let date ← dateNaive ts tz
  let daysFromMonday := (date + 3) % 7
  let weekStartDate := (checkedSubDays date daysFromMonday).getD date
  localMidnightUtcForDate ts weekStartDate tz

/-- `bucket_minutes_with_tz`. -/
def bucketMinutesWithTz (ts : DateTime) (minutes : ℤ) (tz : Tz) : Bucket := do
  let step ← i64 (minutes * 60)
  let date ← dateNaive ts tz
  let secondsSinceMidnight := tz.wall ts.timestamp % day
  let bucketSec := secondsSinceMidnight - secondsSinceMidnight % step
  match fromLocalDatetime tz (date * day + bucketSec) with
  | .single dt => return some dt
  | .ambiguous dt1 dt2 =>
    let localOffset := tz.offsetAt ts.timestamp
    let dt1Offset := tz.offsetAt dt1.timestamp
    if dt1Offset = localOffset then return some dt1 else return some dt2
  | .none => return DateTime.fromTimestamp (← i64 (ts.timestamp - ts.timestamp % step))

/-- The choice that `choose_bucket_day`, `choose_bucket_week` and `choose_bucket_minutes` make: by the
time zone if there is one, else by the offset, else in UTC. -/
def chooseBucket (withTz : Tz → Bucket) (withOffset : ℤ → Bucket) (utc : Bucket)
    («meta» : Option HistoryMeta) : Bucket :=
  match «meta» with
  | some m =>
    match m.timezone, m.utcOffsetSeconds with
    | some tz, _ => withTz tz
    | none, some off => withOffset off
    | none, none => utc
  | none => utc

/-- `choose_bucket_day`. -/
def chooseBucketDay (ts : DateTime) («meta» : Option HistoryMeta) : Bucket :=
  chooseBucket (bucketDayWithTz ts) (bucketDayWithOffset ts) (bucketDayUtc ts) «meta»

/-- `choose_bucket_week`. -/
def chooseBucketWeek (ts : DateTime) («meta» : Option HistoryMeta) : Bucket :=
  chooseBucket (bucketWeekMondayWithTz ts) (bucketWeekMondayWithOffset ts) (weekStartTs ts) «meta»

/-- `choose_bucket_minutes`. -/
def chooseBucketMinutes (ts : DateTime) (minutes : ℤ) («meta» : Option HistoryMeta) : Bucket :=
  chooseBucket (bucketMinutesWithTz ts minutes) (bucketMinutesWithOffset ts minutes)
    (bucketMinutesUtc ts minutes) «meta»

/-! ## Aggregation -/

section
variable {A : Type}

/-- The aggregate of the candles of a bucket so far. The sum of the volumes is a `u128`, which the
volumes of no list in memory overflow. -/
structure BucketAgg (A : Type) where
  «open» : Money A
  high : Money A
  low : Money A
  close : Money A
  volSum : Option ℕ

/-- The aggregate of the first candle of a bucket. -/
def BucketAgg.ofCandle (c : Candle A) : BucketAgg A :=
  ⟨c.open, c.high, c.low, c.close, c.volume.map UInt64.toNat⟩

/-- The volume of a bucket: the sum, at most `u64::MAX`. -/
def cappedVolume (volSum : Option ℕ) : Option UInt64 :=
  volSum.map fun v => UInt64.ofNat (min v (2 ^ 64 - 1))

/-- The candle that a bucket becomes. -/
def BucketAgg.candle (agg : BucketAgg A) (curBucket : DateTime) : Candle A :=
  ⟨curBucket, agg.open, agg.high, agg.low, agg.close, none, cappedVolume agg.volSum⟩

/-- The aggregate with one more candle. -/
def BucketAgg.extend [LinearOrder A] (agg : BucketAgg A) (c : Candle A) : BucketAgg A where
  «open» := agg.open
  high := if agg.high.amount < c.high.amount then c.high else agg.high
  low := if c.low.amount < agg.low.amount then c.low else agg.low
  close := c.close
  volSum :=
    match c.volume with
    | some v => some (agg.volSum.getD 0 + v.toNat)
    | none => agg.volSum

/-- The variables of the loop of `resample_by`; the first candle with a bucket opens the first
bucket. -/
structure ResampleState (A : Type) where
  out : List (Candle A)
  seriesCurrency : Option Currency
  current : Option (DateTime × BucketAgg A)

variable [ToString DateTime]

/-- The currencies of four prices, as errors show them. -/
def showCurrencies («open» high low close : Money A) : String :=
  "open=" ++ «open».currency.debug ++ " high=" ++ high.currency.debug ++
    " low=" ++ low.currency.debug ++ " close=" ++ close.currency.debug

/-- The check and the update that a further candle of the open bucket gets. -/
def extendBucket [LinearOrder A] (curBucket : DateTime) (agg : BucketAgg A) (c : Candle A) :
    Except Failure (BucketAgg A) :=
  match ensureCandleCurrencyUniform ⟨c.ts, c.open, agg.high, agg.low, agg.close, none, none⟩ with
  | .error _ => .error (.err (.data ("Mixed currencies in resample bucket at " ++
      toString curBucket ++ ": " ++ showCurrencies c.open agg.high agg.low agg.close)))
  | .ok () => .ok (agg.extend c)

/-- `finalize_bucket`: the output and the series currency after a bucket. -/
def finalizeBucket (out : List (Candle A)) (seriesCurrency : Option Currency)
    (curBucket : DateTime) (agg : BucketAgg A) :
    Except Failure (List (Candle A) × Option Currency) :=
  match ensureCandleCurrencyUniform
    ⟨curBucket, agg.open, agg.high, agg.low, agg.close, none, none⟩ with
  | .error _ => .error (.err (.data ("Mixed currencies in resample bucket (finalize) at " ++
      toString curBucket ++ ": " ++ showCurrencies agg.open agg.high agg.low agg.close)))
  | .ok () =>
    match seriesCurrency with
    | some cur =>
      if cur ≠ agg.open.currency then
        .error (.err (.data ("Mixed currencies across resampled series at " ++
          toString curBucket ++ ": expected " ++ cur.debug ++ ", got " ++
          agg.open.currency.debug)))
      else .ok (out ++ [agg.candle curBucket], some cur)
    | none =>
      .ok (out ++ [agg.candle curBucket], if out.isEmpty then some agg.open.currency else none)

variable [LinearOrder A]

/-- The body of the loop of `resample_by`, for a candle with its bucket. -/
def resampleStep (st : ResampleState A) (bucket : DateTime) (c : Candle A) :
    Except Failure (ResampleState A) :=
  match st.current with
  | none => .ok { st with current := some (bucket, .ofCandle c) }
  | some (curBucket, agg) =>
    if bucket = curBucket then do
      let agg ← extendBucket curBucket agg c
      return { st with current := some (curBucket, agg) }
    else do
      let (out, seriesCurrency) ← finalizeBucket st.out st.seriesCurrency curBucket agg
      return ⟨out, seriesCurrency, some (bucket, .ofCandle c)⟩

/-- The output once the open bucket is finalized. -/
def resampleFinish (st : ResampleState A) : Except Failure (List (Candle A)) :=
  match st.current with
  | none => .ok []
  | some (curBucket, agg) => do
    let (out, _) ← finalizeBucket st.out st.seriesCurrency curBucket agg
    return out

/-- `resample_by`. -/
def resampleBy (candles : List (Candle A)) (bucketOf : DateTime → Bucket) :
    Except Failure (List (Candle A)) := do
  if candles.isEmpty then return candles
  let candles := SortKey.sortByKey (·.ts) candles
  let st ← candles.foldlM (fun st c => do
    match ← bucketOf c.ts with
    | some bucket => resampleStep st bucket c
    | none => return st) ⟨[], none, none⟩
  resampleFinish st

/-- `resample_to_daily`. -/
def resampleToDaily (candles : List (Candle A)) : Except Failure (List (Candle A)) :=
  resampleBy candles bucketDayUtc

/-- `resample_to_daily_with_meta`. -/
def resampleToDailyWithMeta (candles : List (Candle A)) («meta» : Option HistoryMeta) :
    Except Failure (List (Candle A)) :=
  resampleBy candles fun ts => chooseBucketDay ts «meta»

/-- `resample_to_weekly`. -/
def resampleToWeekly (candles : List (Candle A)) : Except Failure (List (Candle A)) :=
  resampleBy candles weekStartTs

/-- `resample_to_weekly_with_meta`. -/
def resampleToWeeklyWithMeta (candles : List (Candle A)) («meta» : Option HistoryMeta) :
    Except Failure (List (Candle A)) :=
  resampleBy candles fun ts => chooseBucketWeek ts «meta»

/-- `resample_to_minutes`. -/
def resampleToMinutes (candles : List (Candle A)) (minutes : ℤ) :
    Except Failure (List (Candle A)) :=
  if candles.isEmpty ∨ minutes ≤ 0 then .ok candles
  else resampleBy candles fun ts => bucketMinutesUtc ts minutes

/-- `resample_to_minutes_with_meta`. -/
def resampleToMinutesWithMeta (candles : List (Candle A)) (minutes : ℤ)
    («meta» : Option HistoryMeta) : Except Failure (List (Candle A)) :=
  if candles.isEmpty ∨ minutes ≤ 0 then .ok candles
  else resampleBy candles fun ts => chooseBucketMinutes ts minutes «meta»

end

end Borsa
