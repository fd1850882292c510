import Borsa.Timeseries.LocalDays
import Borsa.Timeseries.LocalMinutes

/-!
# Three ways to resample in UTC

UTC can be given as a time zone, as the offset 0, or not at all. The offset 0 is no different from no
meta. The time zone is: its minutes are counted from the midnight of each day, and those of the plain
resampler from the epoch; and in the first days of chrono's calendar, whose Monday is before it, the
weeks of a time zone fall back to days. `agreesInUtc_iff` says exactly when the results are the same.
-/

namespace Borsa

/-- The time zone of UTC. -/
def utc : Tz := .fixed 0

/-! ## The clock of UTC -/

theorem offsetAt_utc (t : ℤ) : utc.offsetAt t = 0 := by
  simp [utc, WallClock.Clock.fixed, WallClock.Clock.oneChange]

@[simp] theorem wall_utc (t : ℤ) : utc.wall t = t := by
  rw [WallClock.Clock.wall, offsetAt_utc, add_zero]

theorem shownInCalendar_utc {l : ℤ} :
    ShownInCalendar utc l ↔ minTimestamp ≤ l ∧ l ≤ maxTimestamp := by
  simp only [ShownInCalendar, wall_utc, forall_eq, exists_eq, true_and]

/-- The local times of UTC are in the calendar. -/
theorem localInCalendar_utc (ts : DateTime) : LocalInCalendar utc ts := by
  rw [LocalInCalendar, wall_utc]
  exact ts.timestamp_bounds

/-- The midnight of a day of the calendar is in it. -/
theorem midnight_inCalendar (ts : DateTime) :
    minTimestamp ≤ ts.timestamp / day * day ∧ ts.timestamp / day * day ≤ maxTimestamp := by
  have := ts.timestamp_bounds
  simp only [minTimestamp, maxTimestamp, day] at *
  omega

/-! ## Bucket functions -/

/-- A bucket opens at its midnight, which the clock of UTC shows if it is in the calendar. -/
theorem exists_bucketWithTz_utc (period : Period) (ts : DateTime)
    (hin : minTimestamp ≤ period.midnight utc ts.timestamp ∧
      period.midnight utc ts.timestamp ≤ maxTimestamp) :
    ∃ b, period.bucketWithTz utc ts = .ok (some b) ∧ b.Whole ∧
      b.timestamp = period.midnight utc ts.timestamp := by
  obtain ⟨b, hb, hwhole, hopens⟩ := Period.bucketWithTz_spec (localInCalendar_utc ts)
  refine ⟨b, hb, hwhole, ?_⟩
  generalize b.timestamp = x at hopens
  cases hopens with
  | shown _ hx _ => rwa [wall_utc] at hx
  | skipped hnot => exact absurd (shownInCalendar_utc.2 hin) hnot

/-- Daily buckets of the time zone are those of UTC. -/
theorem bucketDayWithTz_utc (ts : DateTime) : bucketDayWithTz ts utc = bucketDayUtc ts := by
  have hmid : Period.days.midnight utc ts.timestamp = ts.timestamp / day * day := by
    rw [Period.midnight, Period.opening_days, wall_utc]
  obtain ⟨b, hb, hwhole, hts⟩ := Period.bucketDayUtc_eq_some ts
  obtain ⟨b', hb', hwhole', hts'⟩ := exists_bucketWithTz_utc .days ts (hmid ▸ midnight_inCalendar ts)
  rw [← Period.bucketWithTz_days, hb, hb',
    hwhole'.eq_of_timestamp_eq hwhole (by rw [hts, hts', hmid])]

/-- The weekly bucket of the time zone is the Monday of the instant's week, or else its day. -/
theorem bucketWeekMondayWithTz_utc (ts : DateTime) :
    ∃ b, bucketWeekMondayWithTz ts utc = .ok (some b) ∧ b.Whole ∧
      b.timestamp = if minTimestamp ≤ weekStartDay (ts.timestamp / day) * day then
        weekStartDay (ts.timestamp / day) * day else ts.timestamp / day * day := by
  have hday := midnight_inCalendar ts
  have hle := weekStartDay_le (ts.timestamp / day)
  have hmax : Period.weeks.first (ts.timestamp / day) * day ≤ maxTimestamp := by
    simp only [Period.weeks, day] at *
    omega
  have hmid : Period.weeks.midnight utc ts.timestamp =
      if minTimestamp ≤ weekStartDay (ts.timestamp / day) * day then
        weekStartDay (ts.timestamp / day) * day else ts.timestamp / day * day := by
    rw [Period.midnight, wall_utc, Period.opening_eq, ite_mul]
    exact if_congr (and_iff_left hmax) rfl rfl
  rw [← hmid, ← Period.bucketWithTz_weeks]
  refine exists_bucketWithTz_utc .weeks ts ?_
  rw [hmid]
  simp only [day] at *
  split_ifs <;> omega

/-- The minutes of the time zone are counted from the midnight of the instant's day. -/
theorem bucketMinutesWithTz_utc {n : ℤ} (hn : 0 < n) (hstep : InI64 (n * 60)) (ts : DateTime) :
    ∃ b, bucketMinutesWithTz ts n utc = .ok (some b) ∧ b.Whole ∧
      b.timestamp = localStart (n * 60) ts.timestamp := by
  have hpos : 0 < n * 60 := by omega
  obtain ⟨r, hr, hiff⟩ := bucketMinutesWithTz_spec hn hstep (localInCalendar_utc ts)
  have hin : minTimestamp ≤ localStart (n * 60) ts.timestamp ∧
      localStart (n * 60) ts.timestamp ≤ maxTimestamp := by
    have hmid := (midnight_inCalendar ts).1
    have hmax := ts.timestamp_bounds.2
    exact ⟨hmid.trans (midnight_le_localStart hpos _), (localStart_le hpos _).trans hmax⟩
  obtain ⟨hwhole, hts⟩ := DateTime.whole_of_fromTimestamp (dif_pos hin)
  refine ⟨_, hr.trans (congrArg Except.ok ((hiff _).2 ⟨hwhole, ?_⟩)), hwhole, hts⟩
  have hown : ownStart utc (n * 60) ts.timestamp = localStart (n * 60) ts.timestamp := by
    rw [ownStart, wall_utc, offsetAt_utc, sub_zero]
  rw [hts, ← hown]
  refine .own ?_ ?_
  · rw [wall_utc, shownInCalendar_utc]
    exact hin
  · rw [wall_utc, wall_utc, hown]

/-- The plain weekly bucket is the Monday of the instant's week, if that is in the calendar. -/
theorem weekStartTs_eq_ok (ts : DateTime) : weekStartTs ts =
    .ok (DateTime.fromTimestamp (weekStartDay (ts.timestamp / day) * day)) := by
  have hfits : InI64 (weekStartDay (ts.timestamp / day) * day) := by
    have := ts.timestamp_bounds
    simp only [InI64, minTimestamp, maxTimestamp, weekStartDay, day] at *
    omega
  simp only [weekStartTs, i64_bind, if_pos hfits]
  rfl

/-- The plain minutes are counted from the epoch. -/
theorem bucketMinutesUtc_eq_ok {n : ℤ} (hn : 0 < n) (hstep : InI64 (n * 60)) (ts : DateTime) :
    bucketMinutesUtc ts n =
      .ok (DateTime.fromTimestamp (ts.timestamp - ts.timestamp % (n * 60))) := by
  have hpos : 0 < n * 60 := by omega
  simp only [bucketMinutesUtc, i64_bind, if_pos hstep, if_pos (inI64_sub_emod hpos hstep ts)]
  rfl

/-- Counting from midnight is counting from the epoch where midnight is a multiple of the step. -/
theorem localStart_eq_of_dvd {step w : ℤ} (h : step ∣ w / day * day) :
    localStart step w = w - w % step := by
  obtain ⟨k, hk⟩ := h
  have hmod : w % step = w % day % step := by
    have hsum : w = w % day + step * k := by
      rw [← hk]
      simp only [day]
      omega
    have hmul := Int.add_mul_emod_self_left (w % day) step k
    rwa [← hsum] at hmul
  simp only [localStart, hmod, day]
  omega

/-! ## Resampled series -/

section
variable {A : Type} [LinearOrder A] [ToString DateTime] {candles : List (Candle A)}

/-- The loop asks the bucket function for the instants of the candles. -/
theorem resampleBy_congr {bucketOf bucketOf' : DateTime → Bucket}
    (h : ∀ c ∈ candles, bucketOf c.ts = bucketOf' c.ts) :
    resampleBy candles bucketOf = resampleBy candles bucketOf' := by
  have hloop : ∀ (cs : List (Candle A)) st, (∀ c ∈ cs, bucketOf c.ts = bucketOf' c.ts) →
      cs.foldlM (resampleBody bucketOf) st = cs.foldlM (resampleBody bucketOf') st := by
    intro cs
    induction cs with
    | nil => exact fun _ _ => rfl
    | cons c cs ih =>
      intro st hcs
      obtain ⟨hc, hcs⟩ := List.forall_mem_cons.1 hcs
      rw [List.foldlM_cons, List.foldlM_cons, resampleBody, resampleBody, hc]
      exact bind_congr fun st' => ih st' hcs
  rw [resampleBy_eq, resampleBy_eq, hloop _ _ fun c hc => h c (SortKey.mem_sortByKey.1 hc)]

/-- A resampled series has the buckets of its candles as timestamps. -/
theorem exists_ts_iff_of_resampleBy_eq_ok {bucketOf : DateTime → Bucket} {out : List (Candle A)}
    (h : resampleBy candles bucketOf = .ok out) {b : DateTime} :
    (∃ o ∈ out, o.ts = b) ↔ ∃ c ∈ candles, bucketOf c.ts = .ok (some b) := by
  rw [resampleTagged_eq_ok (resampleBy_eq_ok.1 h).2]
  constructor
  · rintro ⟨o, ho, rfl⟩
    obtain ⟨run, hrun, ho⟩ := List.mem_filterMap.1 ho
    obtain ⟨x, hx, hts⟩ := ts_of_bucketCandle ho
    obtain ⟨hc, hb⟩ := mem_tagged.1 (Runs.mem_of_mem_runs hrun hx)
    exact ⟨x.2, hc, hts ▸ hb⟩
  · rintro ⟨c, hc, hb⟩
    have htagged : (b, c) ∈ tagged bucketOf candles := mem_tagged.2 ⟨hc, hb⟩
    obtain ⟨run, hrun, hmem⟩ := Runs.exists_mem_runs Prod.fst htagged
    obtain ⟨o, ho⟩ := exists_bucketCandle (Runs.ne_nil_of_mem_runs hrun)
    obtain ⟨x, hx, hts⟩ := ts_of_bucketCandle ho
    refine ⟨o, List.mem_filterMap.2 ⟨run, hrun, ho⟩, ?_⟩
    rw [hts, Runs.sameKey_of_mem_runs hrun x hx _ hmem]

/-- Where two resampled series are the same, each bucket of the one is a bucket of the other. -/
theorem exists_bucket_of_resampleBy_eq {bucketOf bucketOf' : DateTime → Bucket}
    (hcur : SingleCurrency candles) (htotal : Total bucketOf candles)
    (heq : resampleBy candles bucketOf = resampleBy candles bucketOf') {c : Candle A}
    (hc : c ∈ candles) {b : DateTime} (hb : bucketOf c.ts = .ok (some b)) :
    ∃ c' ∈ candles, bucketOf' c'.ts = .ok (some b) := by
  have hout := resampleBy_of_singleCurrency hcur htotal
  exact (exists_ts_iff_of_resampleBy_eq_ok (heq ▸ hout)).1
    ((exists_ts_iff_of_resampleBy_eq_ok hout).2 ⟨c, hc, hb⟩)

/-! ## The three ways -/

/-- Resampling in the time zone of UTC, and at the offset 0, is resampling without a meta. -/
structure AgreesInUtc (cadence : Cadence) (candles : List (Candle A)) : Prop where
  zone : ∀ off, cadence.resampleWithMeta candles (some ⟨some utc, off⟩) = cadence.resample candles
  offset : cadence.resampleWithMeta candles (some ⟨none, some 0⟩) = cadence.resample candles

/-- The offset 0 never makes a difference. -/
theorem resampleWithMeta_offset_zero (cadence : Cadence) (candles : List (Candle A)) :
    cadence.resampleWithMeta candles (some ⟨none, some 0⟩) = cadence.resample candles := by
  rw [Cadence.resample_eq]
  by_cases hpos : 0 < cadence.length
  · have hoff : Cadence.FixedOffset (some ⟨none, some 0⟩) 0 := ⟨rfl, rfl⟩
    have hplain : Cadence.FixedOffset none 0 := rfl
    rw [Cadence.resampleWithMeta_eq hpos, Cadence.resampleWithMeta_eq hpos]
    refine resampleBy_congr fun c _ => ?_
    rw [cadence.bucketOf_eq hoff, cadence.bucketOf_eq hplain]
  · rw [Cadence.resampleWithMeta_eq_self hpos, Cadence.resampleWithMeta_eq_self hpos]

/-- Nor does the time zone for days. -/
theorem agreesInUtc_daily : AgreesInUtc .daily candles := by
  have hzone : ∀ off, Cadence.daily.resampleWithMeta candles (some ⟨some utc, off⟩) =
      resampleBy candles fun ts => bucketDayWithTz ts utc := fun _ => rfl
  have hplain : Cadence.daily.resample candles = resampleBy candles bucketDayUtc := rfl
  refine ⟨fun off => ?_, resampleWithMeta_offset_zero .daily candles⟩
  rw [hzone, hplain]
  exact resampleBy_congr fun c _ => bucketDayWithTz_utc c.ts

/-- The time zone makes no difference for weeks unless the Monday of a candle is before the
calendar. -/
theorem agreesInUtc_weekly_iff (hcur : SingleCurrency candles) : AgreesInUtc .weekly candles ↔
    ∀ c ∈ candles, minTimestamp ≤ weekStartDay (c.ts.timestamp / day) * day := by
  have hzone : ∀ off, Cadence.weekly.resampleWithMeta candles (some ⟨some utc, off⟩) =
      resampleBy candles fun ts => bucketWeekMondayWithTz ts utc := fun _ => rfl
  have hplain : Cadence.weekly.resample candles = resampleBy candles weekStartTs := rfl
  constructor
  · intro h c hc
    by_contra hmin
    have heq := h.zone none
    rw [hzone, hplain] at heq
    have htotal : Total (fun ts => bucketWeekMondayWithTz ts utc) candles := fun c _ => by
      obtain ⟨b, hb, -⟩ := bucketWeekMondayWithTz_utc c.ts
      exact ⟨_, hb⟩
    obtain ⟨b, hb, -, hts⟩ := bucketWeekMondayWithTz_utc c.ts
    rw [if_neg hmin] at hts
    obtain ⟨c', -, hb'⟩ := exists_bucket_of_resampleBy_eq hcur htotal heq hc hb
    rw [weekStartTs_eq_ok, Except.ok.injEq] at hb'
    -- the day of the candle is a Monday, and thus the Monday of its week
    have hmonday := (DateTime.whole_of_fromTimestamp hb').2
    have hday := (midnight_inCalendar c.ts).1
    simp only [weekStartDay, day] at *
    omega
  · intro h
    refine ⟨fun off => ?_, resampleWithMeta_offset_zero .weekly candles⟩
    rw [hzone, hplain]
    refine resampleBy_congr fun c hc => ?_
    obtain ⟨b, hb, hwhole, hts⟩ := bucketWeekMondayWithTz_utc c.ts
    rw [if_pos (h c hc)] at hts
    rw [hb, weekStartTs_eq_ok, ← hts, DateTime.fromTimestamp_eq_some.2 hwhole]

/-- The time zone makes no difference for minutes exactly when the midnights of the candles' days are
multiples of the bucket length, or the bucket length overflows. -/
theorem agreesInUtc_minutes_iff {n : ℤ} (hn : 0 < n) (hcur : SingleCurrency candles) :
    AgreesInUtc (.minutes n) candles ↔
      (InI64 (n * 60) → ∀ c ∈ candles, n * 60 ∣ c.ts.timestamp / day * day) := by
  have hpos : 0 < n * 60 := by omega
  have hlen : 0 < (Cadence.minutes n).length := hpos
  have hzone : ∀ off, (Cadence.minutes n).resampleWithMeta candles (some ⟨some utc, off⟩) =
      resampleBy candles fun ts => bucketMinutesWithTz ts n utc :=
    fun _ => Cadence.resampleWithMeta_eq hlen candles _
  have hplain : (Cadence.minutes n).resample candles =
      resampleBy candles fun ts => bucketMinutesUtc ts n :=
    (Cadence.resample_eq _ _).trans (Cadence.resampleWithMeta_eq hlen candles _)
  by_cases hstep : InI64 (n * 60)
  · constructor
    · intro h _ c hc
      have heq := h.zone none
      rw [hzone, hplain] at heq
      have htotal : Total (fun ts => bucketMinutesWithTz ts n utc) candles := fun c _ => by
        obtain ⟨b, hb, -⟩ := bucketMinutesWithTz_utc hn hstep c.ts
        exact ⟨_, hb⟩
      obtain ⟨b, hb, -, hts⟩ := bucketMinutesWithTz_utc hn hstep c.ts
      obtain ⟨c', -, hb'⟩ := exists_bucket_of_resampleBy_eq hcur htotal heq hc hb
      rw [bucketMinutesUtc_eq_ok hn hstep, Except.ok.injEq] at hb'
      have hgrid := (DateTime.whole_of_fromTimestamp hb').2
      -- a multiple of the bucket length that is one after midnight
      have hdvd : n * 60 ∣ localStart (n * 60) c.ts.timestamp := by
        rw [← hts, hgrid]
        exact Int.dvd_self_sub_emod
      exact (dvd_add_left Int.dvd_self_sub_emod).1 hdvd
    · intro h
      refine ⟨fun off => ?_, resampleWithMeta_offset_zero (.minutes n) candles⟩
      rw [hzone, hplain]
      refine resampleBy_congr fun c hc => ?_
      obtain ⟨b, hb, hwhole, hts⟩ := bucketMinutesWithTz_utc hn hstep c.ts
      rw [localStart_eq_of_dvd (h hstep c hc)] at hts
      rw [hb, bucketMinutesUtc_eq_ok hn hstep, ← hts, DateTime.fromTimestamp_eq_some.2 hwhole]
  · have hpanic : ∀ ts, bucketMinutesWithTz ts n utc = .error .panic := fun ts => by
      simp only [bucketMinutesWithTz, i64_bind, if_neg hstep]
    have hpanic' : ∀ ts, bucketMinutesUtc ts n = .error .panic := fun ts => by
      simp only [bucketMinutesUtc, i64_bind, if_neg hstep]
    refine iff_of_true ⟨fun off => ?_, resampleWithMeta_offset_zero (.minutes n) candles⟩
      fun h => absurd h hstep
    rw [hzone, hplain]
    exact resampleBy_congr fun c _ => (hpanic c.ts).trans (hpanic' c.ts).symm

/-- When the three ways to resample in UTC agree: for days always, for minutes when the midnights of
the candles' days are multiples of the bucket length, and for weeks when the Mondays of the candles'
weeks are in the calendar. -/
theorem agreesInUtc_iff {n : ℤ} (hn : 0 < n) (hcur : SingleCurrency candles) :
    (AgreesInUtc (.minutes n) candles ↔
      (InI64 (n * 60) → ∀ c ∈ candles, n * 60 ∣ c.ts.timestamp / day * day)) ∧
    AgreesInUtc .daily candles ∧
    (AgreesInUtc .weekly candles ↔
      ∀ c ∈ candles, minTimestamp ≤ weekStartDay (c.ts.timestamp / day) * day) :=
  ⟨agreesInUtc_minutes_iff hn hcur, agreesInUtc_daily, agreesInUtc_weekly_iff hcur⟩

end

section
local instance textUtc : ToString DateTime := ⟨fun ts => toString ts.nanos⟩

/-- A candle at the midnight that ends the first day from the epoch. -/
def secondMidnight : List (Candle ℕ) := [.flat (.ofTimestamp 86400 (by decide)) ⟨1, ⟨"USD"⟩⟩]

theorem agreesInUtc_secondMidnight :
    AgreesInUtc (.minutes 15) secondMidnight ∧ AgreesInUtc .daily secondMidnight ∧
      AgreesInUtc .weekly secondMidnight := by
  have hcur : SingleCurrency secondMidnight := ⟨⟨"USD"⟩, by decide⟩
  obtain ⟨hminutes, hdaily, hweekly⟩ := agreesInUtc_iff (n := 15) (by decide) hcur
  exact ⟨hminutes.2 fun _ => by decide, hdaily, hweekly.2 (by decide)⟩

/-- The buckets of seven minutes do not meet at that midnight. -/
theorem not_agreesInUtc :
    ¬ ∀ (candles : List (Candle ℕ)) (n : ℤ), 0 < n → SingleCurrency candles →
      AgreesInUtc (.minutes n) candles := by
  intro h
  have hzone := (h secondMidnight 7 (by decide) ⟨⟨"USD"⟩, by decide⟩).zone none
  have hmidnight : (Cadence.minutes 7).resampleWithMeta secondMidnight (some ⟨some utc, none⟩) =
      .ok [.flat (.ofTimestamp 86400 (by decide)) ⟨1, ⟨"USD"⟩⟩] := rfl
  have hepoch : (Cadence.minutes 7).resample secondMidnight =
      .ok [.flat (.ofTimestamp 86100 (by decide)) ⟨1, ⟨"USD"⟩⟩] := rfl
  have heq := Except.ok.inj (hmidnight.symm.trans (hzone.trans hepoch))
  exact absurd heq (by decide)

end

end Borsa
