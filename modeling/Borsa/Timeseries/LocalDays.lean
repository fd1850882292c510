import Borsa.Timeseries.LocalTime

/-!
# Days and weeks in a time zone

A local day, or the week of one, opens when the clock first shows its midnight. Where the clock does
not show it, `local_midnight_utc_for_date` takes the UTC day of the candle instead, so that such a day
may fall apart; a midnight that is shown twice may put days out of order; and a week whose Monday is
before the calendar opens anew with each of its days. `resampleLocal_iff` says that nothing else can
go wrong, and `resampleLocal_of_keepsDate` that nothing does where the clock is never moved over
midnight, away from the ends of the calendar.
-/

namespace Borsa

/-! ## Where a day opens -/

/-- A way to group days: each belongs to the group that starts at its first day. -/
structure Period where
  first : ℤ → ℤ
  first_le : ∀ d, first d ≤ d
  /-- The days from the first one on belong to the group. -/
  first_eq : ∀ d d', first d' ≤ d → d ≤ d' → first d = first d'

/-- Days. -/
def Period.days : Period := ⟨id, fun _ => le_rfl, fun _ _ h h' => le_antisymm h' h⟩

theorem weekStartDay_le (d : ℤ) : weekStartDay d ≤ d := by
  simp only [weekStartDay]
  omega

theorem weekStartDay_eq (d d' : ℤ) (h : weekStartDay d' ≤ d) (h' : d ≤ d') :
    weekStartDay d = weekStartDay d' := by
  simp only [weekStartDay] at *
  omega

/-- Weeks from Monday to Sunday. -/
def Period.weeks : Period := ⟨weekStartDay, weekStartDay_le, weekStartDay_eq⟩

namespace Period
variable (period : Period) (tz : Tz)

/-- The first local day of the group of an instant. -/
def firstDay (t : ℤ) : ℤ := period.first (tz.wall t / day)

/-- The day with which the bucket of a day opens: the first of its group, or the day itself where that
is outside the calendar. -/
def opening (d : ℤ) : ℤ := (checkedSubDays d (d - period.first d)).getD d

/-- The local midnight at which the bucket of an instant opens. -/
def midnight (t : ℤ) : ℤ := period.opening (tz.wall t / day) * day

/-- The bucket of the instant `t` opens at an instant. -/
inductive OpensAt (t : ℤ) : ℤ → Prop where
  /-- The clock first shows the midnight. -/
  | shown {b : ℤ} : ShownInCalendar tz (period.midnight tz t) → tz.wall b = period.midnight tz t →
      (∀ x, tz.wall x = period.midnight tz t → b ≤ x) → OpensAt t b
  /-- The clock does not show the midnight: the UTC day of the instant opens. -/
  | skipped : ¬ ShownInCalendar tz (period.midnight tz t) → OpensAt t (t / day * day)

/-- The clock has run through, at one offset, since the midnight at which the bucket of `t` opens. -/
def RunsThrough (t : ℤ) : Prop :=
  ShownInCalendar tz (period.midnight tz t) ∧
    ∃ b, tz.wall b = period.midnight tz t ∧ (∀ x, tz.wall x = period.midnight tz t → b ≤ x) ∧
      b ≤ t ∧ ∀ x, b ≤ x → x ≤ t → tz.offsetAt x = tz.offsetAt t

/-- The bucket function of the period. -/
def bucketWithTz (ts : DateTime) : Bucket := do
  let date ← dateNaive ts tz
  localMidnightUtcForDate ts (period.opening date) tz

variable {period tz}

theorem opening_eq (d : ℤ) : period.opening d =
    if minTimestamp ≤ period.first d * day ∧ period.first d * day ≤ maxTimestamp then period.first d
    else d := by
  rw [opening, checkedSubDays, sub_sub_cancel]
  split_ifs <;> rfl

theorem opening_eq_or (d : ℤ) : period.opening d = period.first d ∨ period.opening d = d := by
  rw [opening_eq]
  exact ite_eq_or_eq _ _ _

theorem first_le_opening (d : ℤ) : period.first d ≤ period.opening d := by
  rcases period.opening_eq_or d with h | h
  · exact h.ge
  · rw [h]
    exact period.first_le d

@[simp] theorem opening_days (d : ℤ) : days.opening d = d := (days.opening_eq_or d).elim id id

theorem bucketWithTz_days (ts : DateTime) : days.bucketWithTz tz ts = bucketDayWithTz ts tz := by
  simp only [bucketWithTz, bucketDayWithTz, opening_days]

theorem bucketWithTz_weeks (ts : DateTime) :
    weeks.bucketWithTz tz ts = bucketWeekMondayWithTz ts tz := by
  simp only [bucketWithTz, bucketWeekMondayWithTz, opening, weeks, weekStartDay, sub_sub_cancel]

theorem OpensAt.unique {t b b' : ℤ} (h : period.OpensAt tz t b) (h' : period.OpensAt tz t b') :
    b = b' := by
  cases h with
  | shown hshown hb hfirst =>
    cases h' with
    | shown _ hb' hfirst' => exact le_antisymm (hfirst b' hb') (hfirst' b hb)
    | skipped hnot => exact absurd hshown hnot
  | skipped hnot =>
    cases h' with
    | shown hshown => exact absurd hshown hnot
    | skipped => rfl

theorem bucketDayUtc_eq_some (ts : DateTime) : ∃ b, bucketDayUtc ts = .ok (some b) ∧ b.Whole ∧
    b.timestamp = ts.timestamp / day * day := by
  have hbounds := ts.timestamp_bounds
  have hday : minTimestamp ≤ ts.timestamp / day * day ∧ ts.timestamp / day * day ≤ maxTimestamp := by
    simp only [minTimestamp, maxTimestamp, day] at *
    omega
  have hfits : InI64 (ts.timestamp / day * day) := by
    simp only [InI64, minTimestamp, maxTimestamp] at *
    omega
  have hb : DateTime.fromTimestamp (ts.timestamp / day * day) = some (.ofTimestamp _ hday) :=
    dif_pos hday
  refine ⟨_, ?_, DateTime.whole_of_fromTimestamp hb⟩
  rw [bucketDayUtc, i64_bind, if_pos hfits, hb]
  rfl

/-- The bucket function gives the instant at which the bucket opens. -/
theorem bucketWithTz_spec {ts : DateTime} (hlocal : LocalInCalendar tz ts) :
    ∃ b, period.bucketWithTz tz ts = .ok (some b) ∧ b.Whole ∧
      period.OpensAt tz ts.timestamp b.timestamp := by
  have hinstants := fromLocal_fromLocalDatetime tz (period.midnight tz ts.timestamp)
  rw [bucketWithTz, dateNaive_bind, if_pos hlocal, localMidnightUtcForDate]
  cases hl : fromLocalDatetime tz (period.opening (tz.wall ts.timestamp / day) * day) with
  | none =>
    rw [midnight, hl] at hinstants
    cases hinstants with
    | none hnot =>
      obtain ⟨b, hb, hwhole, hts⟩ := bucketDayUtc_eq_some ts
      exact ⟨b, hb, hwhole, hts ▸ .skipped hnot⟩
  | single dt =>
    rw [midnight, hl] at hinstants
    cases hinstants with
    | single hshown hwhole hiff =>
      exact ⟨dt, rfl, hwhole, .shown hshown ((hiff _).2 rfl) fun x hx => ((hiff x).1 hx).ge⟩
  | ambiguous dt₁ dt₂ =>
    rw [midnight, hl] at hinstants
    cases hinstants with
    | ambiguous hshown hwhole _ hlt hiff =>
      refine ⟨dt₁, rfl, hwhole, .shown hshown ((hiff _).2 (.inl rfl)) fun x hx => ?_⟩
      rcases (hiff x).1 hx with rfl | rfl
      · exact le_rfl
      · exact hlt.le

/-- The bucket function panics on a local time outside the calendar. -/
theorem bucketWithTz_isOk_iff (ts : DateTime) :
    (∃ b, period.bucketWithTz tz ts = .ok b) ↔ LocalInCalendar tz ts := by
  constructor
  · rintro ⟨b, hb⟩
    rw [bucketWithTz, dateNaive_bind] at hb
    split_ifs at hb with hlocal
    exact hlocal
  · intro hlocal
    obtain ⟨b, hb, -⟩ := bucketWithTz_spec hlocal
    exact ⟨some b, hb⟩

/-- Where the clock has run through since both midnights, the group of the earlier instant opens
before that of the later. -/
theorem RunsThrough.lt {t t' b b' : ℤ} (hle : t ≤ t') (hne : period.firstDay tz t ≠ period.firstDay tz t')
    (h : period.RunsThrough tz t) (h' : period.RunsThrough tz t') (hb : period.OpensAt tz t b)
    (hb' : period.OpensAt tz t' b') : b < b' := by
  obtain ⟨hshown, e, he, hfirst, hele, -⟩ := h
  obtain ⟨hshown', e', he', hfirst', hele', hoff⟩ := h'
  obtain rfl := hb.unique (.shown hshown he hfirst)
  obtain rfl := hb'.unique (.shown hshown' he' hfirst')
  by_contra hnot
  -- otherwise the clock has not changed between the two instants
  have hwall := hoff t (by omega) hle
  have hwall' := hoff b' le_rfl (by omega)
  refine hne (period.first_eq _ _ ?_ ?_)
  · have hfirst := period.first_le_opening (tz.wall t' / day)
    rw [midnight] at he'
    simp only [WallClock.Clock.wall, day] at *
    omega
  · simp only [WallClock.Clock.wall, day] at *
    omega

end Period

/-! ## The grouping -/

section
variable {A : Type}

/-- What keeps the local days, or weeks, of the candles together and in order. -/
structure KeepsGroups (period : Period) (tz : Tz) (candles : List (Candle A)) : Prop where
  /-- The local times are in the calendar. -/
  inCalendar : ∀ c ∈ candles, LocalInCalendar tz c.ts
  /-- A group whose midnight the clock does not show lies within one UTC day. -/
  oneDay : ∀ u ∈ candles, ∀ v ∈ candles,
    period.firstDay tz u.ts.timestamp = period.firstDay tz v.ts.timestamp →
    period.midnight tz u.ts.timestamp = period.midnight tz v.ts.timestamp →
    ¬ ShownInCalendar tz (period.midnight tz u.ts.timestamp) →
    u.ts.timestamp / day = v.ts.timestamp / day
  /-- The days of a group that starts before the calendar open at one instant. -/
  oneOpening : ∀ u ∈ candles, ∀ v ∈ candles,
    period.firstDay tz u.ts.timestamp = period.firstDay tz v.ts.timestamp →
    period.midnight tz u.ts.timestamp ≠ period.midnight tz v.ts.timestamp →
    ∀ b b', period.OpensAt tz u.ts.timestamp b → period.OpensAt tz v.ts.timestamp b' → b = b'
  /-- The groups that the clock has not run through open in the order of their candles. -/
  inOrder : ∀ u ∈ candles, ∀ v ∈ candles, u.ts ≤ v.ts →
    period.firstDay tz u.ts.timestamp ≠ period.firstDay tz v.ts.timestamp →
    ¬ (period.RunsThrough tz u.ts.timestamp ∧ period.RunsThrough tz v.ts.timestamp) →
    ∀ b b', period.OpensAt tz u.ts.timestamp b → period.OpensAt tz v.ts.timestamp b' → b < b'

variable {period : Period} {tz : Tz} {candles : List (Candle A)}

/-- Buckets that open at one midnight open at one instant, if it is shown or they are of one UTC
day. -/
theorem Period.OpensAt.eq_of_midnight_eq {t t' b b' : ℤ}
    (heq : period.midnight tz t = period.midnight tz t')
    (hday : ¬ ShownInCalendar tz (period.midnight tz t) → t / day = t' / day)
    (hb : period.OpensAt tz t b) (hb' : period.OpensAt tz t' b') : b = b' := by
  cases hb with
  | shown hshown hx hfirst =>
    cases hb' with
    | shown _ hy hfirst' =>
      exact le_antisymm (hfirst b' (hy.trans heq.symm)) (hfirst' b (hx.trans heq))
    | skipped hnot => exact absurd (heq ▸ hshown) hnot
  | skipped hnot =>
    rw [hday hnot]
    exact (hb'.unique (.skipped (heq ▸ hnot))).symm

/-- The candles of a group that is kept have one bucket. -/
theorem KeepsGroups.bucket_eq (h : KeepsGroups period tz candles) {u v : Candle A}
    (hu : u ∈ candles) (hv : v ∈ candles)
    (heq : period.firstDay tz u.ts.timestamp = period.firstDay tz v.ts.timestamp) :
    period.bucketWithTz tz u.ts = period.bucketWithTz tz v.ts := by
  obtain ⟨b, hb, hwhole, hopens⟩ := Period.bucketWithTz_spec (h.inCalendar u hu)
  obtain ⟨b', hb', hwhole', hopens'⟩ := Period.bucketWithTz_spec (h.inCalendar v hv)
  rw [hb, hb', hwhole.eq_of_timestamp_eq hwhole']
  by_cases hmid : period.midnight tz u.ts.timestamp = period.midnight tz v.ts.timestamp
  · exact hopens.eq_of_midnight_eq hmid (h.oneDay u hu v hv heq hmid) hopens'
  · exact h.oneOpening u hu v hv heq hmid _ _ hopens hopens'

/-- Groups that are kept open in the order of their candles. -/
theorem KeepsGroups.bucket_lt (h : KeepsGroups period tz candles) {u v : Candle A}
    (hu : u ∈ candles) (hv : v ∈ candles) (hle : u.ts ≤ v.ts)
    (hne : period.firstDay tz u.ts.timestamp ≠ period.firstDay tz v.ts.timestamp)
    {b b' : DateTime} (hb : period.bucketWithTz tz u.ts = .ok (some b))
    (hb' : period.bucketWithTz tz v.ts = .ok (some b')) : b < b' := by
  obtain ⟨_, hb₁, hwhole, hopens⟩ := Period.bucketWithTz_spec (h.inCalendar u hu)
  obtain ⟨_, hb₂, hwhole', hopens'⟩ := Period.bucketWithTz_spec (h.inCalendar v hv)
  obtain rfl : b = _ := by simpa using hb.symm.trans hb₁
  obtain rfl : b' = _ := by simpa using hb'.symm.trans hb₂
  rw [← not_le, hwhole'.le_iff hwhole, not_le]
  by_cases hruns : period.RunsThrough tz u.ts.timestamp ∧ period.RunsThrough tz v.ts.timestamp
  · exact hruns.1.lt (DateTime.timestamp_mono hle) hne hruns.2 hopens hopens'
  · exact h.inOrder u hu v hv hle hne hruns _ _ hopens hopens'

/-- The groups are kept exactly when the local times are in the calendar, the buckets are in order and
those of two candles are the same if and only if the candles belong to one group. -/
theorem keepsGroups_iff : KeepsGroups period tz candles ↔
    (∀ c ∈ candles, LocalInCalendar tz c.ts) ∧
    BucketsInOrder (period.bucketWithTz tz) candles ∧ ∀ u ∈ candles, ∀ v ∈ candles,
      period.bucketWithTz tz u.ts = period.bucketWithTz tz v.ts ↔
        period.firstDay tz u.ts.timestamp = period.firstDay tz v.ts.timestamp := by
  constructor
  · intro h
    refine ⟨h.inCalendar, fun u hu v hv hle b b' hb hb' => ?_,
      fun u hu v hv => ⟨fun heq => ?_, h.bucket_eq hu hv⟩⟩
    · by_cases hgroup : period.firstDay tz u.ts.timestamp = period.firstDay tz v.ts.timestamp
      · have hbucket := h.bucket_eq hu hv hgroup
        rw [hb, hb', Except.ok.injEq, Option.some.injEq] at hbucket
        exact hbucket.le
      · exact (h.bucket_lt hu hv hle hgroup hb hb').le
    · obtain ⟨b, hb, -⟩ := Period.bucketWithTz_spec (h.inCalendar u hu)
      have hb' := heq ▸ hb
      by_contra hne
      rcases le_total u.ts v.ts with hle | hle
      · exact lt_irrefl b (h.bucket_lt hu hv hle hne hb hb')
      · exact lt_irrefl b (h.bucket_lt hv hu hle (Ne.symm hne) hb' hb)
  · rintro ⟨hlocal, horder, hgroup⟩
    have hspec : ∀ c ∈ candles, ∃ b, period.bucketWithTz tz c.ts = .ok (some b) ∧ b.Whole ∧
        period.OpensAt tz c.ts.timestamp b.timestamp :=
      fun c hc => Period.bucketWithTz_spec (hlocal c hc)
    have hopening : ∀ u ∈ candles, ∀ v ∈ candles,
        period.firstDay tz u.ts.timestamp = period.firstDay tz v.ts.timestamp → ∀ b b',
        period.OpensAt tz u.ts.timestamp b → period.OpensAt tz v.ts.timestamp b' → b = b' := by
      intro u hu v hv heq b b' hopens hopens'
      obtain ⟨c, hc, -, hopensc⟩ := hspec u hu
      obtain ⟨c', hc', -, hopensc'⟩ := hspec v hv
      have hbucket := (hgroup u hu v hv).2 heq
      rw [hc, hc', Except.ok.injEq, Option.some.injEq] at hbucket
      rw [hopens.unique hopensc, hopens'.unique hopensc', hbucket]
    refine ⟨hlocal, ?_, fun u hu v hv heq _ => hopening u hu v hv heq, ?_⟩
    · intro u hu v hv heq hmid hnot
      have hday := hopening u hu v hv heq _ _ (.skipped hnot) (.skipped (hmid ▸ hnot))
      simp only [day] at *
      omega
    · intro u hu v hv hle hne _ b b' hopens hopens'
      obtain ⟨c, hc, hwhole, hopensc⟩ := hspec u hu
      obtain ⟨c', hc', hwhole', hopensc'⟩ := hspec v hv
      rw [hopens.unique hopensc, hopens'.unique hopensc', ← not_le, ← hwhole'.le_iff hwhole, not_le]
      refine (horder u hu v hv hle c c' hc hc').lt_of_ne fun heq => hne ?_
      rw [← hgroup u hu v hv, hc, hc', heq]

variable [LinearOrder A] [ToString DateTime]

/-- The result is the candles of the runs of one bucket; they ascend, and two candles are put
together if and only if they belong to one group. -/
structure ResamplesLocally (period : Period) (tz : Tz) (candles : List (Candle A))
    (result : Except Failure (List (Candle A))) : Prop where
  returns : result =
    .ok ((Runs.runs Prod.fst (tagged (period.bucketWithTz tz) candles)).filterMap bucketCandle)
  ascending : ∀ out, result = .ok out → Ascending out
  together_iff : ∀ u ∈ candles, ∀ v ∈ candles,
    PutTogether (period.bucketWithTz tz) candles u v ↔
      period.firstDay tz u.ts.timestamp = period.firstDay tz v.ts.timestamp

omit [LinearOrder A] [ToString DateTime] in
/-- Where the buckets are in order, candles are put together when they have one bucket. -/
theorem putTogether_iff_of_sorted
    (hsorted : (tagged (period.bucketWithTz tz) candles).Pairwise fun x y => x.1 ≤ y.1)
    {u v : Candle A} (hu : u ∈ candles) (hv : v ∈ candles) (hlocal : LocalInCalendar tz u.ts) :
    PutTogether (period.bucketWithTz tz) candles u v ↔
      period.bucketWithTz tz u.ts = period.bucketWithTz tz v.ts := by
  constructor
  · intro htogether
    obtain ⟨b, hb, hb'⟩ := htogether.exists_bucket
    rw [hb, hb']
  · intro heq
    obtain ⟨b, hb, -⟩ := Period.bucketWithTz_spec hlocal
    exact putTogether_of_sorted hsorted hu hv hb (heq ▸ hb)

theorem resamplesLocally_iff (hcur : SingleCurrency candles) :
    ResamplesLocally period tz candles (resampleBy candles (period.bucketWithTz tz)) ↔
      KeepsGroups period tz candles := by
  have htotal : Total (period.bucketWithTz tz) candles ↔ ∀ c ∈ candles, LocalInCalendar tz c.ts :=
    forall₂_congr fun c _ => Period.bucketWithTz_isOk_iff c.ts
  rw [keepsGroups_iff]
  constructor
  · intro h
    have hlocal := htotal.1 (resampleBy_eq_ok.1 h.returns).1
    have horder := (resampleBy_ascending_iff hcur (htotal.2 hlocal)).1 h.ascending
    refine ⟨hlocal, horder, fun u hu v hv => ?_⟩
    rw [← h.together_iff u hu v hv,
      putTogether_iff_of_sorted (pairwise_tagged_iff.2 horder) hu hv (hlocal u hu)]
  · rintro ⟨hlocal, horder, hgroup⟩
    have htotal := htotal.2 hlocal
    refine ⟨resampleBy_of_singleCurrency hcur htotal,
      (resampleBy_ascending_iff hcur htotal).2 horder, fun u hu v hv => ?_⟩
    rw [putTogether_iff_of_sorted (pairwise_tagged_iff.2 horder) hu hv (hlocal u hu),
      hgroup u hu v hv]

/-- In a time zone, candles are grouped by local day and by local week in the order of time exactly
when their local times are in the calendar, a day or week whose midnight the clock does not show lies
within one UTC day, a week that starts before the calendar opens at one instant, and the days and
weeks that the clock has not run through open in the order of their candles. -/
theorem resampleLocal_iff {utcOffsetSeconds : Option ℤ} (hcur : SingleCurrency candles) :
    (ResamplesLocally .days tz candles
        (resampleToDailyWithMeta candles (some ⟨some tz, utcOffsetSeconds⟩)) ↔
      KeepsGroups .days tz candles) ∧
    (ResamplesLocally .weeks tz candles
        (resampleToWeeklyWithMeta candles (some ⟨some tz, utcOffsetSeconds⟩)) ↔
      KeepsGroups .weeks tz candles) := by
  have hdaily : resampleToDailyWithMeta candles (some ⟨some tz, utcOffsetSeconds⟩) =
      resampleBy candles (Period.days.bucketWithTz tz) :=
    congrArg (resampleBy candles) (funext fun ts => (Period.bucketWithTz_days ts).symm)
  have hweekly : resampleToWeeklyWithMeta candles (some ⟨some tz, utcOffsetSeconds⟩) =
      resampleBy candles (Period.weeks.bucketWithTz tz) :=
    congrArg (resampleBy candles) (funext fun ts => (Period.bucketWithTz_weeks ts).symm)
  rw [hdaily, hweekly]
  exact ⟨resamplesLocally_iff hcur, resamplesLocally_iff hcur⟩

/-! ## Clocks that keep the date -/

omit [LinearOrder A] [ToString DateTime]

/-- Away from the ends of the calendar, and with groups of at most a week, the bucket of an instant
opens with the first day of its group. -/
theorem Period.opening_eq_first {t : ℤ} (hweek : ∀ d, d - 6 ≤ period.first d)
    (hwithin : tz.Within day) (hmin : minTimestamp + 9 * day ≤ t)
    (hmax : t ≤ maxTimestamp - 2 * day) :
    period.opening (tz.wall t / day) = period.firstDay tz t := by
  have := hweek (tz.wall t / day)
  have := period.first_le (tz.wall t / day)
  have := hwithin.lt_wall t
  have := hwithin.wall_lt t
  rw [opening_eq, if_pos]
  · rfl
  · simp only [day] at *
    omega

/-- There a clock that is never moved over midnight shows the midnight of each group. -/
theorem Period.shown_of_keepsDate {t : ℤ} (hweek : ∀ d, d - 6 ≤ period.first d)
    (hwithin : tz.Within day) (hkeeps : tz.KeepsDate day) (hmin : minTimestamp + 9 * day ≤ t)
    (hmax : t ≤ maxTimestamp - 2 * day) : ShownInCalendar tz (period.midnight tz t) := by
  have := hweek (tz.wall t / day)
  have := period.first_le (tz.wall t / day)
  have := hwithin.lt_wall t
  have := hwithin.wall_lt t
  refine ⟨hkeeps.exists_midnight (by decide) hwithin _, fun x hx => ?_⟩
  have := hwithin.lt_wall x
  have := hwithin.wall_lt x
  rw [midnight, opening_eq_first hweek hwithin hmin hmax, firstDay] at hx
  simp only [day] at *
  omega

/-- Groups that are in the order of the dates open in this order. -/
theorem Period.lt_of_keepsDate {t t' b b' : ℤ} (hkeeps : tz.KeepsDate day) (hle : t ≤ t')
    (hne : period.firstDay tz t ≠ period.firstDay tz t')
    (hb : tz.wall b = period.firstDay tz t * day) (hb' : tz.wall b' = period.firstDay tz t' * day) :
    b < b' := by
  have hdate : tz.wall t / day < period.firstDay tz t' := by
    by_contra hnot
    exact hne (period.first_eq _ _ (not_lt.1 hnot) (hkeeps.date_mono (by decide) hle))
  have hfirst := period.first_le (tz.wall t / day)
  rw [← not_le]
  intro hback
  have hdates := hkeeps.date_mono (by decide) hback
  simp only [hb, hb', firstDay, day] at *
  omega

/-- Away from the ends of the calendar, a clock that is never moved over midnight keeps the groups. -/
theorem keepsGroups_of_keepsDate (hweek : ∀ d, d - 6 ≤ period.first d) (hwithin : tz.Within day)
    (hkeeps : tz.KeepsDate day) (hinside : ∀ c ∈ candles, minTimestamp + 9 * day ≤ c.ts.timestamp ∧
      c.ts.timestamp ≤ maxTimestamp - 2 * day) : KeepsGroups period tz candles := by
  have hshown : ∀ c ∈ candles, ShownInCalendar tz (period.midnight tz c.ts.timestamp) := fun c hc =>
    Period.shown_of_keepsDate hweek hwithin hkeeps (hinside c hc).1 (hinside c hc).2
  have hmidnight : ∀ c ∈ candles,
      period.midnight tz c.ts.timestamp = period.firstDay tz c.ts.timestamp * day := fun c hc =>
    congrArg (· * day) (Period.opening_eq_first hweek hwithin (hinside c hc).1 (hinside c hc).2)
  have hopens : ∀ c ∈ candles, ∀ b, period.OpensAt tz c.ts.timestamp b →
      tz.wall b = period.firstDay tz c.ts.timestamp * day := by
    intro c hc b hb
    cases hb with
    | shown _ hb _ => rw [hb, hmidnight c hc]
    | skipped hnot => exact absurd (hshown c hc) hnot
  constructor
  case inCalendar =>
    intro c hc
    have := hwithin.lt_wall c.ts.timestamp
    have := hwithin.wall_lt c.ts.timestamp
    have := hinside c hc
    simp only [LocalInCalendar, day] at *
    omega
  case oneDay => exact fun u hu v _ _ _ hnot => absurd (hshown u hu) hnot
  case oneOpening =>
    intro u hu v hv heq hne
    exact absurd (by rw [hmidnight u hu, hmidnight v hv, heq]) hne
  case inOrder =>
    intro u hu v hv hle hne _ b b' hb hb'
    exact Period.lt_of_keepsDate hkeeps (DateTime.timestamp_mono hle) hne (hopens u hu b hb)
      (hopens v hv b' hb')

variable [LinearOrder A] [ToString DateTime]

/-- Away from the ends of the calendar, the local days and weeks of a clock that is never moved over
midnight are grouped as they should be. -/
theorem resampleLocal_of_keepsDate {utcOffsetSeconds : Option ℤ} (hcur : SingleCurrency candles)
    (hwithin : tz.Within day) (hkeeps : tz.KeepsDate day)
    (hinside : ∀ c ∈ candles, minTimestamp + 9 * day ≤ c.ts.timestamp ∧
      c.ts.timestamp ≤ maxTimestamp - 2 * day) :
    ResamplesLocally .days tz candles
        (resampleToDailyWithMeta candles (some ⟨some tz, utcOffsetSeconds⟩)) ∧
      ResamplesLocally .weeks tz candles
        (resampleToWeeklyWithMeta candles (some ⟨some tz, utcOffsetSeconds⟩)) := by
  obtain ⟨hdays, hweeks⟩ := @resampleLocal_iff A tz candles _ _ utcOffsetSeconds hcur
  refine ⟨hdays.2 (keepsGroups_of_keepsDate (fun d => ?_) hwithin hkeeps hinside),
    hweeks.2 (keepsGroups_of_keepsDate (fun d => ?_) hwithin hkeeps hinside)⟩
  · simp [Period.days]
  · simp only [Period.weeks, weekStartDay]
    omega

end

section
local instance textDays : ToString DateTime := ⟨fun ts => toString ts.nanos⟩

/-- A zone five hours behind UTC, whose clock is put forward from midnight to one o'clock. -/
def skipsMidnight : Tz := .oneChange 18000 (-18000) (-14400)

/-- Candles of the day without midnight, on two UTC days. -/
def onDayWithoutMidnight : List (Candle ℕ) :=
  [.flat (.ofTimestamp 20000 (by decide)) ⟨1, ⟨"USD"⟩⟩,
    .flat (.ofTimestamp 90000 (by decide)) ⟨1, ⟨"USD"⟩⟩]

theorem resampleLocal_iff_skipsMidnight :
    (ResamplesLocally .days skipsMidnight onDayWithoutMidnight
        (resampleToDailyWithMeta onDayWithoutMidnight (some ⟨some skipsMidnight, none⟩)) ↔
      KeepsGroups .days skipsMidnight onDayWithoutMidnight) ∧
    (ResamplesLocally .weeks skipsMidnight onDayWithoutMidnight
        (resampleToWeeklyWithMeta onDayWithoutMidnight (some ⟨some skipsMidnight, none⟩)) ↔
      KeepsGroups .weeks skipsMidnight onDayWithoutMidnight) :=
  resampleLocal_iff ⟨⟨"USD"⟩, by decide⟩

/-- The day without midnight becomes two candles. -/
theorem not_resampleLocal :
    ¬ ∀ (tz : Tz) (candles : List (Candle ℕ)), SingleCurrency candles →
      ResamplesLocally .days tz candles (resampleToDailyWithMeta candles (some ⟨some tz, none⟩)) := by
  intro h
  have hlocal := h skipsMidnight onDayWithoutMidnight ⟨⟨"USD"⟩, by decide⟩
  obtain ⟨b, hb, hb'⟩ := ((hlocal.together_iff _ (List.mem_cons_self) _
    (List.mem_cons_of_mem _ List.mem_cons_self)).2 rfl).exists_bucket
  have hfirst : bucketDayWithTz (.ofTimestamp 20000 (by decide)) skipsMidnight =
      .ok (some (.ofTimestamp 0 (by decide))) := rfl
  have hsecond : bucketDayWithTz (.ofTimestamp 90000 (by decide)) skipsMidnight =
      .ok (some (.ofTimestamp 86400 (by decide))) := rfl
  have heq := (hfirst.symm.trans hb).trans (hb'.symm.trans hsecond)
  have hnanos := congrArg DateTime.nanos (Option.some.inj (Except.ok.inj heq))
  revert hnanos
  decide

end

end Borsa
