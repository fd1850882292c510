import Borsa.Timeseries.LocalTime

/-!
# Minutes in a time zone

Where the bucket of an instant opens, told from what the clock of the time zone shows (`OpensAt`):
where it showed the local start of the bucket with the instant's own offset, else where it last shows
it, else on the grid of UTC. If the clock has run through since the start of the bucket, the first of
these applies. The order of the buckets can break only at an instant where it has not
(`minutes_ascending_iff`), and after the clock is put back it does. It cannot break, away from the ends of
the calendar, in a zone whose clock is only ever changed to the start of a bucket
(`minutes_ascending_of_changesAtStarts`).
-/

namespace Borsa

/-- The local time at which the bucket of a local time starts; buckets are counted from midnight. -/
def localStart (step w : ℤ) : ℤ := w / day * day + (w % day - w % day % step)

/-- The instant of the local start of the bucket of `t`, by the offset at `t`. -/
def ownStart (tz : Tz) (step t : ℤ) : ℤ := localStart step (tz.wall t) - tz.offsetAt t

/-- The bucket of the instant `t` opens at an instant. -/
inductive OpensAt (tz : Tz) (step t : ℤ) : ℤ → Prop where
  /-- The clock showed the local start with the offset at `t`. -/
  | own : ShownInCalendar tz (localStart step (tz.wall t)) →
      tz.wall (ownStart tz step t) = localStart step (tz.wall t) →
      OpensAt tz step t (ownStart tz step t)
  /-- The clock shows the local start only with other offsets. -/
  | last {b : ℤ} : ShownInCalendar tz (localStart step (tz.wall t)) →
      tz.wall (ownStart tz step t) ≠ localStart step (tz.wall t) →
      tz.wall b = localStart step (tz.wall t) →
      (∀ x, tz.wall x = localStart step (tz.wall t) → x ≤ b) → OpensAt tz step t b
  /-- The clock does not show the local start. -/
  | skipped : ¬ ShownInCalendar tz (localStart step (tz.wall t)) → minTimestamp ≤ t - t % step →
      OpensAt tz step t (t - t % step)

/-- The clock has run through, at one offset, since the local start of the bucket of `t`. -/
def RunsThrough (tz : Tz) (step t : ℤ) : Prop :=
  ShownInCalendar tz (localStart step (tz.wall t)) ∧
    ∀ x, ownStart tz step t ≤ x → x ≤ t → tz.offsetAt x = tz.offsetAt t

theorem OpensAt.unique {tz : Tz} {step t b b' : ℤ} (h : OpensAt tz step t b)
    (h' : OpensAt tz step t b') : b = b' := by
  cases h with
  | own hshown hown =>
    cases h' with
    | own => rfl
    | last _ hnot => exact absurd hown hnot
    | skipped hnot => exact absurd hshown hnot
  | last hshown hnot hb hlast =>
    cases h' with
    | own _ hown => exact absurd hown hnot
    | last _ _ hb' hlast' => exact le_antisymm (hlast' b hb) (hlast b' hb')
    | skipped hnot => exact absurd hshown hnot
  | skipped hnot =>
    cases h' with
    | own hshown => exact absurd hshown hnot
    | last hshown => exact absurd hshown hnot
    | skipped => rfl

/-- Of the instants that show the local start, the one with the offset at `t` is its own start. -/
theorem ownStart_eq_iff {tz : Tz} {step t b : ℤ} (hb : tz.wall b = localStart step (tz.wall t)) :
    ownStart tz step t = b ↔ tz.offsetAt b = tz.offsetAt t := by
  rw [ownStart, ← hb, WallClock.Clock.wall]
  omega

/-- The bucket opens at the last instant that shows the local start, if its own start is that or is
not shown. -/
theorem opensAt_of_last {tz : Tz} {step t b : ℤ}
    (hshown : ShownInCalendar tz (localStart step (tz.wall t)))
    (hb : tz.wall b = localStart step (tz.wall t))
    (hlast : ∀ x, tz.wall x = localStart step (tz.wall t) → x ≤ b)
    (hown : tz.wall (ownStart tz step t) = localStart step (tz.wall t) → ownStart tz step t = b) :
    OpensAt tz step t b := by
  by_cases h : tz.wall (ownStart tz step t) = localStart step (tz.wall t)
  · rw [← hown h]
    exact .own hshown h
  · exact .last hshown h hb hlast

/-- The grid of UTC does not leave `i64`. -/
theorem inI64_sub_emod {step : ℤ} (hpos : 0 < step) (hstep : InI64 step) (ts : DateTime) :
    InI64 (ts.timestamp - ts.timestamp % step) := by
  have hnonneg := Int.emod_nonneg ts.timestamp hpos.ne'
  have hlt := Int.emod_lt_of_pos ts.timestamp hpos
  have hbounds := ts.timestamp_bounds
  simp only [InI64, minTimestamp, maxTimestamp] at *
  by_cases h : ts.timestamp < 0 ∧ -step ≤ ts.timestamp
  · -- the multiple of the step below is `-step`
    have hmod : ts.timestamp % step = ts.timestamp + step := by
      rw [← Int.add_emod_right]
      exact Int.emod_eq_of_lt (by omega) (by omega)
    omega
  · omega

section
variable {tz : Tz} {n : ℤ}

/-- A whole second at which the bucket opens is the only one. -/
theorem some_eq_iff_opensAt {step t : ℤ} {dt b : DateTime} (hwhole : dt.Whole)
    (hopens : OpensAt tz step t dt.timestamp) :
    some dt = some b ↔ b.Whole ∧ OpensAt tz step t b.timestamp := by
  constructor
  · rintro ⟨⟩
    exact ⟨hwhole, hopens⟩
  · rintro ⟨hwhole', hopens'⟩
    rw [hwhole.eq_of_timestamp_eq hwhole' (hopens.unique hopens')]

/-- Where the clock does not show the local start, the bucket opens on the grid of UTC. -/
theorem fromTimestamp_eq_some_iff_opensAt {step t : ℤ} {b : DateTime}
    (hnot : ¬ ShownInCalendar tz (localStart step (tz.wall t))) :
    DateTime.fromTimestamp (t - t % step) = some b ↔ b.Whole ∧ OpensAt tz step t b.timestamp := by
  constructor
  · intro hb
    obtain ⟨hwhole, hts⟩ := DateTime.whole_of_fromTimestamp hb
    rw [hts]
    exact ⟨hwhole, .skipped hnot (hts ▸ b.timestamp_bounds.1)⟩
  · rintro ⟨hwhole, hopens⟩
    generalize hb : b.timestamp = x at hopens
    cases hopens with
    | own hshown => exact absurd hshown hnot
    | last hshown => exact absurd hshown hnot
    | skipped =>
      rw [DateTime.fromTimestamp_eq_some, hwhole, hb]

/-- The bucket function gives the instant at which the bucket opens. -/
theorem bucketMinutesWithTz_spec (hn : 0 < n) (hstep : InI64 (n * 60)) {ts : DateTime}
    (hlocal : LocalInCalendar tz ts) : ∃ r, bucketMinutesWithTz ts n tz = .ok r ∧
      ∀ b, r = some b ↔ b.Whole ∧ OpensAt tz (n * 60) ts.timestamp b.timestamp := by
  have hpos : 0 < n * 60 := by omega
  have hinstants := fromLocal_fromLocalDatetime tz (localStart (n * 60) (tz.wall ts.timestamp))
  simp only [bucketMinutesWithTz, i64_bind, if_pos hstep, dateNaive_bind, if_pos hlocal]
  cases hl : fromLocalDatetime tz (localStart (n * 60) (tz.wall ts.timestamp)) with
  | none =>
    rw [hl] at hinstants
    simp only [localStart] at hl
    cases hinstants with
    | none hnot =>
      simp only [hl, inI64_sub_emod hpos hstep ts, if_true]
      exact ⟨_, rfl, fun b => fromTimestamp_eq_some_iff_opensAt hnot⟩
  | single dt =>
    rw [hl] at hinstants
    simp only [localStart] at hl
    cases hinstants with
    | single hshown hwhole hiff =>
      simp only [hl]
      refine ⟨_, rfl, fun b => some_eq_iff_opensAt hwhole ?_⟩
      exact opensAt_of_last hshown ((hiff _).2 rfl) (fun x hx => ((hiff x).1 hx).le) (hiff _).1
  | ambiguous dt₁ dt₂ =>
    rw [hl] at hinstants
    simp only [localStart] at hl
    cases hinstants with
    | ambiguous hshown hwhole₁ hwhole₂ hlt hiff =>
      simp only [hl]
      have h₁ : tz.wall dt₁.timestamp = localStart (n * 60) (tz.wall ts.timestamp) :=
        (hiff _).2 (.inl rfl)
      have h₂ : tz.wall dt₂.timestamp = localStart (n * 60) (tz.wall ts.timestamp) :=
        (hiff _).2 (.inr rfl)
      by_cases hoff : tz.offsetAt dt₁.timestamp = tz.offsetAt ts.timestamp
      · -- the earlier instant has the offset of the candle
        simp only [if_pos hoff]
        refine ⟨_, rfl, fun b => some_eq_iff_opensAt hwhole₁ ?_⟩
        have hown := (ownStart_eq_iff h₁).2 hoff
        rw [← hown]
        exact .own hshown (by rw [hown, h₁])
      · simp only [if_neg hoff]
        refine ⟨_, rfl, fun b => some_eq_iff_opensAt hwhole₂ ?_⟩
        refine opensAt_of_last hshown h₂ (fun x hx => ?_) fun hown => ?_
        · rcases (hiff x).1 hx with rfl | rfl
          · exact hlt.le
          · exact le_rfl
        · exact ((hiff _).1 hown).resolve_left fun h => hoff ((ownStart_eq_iff h₁).1 h)

/-- The bucket function panics on an overflow of the bucket length and on a local time outside the
calendar. -/
theorem bucketMinutesWithTz_isOk_iff (hn : 0 < n) (ts : DateTime) :
    (∃ r, bucketMinutesWithTz ts n tz = .ok r) ↔ InI64 (n * 60) ∧ LocalInCalendar tz ts := by
  constructor
  · rintro ⟨r, hr⟩
    rw [bucketMinutesWithTz, i64_bind] at hr
    simp only [dateNaive_bind] at hr
    split_ifs at hr with hstep hlocal
    exact ⟨hstep, hlocal⟩
  · rintro ⟨hstep, hlocal⟩
    obtain ⟨r, hr, -⟩ := bucketMinutesWithTz_spec hn hstep hlocal
    exact ⟨r, hr⟩

/-- Local starts are not before midnight. -/
theorem midnight_le_localStart {step : ℤ} (hpos : 0 < step) (w : ℤ) :
    w / day * day ≤ localStart step w := by
  have hdiv := Int.ediv_nonneg (Int.emod_nonneg w (by decide : day ≠ 0)) hpos.le
  have := Int.mul_nonneg hpos.le hdiv
  have := Int.mul_ediv_add_emod (w % day) step
  simp only [localStart]
  omega

/-- Local starts are in the order of local times. -/
theorem localStart_mono {step w w' : ℤ} (hpos : 0 < step) (h : w ≤ w') :
    localStart step w ≤ localStart step w' := by
  have hle := Int.emod_nonneg (w % day) hpos.ne'
  have hself := midnight_le_localStart hpos w'
  simp only [localStart] at *
  rcases (Int.ediv_le_ediv (by decide : 0 < day) h).lt_or_eq with hlt | heq
  · -- the later local time is on a later day
    simp only [day] at *
    omega
  · have hmod : w % day ≤ w' % day := by
      simp only [day] at *
      omega
    have hdiv := Int.mul_le_mul_of_nonneg_left (Int.ediv_le_ediv hpos hmod) hpos.le
    have := Int.mul_ediv_add_emod (w % day) step
    have := Int.mul_ediv_add_emod (w' % day) step
    rw [heq]
    omega

theorem localStart_le {step : ℤ} (hpos : 0 < step) (w : ℤ) : localStart step w ≤ w := by
  have := Int.emod_nonneg (w % day) hpos.ne'
  simp only [localStart, day] at *
  omega

section
variable {step : ℤ} (hpos : 0 < step)
include hpos

theorem ownStart_le (t : ℤ) : ownStart tz step t ≤ t := by
  have := localStart_le hpos (tz.wall t)
  simp only [ownStart, WallClock.Clock.wall] at *
  omega

/-- Where the clock has run through, the bucket opens at its local start. -/
theorem RunsThrough.eq_ownStart {t b : ℤ} (h : RunsThrough tz step t) (hb : OpensAt tz step t b) :
    b = ownStart tz step t := by
  refine hb.unique (.own h.1 ?_)
  rw [WallClock.Clock.wall, h.2 _ le_rfl (ownStart_le hpos t), ownStart]
  ring

/-- Buckets since whose local start the clock has run through are in order. -/
theorem RunsThrough.ownStart_le_ownStart {t t' : ℤ} (hle : t ≤ t')
    (h' : RunsThrough tz step t') : ownStart tz step t ≤ ownStart tz step t' := by
  by_cases hlt : t < ownStart tz step t'
  · exact (ownStart_le hpos t).trans hlt.le
  · -- the clock has not changed between the two instants
    have hoff := h'.2 t (by omega) hle
    have hwall : tz.wall t ≤ tz.wall t' := by
      simp only [WallClock.Clock.wall]
      omega
    have hstart := localStart_mono hpos hwall
    simp only [ownStart]
    omega

end

end

/-! ## Changes of the clock -/

/-- The clock is only ever changed to local times at which a bucket starts. -/
def ChangesAtStarts (tz : Tz) (step : ℤ) : Prop :=
  ∀ t, tz.offsetAt (t - 1) ≠ tz.offsetAt t → localStart step (tz.wall t) = tz.wall t

theorem changesAtStarts_oneChange {step change before after : ℤ} :
    ChangesAtStarts (.oneChange change before after) step ↔
      (before ≠ after → localStart step (change + after) = change + after) := by
  simp only [ChangesAtStarts, WallClock.Clock.wall, WallClock.Clock.oneChange]
  constructor
  · intro h hne
    have hchange := h change
    rwa [if_pos (by omega), if_neg (lt_irrefl change), imp_iff_right hne] at hchange
  · intro h t hne
    obtain rfl : t = change := by
      split_ifs at hne <;> omega
    rw [if_pos (by omega), if_neg (lt_irrefl t)] at hne
    rw [if_neg (lt_irrefl t)]
    exact h hne

/-- If the clock is only changed to starts of buckets, it runs through each bucket. -/
theorem runsThrough_of_changesAtStarts {tz : Tz} {step t : ℤ} (hpos : 0 < step)
    (hoffsets : tz.Within day) (hchanges : ChangesAtStarts tz step)
    (hmin : minTimestamp + 3 * day ≤ t) (hmax : t ≤ maxTimestamp - 3 * day) :
    RunsThrough tz step t := by
  have hoff : ∀ x, ownStart tz step t ≤ x → x ≤ t → tz.offsetAt x = tz.offsetAt t := by
    intro x hstart hxt
    by_contra hne
    -- the last change is to the start of a later bucket than that of `t`
    obtain ⟨c, hxc, hct, hchange, hlater⟩ := WallClock.Clock.exists_last_change hxt hne
    have hc := hchanges c hchange
    have hmono := localStart_mono hpos (show tz.wall c ≤ tz.wall t by
      rw [WallClock.Clock.wall, WallClock.Clock.wall, hlater c le_rfl hct]
      omega)
    rw [hc, WallClock.Clock.wall, hlater c le_rfl hct] at hmono
    simp only [ownStart] at hstart
    omega
  have hmidnight := midnight_le_localStart hpos (tz.wall t)
  have hle := localStart_le hpos (tz.wall t)
  have hlt := hoffsets.lt_wall t
  have hgt := hoffsets.wall_lt t
  refine ⟨⟨⟨ownStart tz step t, ?_⟩, fun x hx => ?_⟩, hoff⟩
  · rw [WallClock.Clock.wall, hoff _ le_rfl (ownStart_le hpos t), ownStart]
    ring
  · have := hoffsets.lt_wall x
    have := hoffsets.wall_lt x
    simp only [day] at *
    omega

/-! ## The order of the buckets -/

theorem OpensAt.inCalendar {tz : Tz} {step b : ℤ} (hpos : 0 < step) {ts : DateTime}
    (h : OpensAt tz step ts.timestamp b) : minTimestamp ≤ b ∧ b ≤ maxTimestamp := by
  cases h with
  | own hshown hown => exact hshown.2 _ hown
  | last hshown _ hb => exact hshown.2 b hb
  | skipped _ hmin =>
    have := Int.emod_nonneg ts.timestamp hpos.ne'
    have := ts.timestamp_bounds
    omega

section
variable {A : Type} {tz : Tz} {n : ℤ} {candles : List (Candle A)}

/-- The candles at which the clock has not run through keep the order of the buckets. -/
def KeepsOrder (tz : Tz) (step : ℤ) (candles : List (Candle A)) : Prop :=
  ∀ u ∈ candles, ∀ v ∈ candles, u.ts ≤ v.ts →
    ¬ (RunsThrough tz step u.ts.timestamp ∧ RunsThrough tz step v.ts.timestamp) →
    ∀ b b', OpensAt tz step u.ts.timestamp b → OpensAt tz step v.ts.timestamp b' → b ≤ b'

/-- The bucket function is monotone on the candles exactly when those at which the clock has not run
through keep the order. -/
theorem keepsOrder_iff (hn : 0 < n) (hstep : InI64 (n * 60))
    (hlocal : ∀ c ∈ candles, LocalInCalendar tz c.ts) :
    KeepsOrder tz (n * 60) candles ↔
      BucketsInOrder (fun ts => bucketMinutesWithTz ts n tz) candles := by
  have hpos : 0 < n * 60 := by omega
  have hspec : ∀ c ∈ candles, ∀ b, bucketMinutesWithTz c.ts n tz = .ok (some b) ↔
      b.Whole ∧ OpensAt tz (n * 60) c.ts.timestamp b.timestamp := by
    intro c hc b
    obtain ⟨r, hr, hiff⟩ := bucketMinutesWithTz_spec hn hstep (hlocal c hc)
    rw [hr, Except.ok.injEq, hiff]
  constructor
  · intro h u hu v hv hle b b' hb hb'
    obtain ⟨hwhole, hopens⟩ := (hspec u hu b).1 hb
    obtain ⟨hwhole', hopens'⟩ := (hspec v hv b').1 hb'
    rw [hwhole.le_iff hwhole']
    by_cases hruns : RunsThrough tz (n * 60) u.ts.timestamp ∧ RunsThrough tz (n * 60) v.ts.timestamp
    · rw [hruns.1.eq_ownStart hpos hopens, hruns.2.eq_ownStart hpos hopens']
      exact hruns.2.ownStart_le_ownStart hpos (DateTime.timestamp_mono hle)
    · exact h u hu v hv hle hruns _ _ hopens hopens'
  · intro h u hu v hv hle _ b b' hopens hopens'
    have hb := DateTime.whole_of_fromTimestamp (dif_pos (hopens.inCalendar hpos))
    have hb' := DateTime.whole_of_fromTimestamp (dif_pos (hopens'.inCalendar hpos))
    have := h u hu v hv hle _ _ ((hspec u hu _).2 ⟨hb.1, by rw [hb.2]; exact hopens⟩)
      ((hspec v hv _).2 ⟨hb'.1, by rw [hb'.2]; exact hopens'⟩)
    rwa [hb.1.le_iff hb'.1, hb.2, hb'.2] at this

variable [LinearOrder A] [ToString DateTime]

/-- The minutes of a time zone are strictly ascending, if there is a result, exactly when the candles at
which the clock has not run through since the local start of their bucket keep the order. There is no
result where the bucket length overflows or a local time is outside the calendar. -/
theorem minutes_ascending_iff {utcOffsetSeconds : Option ℤ} (hn : 0 < n)
    (hcur : SingleCurrency candles) :
    (∀ out, resampleToMinutesWithMeta candles n (some ⟨some tz, utcOffsetSeconds⟩) = .ok out →
      Ascending out) ↔
    (InI64 (n * 60) → (∀ c ∈ candles, LocalInCalendar tz c.ts) →
      KeepsOrder tz (n * 60) candles) := by
  have hpos : 0 < (Cadence.minutes n).length := by
    simp only [Cadence.length]
    omega
  have heq : resampleToMinutesWithMeta candles n (some ⟨some tz, utcOffsetSeconds⟩) =
      resampleBy candles fun ts => bucketMinutesWithTz ts n tz :=
    Cadence.resampleWithMeta_eq hpos candles _
  have htotal : Total (fun ts => bucketMinutesWithTz ts n tz) candles ↔
      ∀ c ∈ candles, InI64 (n * 60) ∧ LocalInCalendar tz c.ts :=
    forall₂_congr fun c _ => bucketMinutesWithTz_isOk_iff hn c.ts
  rw [heq]
  by_cases hfits : ∀ c ∈ candles, InI64 (n * 60) ∧ LocalInCalendar tz c.ts
  · rw [resampleBy_ascending_iff hcur (htotal.2 hfits)]
    constructor
    · intro h hstep hlocal
      exact (keepsOrder_iff hn hstep hlocal).2 h
    · intro h
      cases candles with
      | nil => exact fun u hu => by cases hu
      | cons c cs =>
        have hstep := (hfits c List.mem_cons_self).1
        have hlocal := fun d hd => (hfits d hd).2
        exact (keepsOrder_iff hn hstep hlocal).1 (h hstep hlocal)
  · refine iff_of_true (fun out hout => ?_) fun hstep hlocal => ?_
    · exact absurd (htotal.1 (resampleBy_eq_ok.1 hout).1) hfits
    · exact absurd (fun c hc => ⟨hstep, hlocal c hc⟩) hfits

/-- Away from the ends of the calendar, a clock that is only changed to starts of buckets never repeats
or reorders them. -/
theorem minutes_ascending_of_changesAtStarts {utcOffsetSeconds : Option ℤ} (hn : 0 < n)
    (hcur : SingleCurrency candles) (hoffsets : tz.Within day)
    (hchanges : ChangesAtStarts tz (n * 60))
    (hinside : ∀ c ∈ candles, minTimestamp + 3 * day ≤ c.ts.timestamp ∧
      c.ts.timestamp ≤ maxTimestamp - 3 * day) {out : List (Candle A)}
    (hout : resampleToMinutesWithMeta candles n (some ⟨some tz, utcOffsetSeconds⟩) = .ok out) :
    Ascending out := by
  have hruns : ∀ c ∈ candles, RunsThrough tz (n * 60) c.ts.timestamp := fun c hc =>
    runsThrough_of_changesAtStarts (by omega) hoffsets hchanges (hinside c hc).1 (hinside c hc).2
  refine (minutes_ascending_iff hn hcur).2 (fun _ _ => ?_) out hout
  intro u hu v hv _ hnot
  exact absurd ⟨hruns u hu, hruns v hv⟩ hnot

end

section
local instance textMinutes : ToString DateTime := ⟨fun ts => toString ts.nanos⟩

/-- A zone whose clock is put back from two to one o'clock. -/
def putBack : Tz := .oneChange 3600 3600 0

/-- Candles at twenty to two, and at the moment when the clock is put back to one. -/
def aroundPutBack : List (Candle ℕ) :=
  [.flat (.ofTimestamp 2400 (by decide)) ⟨1, ⟨"USD"⟩⟩,
    .flat (.ofTimestamp 3600 (by decide)) ⟨1, ⟨"USD"⟩⟩]

theorem minutes_ascending_iff_putBack :
    (∀ out, resampleToMinutesWithMeta aroundPutBack 60 (some ⟨some putBack, none⟩) = .ok out →
      Ascending out) ↔
    (InI64 (60 * 60) → (∀ c ∈ aroundPutBack, LocalInCalendar putBack c.ts) →
      KeepsOrder putBack (60 * 60) aroundPutBack) :=
  minutes_ascending_iff (by decide) ⟨⟨"USD"⟩, by decide⟩

/-- The clock is put back to the start of an hour. -/
example : ChangesAtStarts putBack (60 * 60) := changesAtStarts_oneChange.2 fun _ => by decide

/-- The bucket of ninety minutes at half past one comes before the one at midnight. -/
theorem not_minutes_ascending :
    ¬ ∀ (tz : Tz) (n : ℤ) (candles : List (Candle ℕ)), 0 < n → SingleCurrency candles →
      ∀ out, resampleToMinutesWithMeta candles n (some ⟨some tz, none⟩) = .ok out →
        Ascending out := by
  intro h
  have hasc := h putBack 90 aroundPutBack (by decide) ⟨⟨"USD"⟩, by decide⟩
    [.flat (.ofTimestamp 1800 (by decide)) ⟨1, ⟨"USD"⟩⟩,
      .flat (.ofTimestamp (-3600) (by decide)) ⟨1, ⟨"USD"⟩⟩] rfl
  have hlt := (List.pairwise_cons.1 hasc).1 _ List.mem_cons_self
  rw [DateTime.lt_def] at hlt
  revert hlt
  decide

end

end Borsa
