import Borsa.Timeseries.Cadence

/-!
# Local times and order

What the bucket functions need of a time zone: the instants at which its clock shows a local time
(`fromLocalDatetime_eq`). And when the resampled series is in the order of time: when the bucket
function is monotone on the candles (`resampleBy_ascending_iff`), since `resample_by` puts together
only adjacent candles.
-/

namespace Borsa

/-! ## Instants of a local time -/

/-- The instant is a whole second. -/
def DateTime.Whole (t : DateTime) : Prop := t.nanos = t.timestamp * 1000000000

theorem DateTime.whole_of_fromTimestamp {secs : ℤ} {t : DateTime}
    (h : DateTime.fromTimestamp secs = some t) : t.Whole ∧ t.timestamp = secs := by
  rw [DateTime.fromTimestamp_eq_some] at h
  have hts : t.timestamp = secs := by
    rw [DateTime.timestamp, h]
    omega
  exact ⟨by rw [Whole, hts, h], hts⟩

theorem DateTime.Whole.eq_of_timestamp_eq {t u : DateTime} (ht : t.Whole) (hu : u.Whole)
    (h : t.timestamp = u.timestamp) : t = u :=
  DateTime.nanos_injective (by rw [ht, hu, h])

theorem DateTime.Whole.le_iff {t u : DateTime} (ht : t.Whole) (hu : u.Whole) :
    t ≤ u ↔ t.timestamp ≤ u.timestamp := by
  rw [DateTime.le_def, ht, hu]
  omega

/-- The clock shows the local time, and only at instants of the calendar. -/
def ShownInCalendar (tz : Tz) (l : ℤ) : Prop :=
  (∃ t, tz.wall t = l) ∧ ∀ t, tz.wall t = l → minTimestamp ≤ t ∧ t ≤ maxTimestamp

/-- `from_local_datetime` gives the instants at which the clock shows a local time, unless one is
outside the calendar. -/
inductive FromLocal (tz : Tz) (l : ℤ) : WallClock.LocalResult DateTime → Prop where
  | none : ¬ ShownInCalendar tz l → FromLocal tz l .none
  | single {dt : DateTime} : ShownInCalendar tz l → dt.Whole →
      (∀ t, tz.wall t = l ↔ t = dt.timestamp) → FromLocal tz l (.single dt)
  | ambiguous {dt₁ dt₂ : DateTime} : ShownInCalendar tz l → dt₁.Whole → dt₂.Whole →
      dt₁.timestamp < dt₂.timestamp →
      (∀ t, tz.wall t = l ↔ t = dt₁.timestamp ∨ t = dt₂.timestamp) →
      FromLocal tz l (.ambiguous dt₁ dt₂)

theorem not_shownInCalendar {tz : Tz} {l t : ℤ} (ht : tz.wall t = l)
    (hnone : DateTime.fromTimestamp t = none) : ¬ ShownInCalendar tz l := by
  intro h
  have := h.2 t ht
  rw [DateTime.fromTimestamp_eq_none] at hnone
  omega

theorem fromLocal_fromLocalDatetime (tz : Tz) (l : ℤ) : FromLocal tz l (fromLocalDatetime tz l) := by
  have hres := tz.resolves l
  rw [fromLocalDatetime]
  cases hl : tz.fromLocal l with
  | none =>
    rw [hl] at hres
    exact .none fun ⟨⟨t, ht⟩, _⟩ => hres t ht
  | single t₀ =>
    rw [hl] at hres
    have ht₀ : tz.wall t₀ = l := (hres t₀).2 rfl
    cases h₀ : DateTime.fromTimestamp t₀ with
    | none =>
      simp only [WallClock.LocalResult.andThen, h₀]
      exact .none (not_shownInCalendar ht₀ h₀)
    | some dt =>
      obtain ⟨hwhole, rfl⟩ := DateTime.whole_of_fromTimestamp h₀
      simp only [WallClock.LocalResult.andThen, h₀]
      refine .single ⟨⟨_, ht₀⟩, fun t ht => ?_⟩ hwhole hres
      rw [(hres t).1 ht]
      exact dt.timestamp_bounds
  | ambiguous t₁ t₂ =>
    rw [hl] at hres
    obtain ⟨hlt, hres⟩ := hres
    have ht₁ : tz.wall t₁ = l := (hres t₁).2 (.inl rfl)
    have ht₂ : tz.wall t₂ = l := (hres t₂).2 (.inr rfl)
    cases h₁ : DateTime.fromTimestamp t₁ with
    | none =>
      simp only [WallClock.LocalResult.andThen, h₁]
      exact .none (not_shownInCalendar ht₁ h₁)
    | some dt₁ =>
      cases h₂ : DateTime.fromTimestamp t₂ with
      | none =>
        simp only [WallClock.LocalResult.andThen, h₁, h₂]
        exact .none (not_shownInCalendar ht₂ h₂)
      | some dt₂ =>
        obtain ⟨hwhole₁, rfl⟩ := DateTime.whole_of_fromTimestamp h₁
        obtain ⟨hwhole₂, rfl⟩ := DateTime.whole_of_fromTimestamp h₂
        simp only [WallClock.LocalResult.andThen, h₁, h₂]
        refine .ambiguous ⟨⟨_, ht₁⟩, fun t ht => ?_⟩ hwhole₁ hwhole₂ hlt hres
        rcases (hres t).1 ht with rfl | rfl
        · exact dt₁.timestamp_bounds
        · exact dt₂.timestamp_bounds

/-! ## Buckets in order -/

section
variable {A : Type} {bucketOf : DateTime → Bucket} {candles : List (Candle A)}

/-- The bucket function is monotone on the candles. -/
def BucketsInOrder (bucketOf : DateTime → Bucket) (candles : List (Candle A)) : Prop :=
  ∀ u ∈ candles, ∀ v ∈ candles, u.ts ≤ v.ts → ∀ b b', bucketOf u.ts = .ok (some b) →
    bucketOf v.ts = .ok (some b') → b ≤ b'

/-- The buckets of the candles are in order when the bucket function is monotone on them. -/
theorem pairwise_tagged_iff :
    (tagged bucketOf candles).Pairwise (fun x y => x.1 ≤ y.1) ↔ BucketsInOrder bucketOf candles := by
  constructor
  · intro hsorted u hu v hv hle b b' hb hb'
    let R : DateTime × Candle A → DateTime × Candle A → Prop := fun x y =>
      (x.2.ts ≤ y.2.ts → x.1 ≤ y.1) ∧ (y.2.ts ≤ x.2.ts → y.1 ≤ x.1)
    have hpair : (tagged bucketOf candles).Pairwise R := by
      refine (hsorted.and (pairwise_tagged bucketOf candles)).imp_of_mem ?_
      intro x y hx hy ⟨hle, hts⟩
      refine ⟨fun _ => hle, fun hts' => ?_⟩
      have hx' := (mem_tagged.1 hx).2
      rw [le_antisymm hts hts', (mem_tagged.1 hy).2, Except.ok.injEq, Option.some.injEq] at hx'
      exact hx'.le
    have : Std.Symm R := ⟨fun x y h => ⟨h.2, h.1⟩⟩
    have hall := hpair.forall_of_forall fun x _ => ⟨fun _ => le_rfl, fun _ => le_rfl⟩
    have hx : (b, u) ∈ tagged bucketOf candles := mem_tagged.2 ⟨hu, hb⟩
    have hy : (b', v) ∈ tagged bucketOf candles := mem_tagged.2 ⟨hv, hb'⟩
    exact (hall hx hy).1 hle
  · intro h
    refine (pairwise_tagged bucketOf candles).imp_of_mem fun {x y} hx hy hle => ?_
    obtain ⟨hu, hb⟩ := mem_tagged.1 hx
    obtain ⟨hv, hb'⟩ := mem_tagged.1 hy
    exact h x.2 hu y.2 hv hle x.1 y.1 hb hb'

/-- The candles end up in one candle of the resampled series: they are in one run. -/
def PutTogether (bucketOf : DateTime → Bucket) (candles : List (Candle A)) (u v : Candle A) : Prop :=
  ∃ run ∈ Runs.runs Prod.fst (tagged bucketOf candles), u ∈ run.map Prod.snd ∧ v ∈ run.map Prod.snd

theorem PutTogether.exists_bucket {u v : Candle A} (h : PutTogether bucketOf candles u v) :
    ∃ b, bucketOf u.ts = .ok (some b) ∧ bucketOf v.ts = .ok (some b) := by
  obtain ⟨run, hrun, hu, hv⟩ := h
  obtain ⟨x, hx, rfl⟩ := List.mem_map.1 hu
  obtain ⟨y, hy, rfl⟩ := List.mem_map.1 hv
  have hxb := (mem_tagged.1 (Runs.mem_of_mem_runs hrun hx)).2
  have hyb := (mem_tagged.1 (Runs.mem_of_mem_runs hrun hy)).2
  rw [← Runs.sameKey_of_mem_runs hrun x hx y hy] at hyb
  exact ⟨x.1, hxb, hyb⟩

/-- Where the buckets are in order, candles with one bucket are put together. -/
theorem putTogether_of_sorted (hsorted : (tagged bucketOf candles).Pairwise fun x y => x.1 ≤ y.1)
    {u v : Candle A} (hu : u ∈ candles) (hv : v ∈ candles) {b : DateTime}
    (hub : bucketOf u.ts = .ok (some b)) (hvb : bucketOf v.ts = .ok (some b)) :
    PutTogether bucketOf candles u v := by
  have hx : (b, u) ∈ tagged bucketOf candles := mem_tagged.2 ⟨hu, hub⟩
  have hy : (b, v) ∈ tagged bucketOf candles := mem_tagged.2 ⟨hv, hvb⟩
  refine ⟨_, (Runs.mem_runs_of_sorted hsorted).2 ⟨_, hx, rfl⟩, ?_, ?_⟩
  · exact List.mem_map.2 ⟨_, List.mem_filter.2 ⟨hx, by simp⟩, rfl⟩
  · exact List.mem_map.2 ⟨_, List.mem_filter.2 ⟨hy, by simp⟩, rfl⟩

variable [LinearOrder A] [ToString DateTime]

/-- Whatever the currencies, a resampled series is ascending when the bucket function is monotone on
the candles. -/
theorem ascending_iff_of_resampleBy_eq_ok {out : List (Candle A)}
    (h : resampleBy candles bucketOf = .ok out) :
    Ascending out ↔ BucketsInOrder bucketOf candles := by
  rw [resampleTagged_eq_ok (resampleBy_eq_ok.1 h).2, ascending_bucketCandles, pairwise_tagged_iff]

/-- The resampled series of candles in one currency is ascending when the bucket function is monotone
on the candles. -/
theorem resampleBy_ascending_iff (hcur : SingleCurrency candles) (htotal : Total bucketOf candles) :
    (∀ out, resampleBy candles bucketOf = .ok out → Ascending out) ↔
      BucketsInOrder bucketOf candles := by
  have hout := resampleBy_of_singleCurrency hcur htotal
  constructor
  · intro h
    exact (ascending_iff_of_resampleBy_eq_ok hout).1 (h _ hout)
  · intro h out hout'
    exact (ascending_iff_of_resampleBy_eq_ok hout').2 h

end

end Borsa
