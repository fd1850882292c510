import Borsa.Timeseries.Cadence

/-!
# The specification of resampling

What a resampled series is, said without the loop: one candle for each bucket that holds a candle of
the input, which sums up the candles of the bucket. `resample_isResampled` says that the resamplers
compute it at every fixed offset, for candles in one currency.
-/

namespace Borsa

section
variable {A : Type} [LinearOrder A]

/-! ## Summing up candles -/

/-- The volumes that are given. -/
def volumes (cs : List (Candle A)) : List ℕ := cs.filterMap fun c => c.volume.map UInt64.toNat

/-- The candle sums up the candles of a bucket, which are listed in the order of time. -/
structure SumsUp (cs : List (Candle A)) (o : Candle A) : Prop where
  openFirst : cs.head?.map (·.open) = some o.open
  closeLast : cs.getLast?.map (·.close) = some o.close
  high_mem : ∃ c ∈ cs, o.high = c.high
  le_high : ∀ c ∈ cs, c.high.amount ≤ o.high.amount
  low_mem : ∃ c ∈ cs, o.low = c.low
  low_le : ∀ c ∈ cs, o.low.amount ≤ c.low.amount
  closeUnadj_eq : o.closeUnadj = none
  volume_none : o.volume = none ↔ ∀ c ∈ cs, c.volume = none
  volume_sum : ∀ v, o.volume = some v → v.toNat = min (volumes cs).sum (2 ^ 64 - 1)

/-- The high is that of a candle, and no candle's is above it. -/
theorem high_aggregate (c : Candle A) (cs : List (Candle A)) :
    (∃ d ∈ c :: cs, (aggregate c cs).high = d.high) ∧
      ∀ d ∈ c :: cs, d.high.amount ≤ (aggregate c cs).high.amount := by
  have hmax := argmax_high c cs
  constructor
  · obtain ⟨d, hd, heq⟩ := List.mem_map.1 (List.argmax_mem hmax)
    exact ⟨d, hd, heq.symm⟩
  · intro d hd
    exact List.le_of_mem_argmax (List.mem_map_of_mem hd) hmax

/-- The low is that of a candle, and no candle's is below it. -/
theorem low_aggregate (c : Candle A) (cs : List (Candle A)) :
    (∃ d ∈ c :: cs, (aggregate c cs).low = d.low) ∧
      ∀ d ∈ c :: cs, (aggregate c cs).low.amount ≤ d.low.amount := by
  have hmin := argmin_low c cs
  constructor
  · obtain ⟨d, hd, heq⟩ := List.mem_map.1 (List.argmin_mem hmin)
    exact ⟨d, hd, heq.symm⟩
  · intro d hd
    exact List.le_of_mem_argmin (List.mem_map_of_mem hd) hmin

omit [LinearOrder A] in
theorem volumes_eq_nil {cs : List (Candle A)} : volumes cs = [] ↔ ∀ c ∈ cs, c.volume = none := by
  simp [volumes]

/-- The sum of the volumes that are given, if any is. -/
theorem volSum_aggregate (c : Candle A) (cs : List (Candle A)) :
    (aggregate c cs).volSum =
      if volumes (c :: cs) = [] then none else some (volumes (c :: cs)).sum := by
  induction cs using List.reverseRecOn with
  | nil => cases hv : c.volume <;> simp [aggregate, BucketAgg.ofCandle, volumes, hv]
  | append_singleton cs d ih =>
    have hsum : volumes (c :: (cs ++ [d])) = volumes (c :: cs) ++ volumes [d] := by
      rw [← List.cons_append, volumes, List.filterMap_append]
      rfl
    rw [aggregate_concat, BucketAgg.extend, hsum, ih]
    cases hv : d.volume with
    | none =>
      have hd : volumes [d] = [] := by simp [volumes, hv]
      rw [hd, List.append_nil]
    | some v =>
      have hd : volumes [d] = [v.toNat] := by simp [volumes, hv]
      rw [hd]
      by_cases h : volumes (c :: cs) = []
      · simp [h]
      · simp [h]

/-- The candle of a bucket sums up its candles. -/
theorem sumsUp_candle (b : DateTime) (c : Candle A) (cs : List (Candle A)) :
    SumsUp (c :: cs) ((aggregate c cs).candle b) where
  openFirst := by rw [BucketAgg.candle, open_aggregate]; rfl
  closeLast := close_aggregate c cs
  high_mem := (high_aggregate c cs).1
  le_high := (high_aggregate c cs).2
  low_mem := (low_aggregate c cs).1
  low_le := (low_aggregate c cs).2
  closeUnadj_eq := rfl
  volume_none := by
    rw [← volumes_eq_nil]
    simp only [BucketAgg.candle, cappedVolume, volSum_aggregate]
    split <;> simp_all
  volume_sum := by
    intro v hv
    simp only [BucketAgg.candle, cappedVolume, volSum_aggregate] at hv
    split at hv
    · cases hv
    · rw [Option.map_some, Option.some.injEq] at hv
      rw [← hv, UInt64.toNat_ofNat']
      exact Nat.mod_eq_of_lt (by omega)

/-! ## Resampled series -/

/-- The candles in the bucket that starts at `b`, in the stable order of time. -/
def members (cadence : Cadence) (candles : List (Candle A)) (b : DateTime) : List (Candle A) :=
  (SortKey.sortByKey (·.ts) candles).filter fun c => cadence.InBucket b c.ts

/-- The series is the resampled one, where local time is UTC plus `off`. Candles whose bucket starts
before the calendar are left out. -/
structure IsResampled (cadence : Cadence) (off : ℤ) (candles out : List (Candle A)) : Prop where
  ascending : Ascending out
  starts : ∀ o ∈ out, cadence.StartsBucket off o.ts
  occupied : ∀ o ∈ out, ∃ c ∈ candles, cadence.InBucket o.ts c.ts
  covers : ∀ c ∈ candles, minTimestamp ≤ cadence.start off c.ts.timestamp →
    ∃ o ∈ out, cadence.InBucket o.ts c.ts
  sumsUp : ∀ o ∈ out, SumsUp (members cadence candles o.ts) o

variable [ToString DateTime] {cadence : Cadence} {«meta» : Option HistoryMeta} {off : ℤ}
  {candles : List (Candle A)}

omit [LinearOrder A] [ToString DateTime] in
/-- The bucket of a candle is the one that contains it. -/
theorem bucketOf_eq_ok_some (hpos : 0 < cadence.length) (hoff : Cadence.FixedOffset «meta» off)
    (htotal : Total (cadence.bucketOf «meta») candles) {c : Candle A} (hc : c ∈ candles)
    {b : DateTime} : cadence.bucketOf «meta» c.ts = .ok (some b) ↔
      cadence.StartsBucket off b ∧ cadence.InBucket b c.ts := by
  have hfits : cadence.Fits off c.ts.timestamp := by
    obtain ⟨b', hb'⟩ := htotal c hc
    by_contra hnot
    rw [cadence.bucketOf_eq hoff, if_neg hnot] at hb'
    cases hb'
  rw [← Cadence.fromTimestamp_start_eq_some hpos, cadence.bucketOf_eq hoff, if_pos hfits,
    Except.ok.injEq]

omit [LinearOrder A] [ToString DateTime] in
/-- The buckets of candles in the order of time are in order. -/
theorem pairwise_tagged_bucketOf (hpos : 0 < cadence.length)
    (hoff : Cadence.FixedOffset «meta» off)
    (htotal : Total (cadence.bucketOf «meta») candles) :
    (tagged (cadence.bucketOf «meta») candles).Pairwise fun x y => x.1 ≤ y.1 := by
  refine (pairwise_tagged _ candles).imp_of_mem fun {x y} hx hy hle => ?_
  obtain ⟨hxmem, hxb⟩ := mem_tagged.1 hx
  obtain ⟨hymem, hyb⟩ := mem_tagged.1 hy
  obtain ⟨hxs, hxin⟩ := (bucketOf_eq_ok_some hpos hoff htotal hxmem).1 hxb
  obtain ⟨hys, hyin⟩ := (bucketOf_eq_ok_some hpos hoff htotal hymem).1 hyb
  rw [DateTime.le_def, hxs.1, hys.1, (Cadence.inBucket_iff hpos hxs).1 hxin,
    (Cadence.inBucket_iff hpos hys).1 hyin]
  have := Cadence.start_mono hpos off (DateTime.timestamp_mono hle)
  omega

omit [ToString DateTime] in
/-- The candle of a run sums up the candles of its bucket. -/
theorem sumsUp_of_mem_bucketCandles (hpos : 0 < cadence.length)
    (hoff : Cadence.FixedOffset «meta» off)
    (htotal : Total (cadence.bucketOf «meta») candles) {o : Candle A}
    (ho : o ∈ (Runs.runs Prod.fst (tagged (cadence.bucketOf «meta») candles)).filterMap
      bucketCandle) : ∃ x ∈ tagged (cadence.bucketOf «meta») candles, o.ts = x.1 ∧
        SumsUp (members cadence candles x.1) o := by
  obtain ⟨x, hx, hxo⟩ := (mem_bucketCandles (pairwise_tagged_bucketOf hpos hoff htotal)).1 ho
  obtain ⟨hxmem, hxb⟩ := mem_tagged.1 hx
  obtain ⟨hxs, -⟩ := (bucketOf_eq_ok_some hpos hoff htotal hxmem).1 hxb
  have hmembers : ((tagged (cadence.bucketOf «meta») candles).filter fun y => y.1 = x.1).map
      Prod.snd = members cadence candles x.1 := by
    rw [map_snd_filter_tagged, members]
    refine List.filter_congr fun c hc => decide_eq_decide.2 ?_
    rw [bucketAt_eq_some, bucketOf_eq_ok_some hpos hoff htotal (SortKey.mem_sortByKey.1 hc)]
    exact and_iff_right hxs
  refine ⟨x, hx, ?_, ?_⟩
  · obtain ⟨y, hy, hoy⟩ := ts_of_bucketCandle hxo
    rw [hoy]
    simpa using (List.mem_filter.1 hy).2
  · rw [← hmembers]
    cases hrun : (tagged (cadence.bucketOf «meta») candles).filter fun y => y.1 = x.1 with
    | nil => simp [hrun, bucketCandle] at hxo
    | cons y rest =>
      rw [hrun] at hxo
      rw [← Option.some.inj hxo]
      exact sumsUp_candle _ _ _

/-- Unless a bucket function fails, candles in one currency are resampled. -/
theorem exists_resampleWithMeta_eq (hpos : 0 < cadence.length)
    (hoff : Cadence.FixedOffset «meta» off) (hcur : SingleCurrency candles)
    (htotal : Total (cadence.bucketOf «meta») candles) :
    ∃ out, cadence.resampleWithMeta candles «meta» = .ok out ∧
      IsResampled cadence off candles out := by
  refine ⟨_, by rw [Cadence.resampleWithMeta_eq hpos, resampleBy_of_singleCurrency hcur htotal],
    ?_, ?_, ?_, ?_, ?_⟩
  · exact (ascending_bucketCandles _).2 (pairwise_tagged_bucketOf hpos hoff htotal)
  · intro o ho
    obtain ⟨x, hx, hox, -⟩ := sumsUp_of_mem_bucketCandles hpos hoff htotal ho
    obtain ⟨hxmem, hxb⟩ := mem_tagged.1 hx
    rw [hox]
    exact ((bucketOf_eq_ok_some hpos hoff htotal hxmem).1 hxb).1
  · intro o ho
    obtain ⟨x, hx, hox, -⟩ := sumsUp_of_mem_bucketCandles hpos hoff htotal ho
    obtain ⟨hxmem, hxb⟩ := mem_tagged.1 hx
    rw [hox]
    exact ⟨x.2, hxmem, ((bucketOf_eq_ok_some hpos hoff htotal hxmem).1 hxb).2⟩
  · intro c hc hmin
    obtain ⟨b, hb⟩ : ∃ b, DateTime.fromTimestamp (cadence.start off c.ts.timestamp) = some b := by
      refine Option.ne_none_iff_exists'.1 fun hnone => ?_
      have hle := Grid.floorTo_le hpos (cadence.origin - off) c.ts.timestamp
      have := c.ts.timestamp_bounds
      rw [DateTime.fromTimestamp_eq_none] at hnone
      simp only [Cadence.start] at hnone hmin
      omega
    have hin := (Cadence.fromTimestamp_start_eq_some hpos).1 hb
    have hx : (b, c) ∈ tagged (cadence.bucketOf «meta») candles :=
      mem_tagged.2 ⟨hc, (bucketOf_eq_ok_some hpos hoff htotal hc).2 hin⟩
    obtain ⟨run, hrun, hxrun⟩ := Runs.exists_mem_runs Prod.fst hx
    obtain ⟨o, ho⟩ := exists_bucketCandle (Runs.ne_nil_of_mem_runs hrun)
    obtain ⟨y, hy, hoy⟩ := ts_of_bucketCandle ho
    refine ⟨o, List.mem_filterMap.2 ⟨run, hrun, ho⟩, ?_⟩
    rw [hoy, Runs.sameKey_of_mem_runs hrun y hy _ hxrun]
    exact hin.2
  · intro o ho
    obtain ⟨x, -, hox, hsum⟩ := sumsUp_of_mem_bucketCandles hpos hoff htotal ho
    rw [hox]
    exact hsum

/-- The resamplers compute the resampled series of candles in one currency, at every fixed offset at
which the buckets of the candles can be computed and lie in the calendar. -/
theorem resample_isResampled (hpos : 0 < cadence.length) (hoff : Cadence.FixedOffset «meta» off)
    (hcur : SingleCurrency candles)
    (hbuckets : ∀ c ∈ candles, ∃ b, cadence.bucketOf «meta» c.ts = .ok (some b)) :
    ∃ out, IsResampled cadence off candles out ∧
      (∀ c ∈ candles, ∃ o ∈ out, cadence.InBucket o.ts c.ts) ∧
      cadence.resampleWithMeta candles «meta» = .ok out ∧
      («meta» = none → cadence.resample candles = .ok out) := by
  have htotal : Total (cadence.bucketOf «meta») candles := by
    intro c hc
    obtain ⟨b, hb⟩ := hbuckets c hc
    exact ⟨some b, hb⟩
  obtain ⟨out, hout, hres⟩ := exists_resampleWithMeta_eq hpos hoff hcur htotal
  refine ⟨out, hres, fun c hc => hres.covers c hc ?_, hout,
    fun h => by rw [Cadence.resample_eq, ← h, hout]⟩
  obtain ⟨b, hb⟩ := hbuckets c hc
  obtain ⟨hstarts, hin⟩ := (bucketOf_eq_ok_some hpos hoff htotal hc).1 hb
  rw [← (Cadence.inBucket_iff hpos hstarts).1 hin]
  exact b.timestamp_bounds.1

end

section
local instance textWeekly : ToString DateTime := ⟨fun ts => toString ts.nanos⟩

/-- Five hours behind UTC, two candles that lie in the same UTC week fall into two weeks. -/
theorem resample_isResampled_weekly :
    let price : Money ℕ := ⟨1, ⟨"USD"⟩⟩
    let candles := [Candle.flat (.ofTimestamp 363600 (by decide)) price,
      Candle.flat (.ofTimestamp 345600 (by decide)) price]
    let behind : Option HistoryMeta := some ⟨none, some (-18000)⟩
    ∃ out, IsResampled .weekly (-18000) candles out ∧
      (∀ c ∈ candles, ∃ o ∈ out, Cadence.weekly.InBucket o.ts c.ts) ∧
      Cadence.weekly.resampleWithMeta candles behind = .ok out ∧
      (behind = none → Cadence.weekly.resample candles = .ok out) := by
  intro price candles behind
  have hbuckets : ∀ c ∈ candles, ∃ b, Cadence.weekly.bucketOf behind c.ts = .ok (some b) :=
    List.forall_mem_cons.2 ⟨⟨_, rfl⟩, List.forall_mem_cons.2 ⟨⟨_, rfl⟩, List.forall_mem_nil _⟩⟩
  exact resample_isResampled (by decide) ⟨rfl, rfl⟩ ⟨⟨"USD"⟩, by decide⟩ hbuckets

end

end Borsa
