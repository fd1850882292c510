import Borsa.History.Pipeline
import Borsa.Timeseries.CurrencyChecks
import Borsa.Timeseries.LocalTime

/-!
# Well-formed histories

A history is well formed when its candles are strictly ascending in time and in one currency. A merge
of several answers is, and so is a resampled series whose buckets are in the order of time, as they
are without a time zone. But the answer of a single provider is handed on as it is.
`finalizeHistoryResults_wellFormed_iff` says which of these decides.
-/

namespace Borsa

open Fallible

section
variable {A : Type}

/-- The candles are strictly ascending in time and in one currency. -/
def WellFormed (candles : List (Candle A)) : Prop := Ascending candles ∧ SingleCurrency candles

theorem wellFormed_stripUnadjusted {candles : List (Candle A)} :
    WellFormed (stripUnadjusted candles) ↔ WellFormed candles := by
  simp only [WellFormed, Ascending, SingleCurrency, stripUnadjusted, List.pairwise_map,
    List.forall_mem_map]
  rfl

/-! ## Resampled series -/

/-- Where the meta names a time zone, the buckets of the candles are in the order of time. -/
def InZoneOrder (cadence : Cadence) («meta» : Option HistoryMeta) (candles : List (Candle A)) :
    Prop :=
  («meta».bind (·.timezone)).isSome → BucketsInOrder (cadence.bucketOf «meta») candles

/-- Without a time zone the buckets are in the order of time. -/
theorem bucketsInOrder_of_fixedOffset {cadence : Cadence} (hpos : 0 < cadence.length)
    {«meta» : Option HistoryMeta} {off : ℤ} (hoff : Cadence.FixedOffset «meta» off)
    (candles : List (Candle A)) : BucketsInOrder (cadence.bucketOf «meta») candles := by
  intro u _ v _ hle b b' hb hb'
  rw [cadence.bucketOf_eq hoff] at hb hb'
  split at hb
  · split at hb'
    · obtain ⟨hwhole, hts⟩ := DateTime.whole_of_fromTimestamp (Except.ok.inj hb)
      obtain ⟨hwhole', hts'⟩ := DateTime.whole_of_fromTimestamp (Except.ok.inj hb')
      rw [hwhole.le_iff hwhole', hts, hts']
      exact Cadence.start_mono hpos off (DateTime.timestamp_mono hle)
    · cases hb'
  · cases hb

theorem inZoneOrder_iff {cadence : Cadence} (hpos : 0 < cadence.length)
    («meta» : Option HistoryMeta) (candles : List (Candle A)) :
    InZoneOrder cadence «meta» candles ↔ BucketsInOrder (cadence.bucketOf «meta») candles := by
  constructor
  · intro h
    cases «meta» with
    | none =>
      have hoff : Cadence.FixedOffset none 0 := rfl
      exact bucketsInOrder_of_fixedOffset hpos hoff candles
    | some m =>
      cases htz : m.timezone with
      | none =>
        have hoff : Cadence.FixedOffset (some m) (m.utcOffsetSeconds.getD 0) := ⟨htz, rfl⟩
        exact bucketsInOrder_of_fixedOffset hpos hoff candles
      | some tz => exact h (by simp [htz])
  · exact fun h _ => h

/-- Only the timestamps of the candles matter. -/
theorem inZoneOrder_congr {cadence : Cadence} {«meta» : Option HistoryMeta}
    {candles candles' : List (Candle A)}
    (hts : ∀ t, (∃ c ∈ candles, c.ts = t) ↔ ∃ c ∈ candles', c.ts = t) :
    InZoneOrder cadence «meta» candles ↔ InZoneOrder cadence «meta» candles' := by
  have hmono : ∀ {cs cs' : List (Candle A)}, (∀ t, (∃ c ∈ cs', c.ts = t) → ∃ c ∈ cs, c.ts = t) →
      InZoneOrder cadence «meta» cs → InZoneOrder cadence «meta» cs' := by
    intro cs cs' hsub h htz u hu v hv
    obtain ⟨u', hu', hus⟩ := hsub u.ts ⟨u, hu, rfl⟩
    obtain ⟨v', hv', hvs⟩ := hsub v.ts ⟨v, hv, rfl⟩
    rw [← hus, ← hvs]
    exact h htz u' hu' v' hv'
  exact ⟨hmono fun t => (hts t).2, hmono fun t => (hts t).1⟩

variable [LinearOrder A] [ToString DateTime]

/-- A resampled series is well formed when its buckets are in order. -/
theorem wellFormed_of_resample_iff {cadence : Cadence} (hpos : 0 < cadence.length)
    {candles out : List (Candle A)} {«meta» : Option HistoryMeta}
    (h : cadence.resampleWithMeta candles «meta» = .ok out) :
    WellFormed out ↔ InZoneOrder cadence «meta» candles := by
  rw [Cadence.resampleWithMeta_eq hpos] at h
  rw [inZoneOrder_iff hpos, ← ascending_iff_of_resampleBy_eq_ok h]
  exact and_iff_left (singleCurrency_of_resampleTagged_eq_ok (resampleBy_eq_ok.1 h).2)

/-! ## Single answers -/

/-- The cadence of a plan. -/
def ResamplePlan.cadence : ResamplePlan → Cadence
  | .minutes mins => .minutes mins
  | .daily => .daily
  | .weekly => .weekly

theorem ResamplePlan.resample_eq (plan : ResamplePlan) (candles : List (Candle A))
    («meta» : Option HistoryMeta) :
    plan.resample candles «meta» = plan.cadence.resampleWithMeta candles «meta» := by
  cases plan <;> rfl

/-- The candles of an answer are well formed once they are resampled by the plan: the buckets are in
order, or without a resampling the candles are well formed. -/
def KeptByPlan (plan : Option ResamplePlan) (hr : HistoryResponse A) : Prop :=
  match plan.filter fun plan => 0 < plan.cadence.length with
  | some plan => InZoneOrder plan.cadence hr.meta hr.candles
  | none => WellFormed hr.candles

theorem wellFormed_of_planned_iff {plan : Option ResamplePlan} {hr hr' : HistoryResponse A}
    (h : planned plan hr = .ok hr') : WellFormed hr'.candles ↔ KeptByPlan plan hr := by
  cases plan with
  | none =>
    obtain rfl := Except.ok.inj h
    rfl
  | some plan =>
    rw [planned, plan.resample_eq] at h
    obtain ⟨candles, hres, h⟩ := bind_eq_ok.1 h
    obtain rfl := Except.ok.inj h
    by_cases hpos : 0 < plan.cadence.length
    · simp only [KeptByPlan, Option.filter_some, hpos, decide_true, if_true]
      exact wellFormed_of_resample_iff hpos hres
    · rw [Cadence.resampleWithMeta_eq_self hpos] at hres
      obtain rfl := Except.ok.inj hres
      simp [KeptByPlan, Option.filter_some, hpos]

/-- The success that an answer gives, if it gives one. -/
def HistoryTaskResult.success (task : HistoryTaskResult A) : Option (HistoryOk A) :=
  match task.resp with
  | .ok hr =>
    if hr.candles.isEmpty then none
    else
      match planned task.plan hr with
      | .ok hr' => some ⟨task.idx, task.name, hr'⟩
      | .error _ => none
  | .error _ => none

/-- The candles of the answer are well formed once they are resampled by its plan. -/
def HistoryTaskResult.Kept (task : HistoryTaskResult A) : Prop :=
  ∀ hr, task.resp = .ok hr → KeptByPlan task.plan hr

theorem HistoryTaskResult.wellFormed_success_iff {task : HistoryTaskResult A} {r : HistoryOk A}
    (h : task.success = some r) : WellFormed r.resp.candles ↔ task.Kept := by
  cases hresp : task.resp with
  | error e => simp [success, hresp] at h
  | ok hr =>
    cases hplan : planned task.plan hr with
    | error f => simp [success, hresp, hplan] at h
    | ok hr' =>
      obtain ⟨-, rfl⟩ : hr.candles ≠ [] ∧ _ = r := by simpa [success, hresp, hplan] using h
      rw [wellFormed_of_planned_iff hplan, Kept]
      simp [hresp]

/-- A step of `collect_successes` adds what the answer gives. -/
theorem collectSuccess_eq_ok {task : HistoryTaskResult A}
    {st st' : List (HistoryOk A) × List BorsaError} (h : collectSuccess st task = .ok st') :
    st'.1 = st.1 ++ task.success.toList := by
  cases hresp : task.resp with
  | error e =>
    have hst : st'.1 = st.1 := by
      rw [collectSuccess, hresp] at h
      cases e <;> (obtain rfl := Except.ok.inj h; rfl)
    simp [HistoryTaskResult.success, hresp, hst]
  | ok hr =>
    cases hne : hr.candles.isEmpty with
    | true =>
      rw [collectSuccess, hresp] at h
      obtain rfl : st = st' := by simpa [hne] using h
      simp [HistoryTaskResult.success, hresp, hne]
    | false =>
      rw [collectSuccess_of_ok hresp hne] at h
      rw [HistoryTaskResult.success, hresp]
      simp only [hne, Bool.false_eq_true, if_false]
      cases hplan : planned task.plan hr with
      | ok hr' =>
        rw [hplan] at h
        obtain rfl := Except.ok.inj h
        rfl
      | error f =>
        rw [hplan] at h
        cases f with
        | panic => cases h
        | err e =>
          obtain rfl := Except.ok.inj h
          simp

theorem collectSuccesses_eq_ok {joined : List (HistoryTaskResult A)} {results : List (HistoryOk A)}
    {errors : List BorsaError} (h : collectSuccesses joined = .ok (results, errors)) :
    results = joined.filterMap (·.success) := by
  have hstep : ∀ (st : List (HistoryOk A) × List BorsaError) task st',
      collectSuccess st task = .ok st' → st'.1 = st.1 ++ task.success.toList :=
    fun _ _ _ htask => collectSuccess_eq_ok htask
  exact foldlM_collects hstep h

/-! ## Several answers -/

section
variable [DefaultHasher A]

/-- The meta of a merge: the first of an answer that adds a timestamp, or of any answer where there
are no candles. -/
def mergedMeta (rs : List (HistoryResponse A)) : Option HistoryMeta :=
  if candlesOf rs = [] then rs.findSome? (·.meta) else (contributors rs).findSome? (·.meta)

omit [ToString DateTime] in
/-- A merged history is well formed. -/
theorem wellFormed_of_mergeHistory {rs : List (HistoryResponse A)} {out : HistoryResponse A}
    (h : mergeHistory rs = .ok out) : WellFormed out.candles := by
  obtain ⟨⟨huni, hcur⟩, rfl⟩ := mergeHistory_eq_ok h
  refine ⟨ascending_mergeStateOf rs, ?_⟩
  rcases (mergeStateOf rs).response.candles.eq_nil_or_concat with hnil | ⟨_, c, hc⟩
  · exact ⟨⟨""⟩, by simp [hnil]⟩
  · have hmem : c ∈ (mergeStateOf rs).response.candles := by simp [hc]
    obtain ⟨d, hd, -⟩ := mem_candles_mergeStateOf.1 hmem
    refine ⟨d.open.currency, fun c' hc' => ?_⟩
    obtain ⟨e, he, rfl⟩ := mem_candles_mergeStateOf.1 hc'
    rw [hcur d e hd he]
    exact huni e he

omit [LinearOrder A] [ToString DateTime] [DefaultHasher A] in
/-- The merge of one answer has the meta of that answer. -/
theorem mergedMeta_singleton (hr : HistoryResponse A) : mergedMeta [hr] = hr.meta := by
  rw [mergedMeta]
  cases hcs : hr.candles with
  | nil => cases hm : hr.meta <;> simp [candlesOf, hcs, hm]
  | cons c cs => cases hm : hr.meta <;> simp [candlesOf, contributors, contributorsAfter, New, hcs, hm]

omit [ToString DateTime] in
/-- Several answers, or none, are merged. -/
theorem exists_mergeHistory_of_ne_single {order : HashOrder}
    {results : List (String × HistoryResponse A)} {merged : HistoryResponse A}
    (hmany : ∀ x, results ≠ [x])
    (h : mergeHistoryOrTagConnectorError order results = .ok merged) :
    ∃ m, mergeHistory (results.map Prod.snd) = .ok m ∧
      { m with candles := stripUnadjusted m.candles } = merged := by
  rcases mergeHistory_eq (results.map Prod.snd) with ⟨-, hmerge⟩ | ⟨-, hmerge⟩
  · refine ⟨_, hmerge, Except.ok.inj (Eq.trans ?_ h)⟩
    rcases results with _ | ⟨x, _ | ⟨y, rest⟩⟩
    · rfl
    · exact absurd rfl (hmany x)
    · rw [mergeHistoryOrTagConnectorError, hmerge]
      nofun
  · have htag : mergeHistoryOrTagConnectorError order results =
        .error (identifyFaultyProvider order results) := by
      rcases results with _ | ⟨x, _ | ⟨y, rest⟩⟩
      · cases hmerge
      · exact absurd rfl (hmany x)
      · rw [mergeHistoryOrTagConnectorError, hmerge]
        · rfl
        · nofun
    rw [htag] at h
    cases h

omit [ToString DateTime] in
/-- The result has the meta of a merge and the timestamps of the answers, and is well formed unless it
is a single answer. -/
theorem mergeHistoryOrTagConnectorError_eq_ok {order : HashOrder}
    {results : List (String × HistoryResponse A)} {merged : HistoryResponse A}
    (h : mergeHistoryOrTagConnectorError order results = .ok merged) :
    merged.meta = mergedMeta (results.map Prod.snd) ∧
      (∀ t, (∃ c ∈ merged.candles, c.ts = t) ↔ ∃ c ∈ candlesOf (results.map Prod.snd), c.ts = t) ∧
      ((∃ name, results = [(name, merged)]) ∨
        (∀ x, results ≠ [x]) ∧ WellFormed merged.candles) := by
  by_cases hone : ∃ x, results = [x]
  · obtain ⟨⟨name, hr⟩, rfl⟩ := hone
    obtain rfl := Except.ok.inj h
    exact ⟨(mergedMeta_singleton hr).symm, by simp [candlesOf], .inl ⟨name, rfl⟩⟩
  · obtain ⟨m, hmerge, rfl⟩ := exists_mergeHistory_of_ne_single (not_exists.1 hone) h
    have hm := (mergeHistory_eq_ok hmerge).2
    refine ⟨hm ▸ meta_mergeStateOf _, fun t => ?_, .inr ⟨not_exists.1 hone, ?_⟩⟩
    · rw [← ts_mergeStateOf, ← hm]
      simp [stripUnadjusted]
    · exact wellFormed_stripUnadjusted.2 (wellFormed_of_mergeHistory hmerge)

end

/-! ## The final resampling -/

/-- The cadence of the final resampling, if there is one. -/
def finalCadence (cfg : HistoryConfig) (candles : List (Candle A)) : Option Cadence :=
  match cfg.resampling with
  | .weekly => some .weekly
  | .daily => some .daily
  | .none => if cfg.autoResampleSubdailyToDaily && isSubdaily candles then some .daily else none

omit [LinearOrder A] [ToString DateTime] in
theorem finalCadence_length {cfg : HistoryConfig} {candles : List (Candle A)} {cadence : Cadence}
    (h : finalCadence cfg candles = some cadence) : 0 < cadence.length := by
  rw [finalCadence] at h
  split at h
  · obtain rfl := Option.some.inj h
    decide
  · obtain rfl := Option.some.inj h
    decide
  · split at h
    · obtain rfl := Option.some.inj h
      decide
    · cases h

omit [LinearOrder A] [ToString DateTime] in
theorem finalCadence_congr {cfg : HistoryConfig} {candles candles' : List (Candle A)}
    (hts : ∀ t, (∃ c ∈ candles, c.ts = t) ↔ ∃ c ∈ candles', c.ts = t) :
    finalCadence cfg candles = finalCadence cfg candles' := by
  rw [finalCadence, finalCadence, isSubdaily_congr hts]

theorem applyFinalResample_eq (cfg : HistoryConfig) (merged : HistoryResponse A) :
    applyFinalResample cfg merged =
      match finalCadence cfg merged.candles with
      | some cadence => do
        let candles ← cadence.resampleWithMeta merged.candles merged.meta
        return { merged with candles := stripUnadjusted candles }
      | none => .ok merged := by
  rw [applyFinalResample, finalCadence]
  cases cfg.resampling with
  | weekly | daily => rfl
  | none =>
    cases cfg.autoResampleSubdailyToDaily with
    | false => rfl
    | true => cases isSubdaily merged.candles <;> rfl

/-- The result of the final resampling is well formed when its buckets are in order, or without a
resampling when the candles are well formed. -/
theorem wellFormed_of_applyFinalResample_iff {cfg : HistoryConfig} {merged out : HistoryResponse A}
    (h : applyFinalResample cfg merged = .ok out) :
    WellFormed out.candles ↔
      match finalCadence cfg merged.candles with
      | some cadence => InZoneOrder cadence merged.meta merged.candles
      | none => WellFormed merged.candles := by
  rw [applyFinalResample_eq] at h
  cases hcad : finalCadence cfg merged.candles with
  | none =>
    rw [hcad] at h
    obtain rfl := Except.ok.inj h
    rfl
  | some cadence =>
    rw [hcad] at h
    obtain ⟨candles, hres, h⟩ := bind_eq_ok.1 h
    obtain rfl := Except.ok.inj h
    rw [wellFormed_stripUnadjusted]
    exact wellFormed_of_resample_iff (finalCadence_length hcad) hres

/-! ## Results -/

/-- The successes that contribute to the result. -/
def contributing (cfg : HistoryConfig) (joined : List (HistoryTaskResult A)) : List (HistoryOk A) :=
  filterAdjustedness cfg (orderResults cfg (joined.filterMap (·.success)))

omit [LinearOrder A] [ToString DateTime] in
theorem mem_filterAdjustedness {cfg : HistoryConfig} {results : List (HistoryOk A)}
    {r : HistoryOk A} (h : r ∈ filterAdjustedness cfg results) : r ∈ results := by
  rw [filterAdjustedness] at h
  split at h <;> exact (List.mem_filter.1 h).1

omit [LinearOrder A] [ToString DateTime] in
theorem mem_orderResults {cfg : HistoryConfig} {results : List (HistoryOk A)} {r : HistoryOk A} :
    r ∈ orderResults cfg results ↔ r ∈ results := by
  rw [orderResults]
  split <;> exact SortKey.mem_sortByKey

/-- Every success that contributes is that of an answer. -/
theorem exists_success_of_mem_contributing {cfg : HistoryConfig}
    {joined : List (HistoryTaskResult A)} {r : HistoryOk A} (h : r ∈ contributing cfg joined) :
    ∃ task ∈ joined, task.success = some r :=
  List.mem_filterMap.1 (mem_orderResults.1 (mem_filterAdjustedness h))

/-- The contributing answers, resampled by their plans. -/
def contributions (cfg : HistoryConfig) (joined : List (HistoryTaskResult A)) :
    List (HistoryResponse A) :=
  (contributing cfg joined).map (·.resp)

/-- The candles of the contributing answers are put in order on their way to the result. If they are
resampled at last, the buckets of that resampling are in order. If they are not, the candles of an
answer that contributes alone are well formed once they are resampled by its plan. -/
def StaysWellFormed (cfg : HistoryConfig) (joined : List (HistoryTaskResult A)) : Prop :=
  match finalCadence cfg (candlesOf (contributions cfg joined)) with
  | some cadence =>
    InZoneOrder cadence (mergedMeta (contributions cfg joined)) (candlesOf (contributions cfg joined))
  | none => ∀ task ∈ joined, ∀ r, contributing cfg joined = [r] → task.success = some r → task.Kept

variable [DefaultHasher A]

/-- The stages of a result. -/
theorem finalizeHistoryResults_eq_ok {cfg : HistoryConfig} {order : HashOrder}
    {joined : List (HistoryTaskResult A)} {symbol : String} {out : HistoryResponse A}
    {attr : Attribution} (h : finalizeHistoryResults cfg order joined symbol = .ok (out, attr)) :
    ∃ merged, mergeHistoryOrTagConnectorError order
        ((contributing cfg joined).map fun r => (r.name, r.resp)) = .ok merged ∧
      applyFinalResample cfg merged = .ok out := by
  rw [finalizeHistoryResults] at h
  obtain ⟨⟨results, errors⟩, hcollect, h⟩ := bind_eq_ok.1 h
  rw [collectSuccesses_eq_ok hcollect] at h
  dsimp only at h
  split at h
  · cases h
  · obtain ⟨-, -, h⟩ := bind_eq_ok.1 h
    obtain ⟨merged, hmerge, h⟩ := bind_eq_ok.1 h
    obtain ⟨out', hfinal, h⟩ := bind_eq_ok.1 h
    obtain ⟨rfl, -⟩ := Prod.mk.inj (Except.ok.inj h)
    exact ⟨merged, ofResult_eq_ok.1 hmerge, hfinal⟩

/-- A result is well formed exactly when the candles of the contributing answers are put in order on
their way to it. -/
theorem finalizeHistoryResults_wellFormed_iff {cfg : HistoryConfig} {order : HashOrder}
    {joined : List (HistoryTaskResult A)} {symbol : String} {out : HistoryResponse A}
    {attr : Attribution} (h : finalizeHistoryResults cfg order joined symbol = .ok (out, attr)) :
    WellFormed out.candles ↔ StaysWellFormed cfg joined := by
  obtain ⟨merged, hmerge, hfinal⟩ := finalizeHistoryResults_eq_ok h
  obtain ⟨hmeta, hts, hsingle⟩ := mergeHistoryOrTagConnectorError_eq_ok hmerge
  have hrs : ((contributing cfg joined).map fun r => (r.name, r.resp)).map Prod.snd =
      contributions cfg joined := List.map_map
  rw [hrs] at hmeta hts
  rw [wellFormed_of_applyFinalResample_iff hfinal, finalCadence_congr hts, hmeta, StaysWellFormed]
  cases finalCadence cfg (candlesOf (contributions cfg joined)) with
  | some cadence => exact inZoneOrder_congr hts
  | none =>
    rcases hsingle with ⟨name, hone⟩ | ⟨hmany, hwf⟩
    · obtain ⟨r, hr, heq⟩ := List.map_eq_singleton_iff.1 hone
      obtain ⟨rfl, rfl⟩ := Prod.mk.inj heq
      obtain ⟨task, htask, hsucc⟩ := exists_success_of_mem_contributing (hr ▸ List.mem_singleton_self r)
      constructor
      · intro h task' _ r' hr' hsucc'
        obtain rfl : r = r' := List.singleton_inj.1 (hr.symm.trans hr')
        exact (HistoryTaskResult.wellFormed_success_iff hsucc').1 h
      · intro h
        exact (HistoryTaskResult.wellFormed_success_iff hsucc).2 (h task htask r hr hsucc)
    · refine iff_of_true hwf fun task _ r hr _ => ?_
      exact absurd (by rw [hr]; rfl) (hmany (r.name, r.resp))

end

section
local instance textWellFormed : ToString DateTime := ⟨fun ts => toString ts.nanos⟩

/-- A history of the candles from one provider, without a plan. -/
def singleAnswer (candles : List (Candle ℕ)) : List (HistoryTaskResult ℕ) :=
  [⟨0, "yf", .ok ⟨candles, [], false, none⟩, none⟩]

/-- A candle of the epoch in a currency. -/
def epochCandle (cur : Currency) : Candle ℕ :=
  .flat (.ofTimestamp 0 DateTime.epoch_inCalendar) ⟨10, cur⟩

/-- Two unsorted answers; the first names a time zone five hours behind UTC, the second is resampled
by its plan. -/
def unsortedAnswers : List (HistoryTaskResult ℕ) :=
  [⟨0, "yf", .ok ⟨[dollarCandle 93600 (by decide) 12, dollarCandle 3000 (by decide) 10], [], false,
      some ⟨some (.fixed (-18000)), none⟩⟩, none⟩,
    ⟨1, "av", .ok ⟨[dollarCandle 200000 (by decide) 11, dollarCandle 6600 (by decide) 9], [], false,
      none⟩, some .daily⟩]

/-- The local days of the answers. -/
def localDays : List (Candle ℕ) :=
  [⟨.ofTimestamp (-68400) (by decide), ⟨9, ⟨"USD"⟩⟩, ⟨10, ⟨"USD"⟩⟩, ⟨9, ⟨"USD"⟩⟩, ⟨10, ⟨"USD"⟩⟩,
      none, none⟩,
    dollarCandle 18000 (by decide) 12, dollarCandle 104400 (by decide) 11]

theorem finalizeHistoryResults_wellFormed_iff_localDays :
    WellFormed localDays ↔ StaysWellFormed ⟨false, .daily, false, .deep⟩ unsortedAnswers := by
  have hout : finalizeHistoryResults ⟨false, .daily, false, .deep⟩ .insertion unsortedAnswers "AAPL" =
      .ok (⟨localDays, [], false, some ⟨some (.fixed (-18000)), none⟩⟩, _) := rfl
  exact finalizeHistoryResults_wellFormed_iff hout

/-- Two candles of one provider have one timestamp and different currencies, and both are handed on. -/
theorem not_wellFormed_of_finalizeHistoryResults :
    ¬ ∀ (cfg : HistoryConfig) (joined : List (HistoryTaskResult ℕ)) (symbol : String)
        (out : HistoryResponse ℕ) (attr : Attribution),
      finalizeHistoryResults cfg .insertion joined symbol = .ok (out, attr) →
        WellFormed out.candles := by
  intro h
  let candles := [epochCandle ⟨"USD"⟩, epochCandle ⟨"EUR"⟩]
  have hwf := h ⟨false, .none, false, .deep⟩ (singleAnswer candles) "AAPL"
    ⟨candles, [], false, none⟩ _ rfl
  have hlt : (epochCandle ⟨"USD"⟩).ts < (epochCandle ⟨"EUR"⟩).ts :=
    List.rel_of_pairwise_cons hwf.1 List.mem_cons_self
  exact lt_irrefl _ hlt

end

end Borsa
