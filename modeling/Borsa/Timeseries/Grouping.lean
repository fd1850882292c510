import Borsa.Lib.Runs
import Borsa.Timeseries.Resample

/-!
# Resampling groups adjacent candles

`resample_by` keeps one bucket open. So it aggregates the runs of adjacent candles with one bucket,
of the candles in the order of time that have one. `resampleBy_eq_ok` says so whatever the currencies
and the bucket function are, and `resampleBy_of_singleCurrency` gives the result in closed form when
all candles are in one currency: no currency check fails then, and only a bucket function can.
-/

namespace Borsa

open Fallible

section
variable {A : Type}

/-! ## Candles with their buckets -/

/-- The bucket of an instant, where the bucket function does not fail. -/
def bucketAt (bucketOf : DateTime → Bucket) (ts : DateTime) : Option DateTime :=
  match bucketOf ts with
  | .ok b => b
  | .error _ => none

/-- A candle that has a bucket, with its bucket. -/
def tag (bucketOf : DateTime → Bucket) (c : Candle A) : Option (DateTime × Candle A) :=
  (bucketAt bucketOf c.ts).map fun b => (b, c)

/-- The candles that have a bucket, each with it, in the order of time. -/
def tagged (bucketOf : DateTime → Bucket) (candles : List (Candle A)) :
    List (DateTime × Candle A) :=
  (SortKey.sortByKey (·.ts) candles).filterMap (tag bucketOf)

/-- The bucket function does not fail on the candles. -/
def Total (bucketOf : DateTime → Bucket) (candles : List (Candle A)) : Prop :=
  ∀ c ∈ candles, ∃ b, bucketOf c.ts = .ok b

theorem bucketAt_eq_some {bucketOf : DateTime → Bucket} {ts b : DateTime} :
    bucketAt bucketOf ts = some b ↔ bucketOf ts = .ok (some b) := by
  rw [bucketAt]
  split <;> simp_all

theorem mem_tagged {bucketOf : DateTime → Bucket} {candles : List (Candle A)}
    {x : DateTime × Candle A} :
    x ∈ tagged bucketOf candles ↔ x.2 ∈ candles ∧ bucketOf x.2.ts = .ok (some x.1) := by
  obtain ⟨b, c⟩ := x
  simp only [tagged, tag, List.mem_filterMap, SortKey.mem_sortByKey, Option.map_eq_some_iff,
    bucketAt_eq_some]
  constructor
  · rintro ⟨d, hd, b', hb', heq⟩
    obtain ⟨rfl, rfl⟩ := Prod.mk.inj heq
    exact ⟨hd, hb'⟩
  · rintro ⟨hc, hb⟩
    exact ⟨c, hc, b, hb, rfl⟩

/-- The tagged candles are in the order of time. -/
theorem pairwise_tagged (bucketOf : DateTime → Bucket) (candles : List (Candle A)) :
    (tagged bucketOf candles).Pairwise fun x y => x.2.ts ≤ y.2.ts := by
  refine List.pairwise_filterMap.2 ((SortKey.pairwise_sortByKey _ candles).imp ?_)
  intro c d hle x hx y hy
  obtain ⟨b, -, rfl⟩ := Option.map_eq_some_iff.1 hx
  obtain ⟨b', -, rfl⟩ := Option.map_eq_some_iff.1 hy
  exact hle

/-- The candles of one bucket. -/
theorem map_snd_filter_tagged (bucketOf : DateTime → Bucket) (candles : List (Candle A))
    (b : DateTime) : ((tagged bucketOf candles).filter fun x => x.1 = b).map Prod.snd =
      (SortKey.sortByKey (·.ts) candles).filter fun c => bucketAt bucketOf c.ts = some b := by
  rw [tagged]
  induction SortKey.sortByKey (·.ts) candles with
  | nil => rfl
  | cons c cs ih =>
    cases hb : bucketAt bucketOf c.ts with
    | none =>
      have htag : tag bucketOf c = none := by simp [tag, hb]
      rw [List.filterMap_cons_none htag, ih, List.filter_cons]
      simp [hb]
    | some b' =>
      have htag : tag bucketOf c = some (b', c) := by simp [tag, hb]
      rw [List.filterMap_cons_some htag, List.filter_cons, List.filter_cons]
      by_cases h : b' = b <;> simp [hb, h, ih]

variable [LinearOrder A]

/-! ## Runs of candles -/

/-- The aggregate of a bucket's candles. -/
def aggregate (c : Candle A) (cs : List (Candle A)) : BucketAgg A :=
  cs.foldl BucketAgg.extend (.ofCandle c)

theorem aggregate_concat (c : Candle A) (cs : List (Candle A)) (d : Candle A) :
    aggregate c (cs ++ [d]) = (aggregate c cs).extend d := by
  rw [aggregate, List.foldl_append]
  rfl

theorem open_aggregate (c : Candle A) (cs : List (Candle A)) :
    (aggregate c cs).open = c.open := by
  induction cs using List.reverseRecOn with
  | nil => rfl
  | append_singleton cs d ih => rw [aggregate_concat]; exact ih

theorem close_aggregate (c : Candle A) (cs : List (Candle A)) :
    (c :: cs).getLast?.map (·.close) = some (aggregate c cs).close := by
  cases cs using List.reverseRecOn with
  | nil => rfl
  | append_singleton cs d => rw [aggregate_concat, ← List.cons_append, List.getLast?_concat]; rfl

/-- The high is the first of the highest. -/
theorem argmax_high (c : Candle A) (cs : List (Candle A)) :
    ((c :: cs).map (·.high)).argmax (·.amount) = some (aggregate c cs).high := by
  induction cs using List.reverseRecOn with
  | nil => rfl
  | append_singleton cs d ih =>
    rw [← List.cons_append, List.map_append, List.map_singleton, List.argmax_concat, ih,
      aggregate_concat]
    simp only [BucketAgg.extend]
    split <;> rfl

/-- The low is the first of the lowest. -/
theorem argmin_low (c : Candle A) (cs : List (Candle A)) :
    ((c :: cs).map (·.low)).argmin (·.amount) = some (aggregate c cs).low := by
  induction cs using List.reverseRecOn with
  | nil => rfl
  | append_singleton cs d ih =>
    rw [← List.cons_append, List.map_append, List.map_singleton, List.argmin_concat, ih,
      aggregate_concat]
    simp only [BucketAgg.extend]
    split <;> rfl

/-- The candle that a run becomes. -/
def bucketCandle : List (DateTime × Candle A) → Option (Candle A)
  | [] => none
  | x :: rest => some ((aggregate x.2 (rest.map Prod.snd)).candle x.1)

theorem exists_bucketCandle {run : List (DateTime × Candle A)} (hne : run ≠ []) :
    ∃ o, bucketCandle run = some o := by
  cases run with
  | nil => exact absurd rfl hne
  | cons x rest => exact ⟨_, rfl⟩

/-- The candle of a run has the bucket of the run as its timestamp. -/
theorem ts_of_bucketCandle {run : List (DateTime × Candle A)} {o : Candle A}
    (h : bucketCandle run = some o) : ∃ x ∈ run, o.ts = x.1 := by
  cases run with
  | nil => cases h
  | cons x rest =>
    obtain rfl := Option.some.inj h
    exact ⟨x, List.mem_cons_self, rfl⟩

/-- The candles of the runs are ascending exactly when the buckets are in order. -/
theorem ascending_bucketCandles (l : List (DateTime × Candle A)) :
    Ascending ((Runs.runs Prod.fst l).filterMap bucketCandle) ↔
      l.Pairwise fun x y => x.1 ≤ y.1 := by
  rw [← Runs.pairwise_runs_iff Prod.fst, Ascending, List.pairwise_filterMap]
  constructor
  · refine fun h => h.imp_of_mem fun {r s} hr hs hlt x hx y hy => ?_
    obtain ⟨o, ho⟩ := exists_bucketCandle (Runs.ne_nil_of_mem_runs hr)
    obtain ⟨o', ho'⟩ := exists_bucketCandle (Runs.ne_nil_of_mem_runs hs)
    obtain ⟨x', hx', hox⟩ := ts_of_bucketCandle ho
    obtain ⟨y', hy', hoy⟩ := ts_of_bucketCandle ho'
    have := hlt o ho o' ho'
    rwa [hox, hoy, Runs.sameKey_of_mem_runs hr x' hx' x hx,
      Runs.sameKey_of_mem_runs hs y' hy' y hy] at this
  · refine fun h => h.imp fun {r s} hlt o ho o' ho' => ?_
    obtain ⟨x, hx, hox⟩ := ts_of_bucketCandle ho
    obtain ⟨y, hy, hoy⟩ := ts_of_bucketCandle ho'
    rw [hox, hoy]
    exact hlt x hx y hy

/-- When the buckets are in order, each becomes one candle. -/
theorem mem_bucketCandles {l : List (DateTime × Candle A)} (hsorted : l.Pairwise fun x y => x.1 ≤ y.1)
    {o : Candle A} : o ∈ (Runs.runs Prod.fst l).filterMap bucketCandle ↔
      ∃ x ∈ l, bucketCandle (l.filter fun y => y.1 = x.1) = some o := by
  simp only [List.mem_filterMap, Runs.mem_runs_of_sorted hsorted]
  constructor
  · rintro ⟨_, ⟨x, hx, rfl⟩, ho⟩
    exact ⟨x, hx, ho⟩
  · rintro ⟨x, hx, ho⟩
    exact ⟨_, ⟨x, hx, rfl⟩, ho⟩

variable [ToString DateTime]

/-- The checks and the output of one run. -/
def closeRun (st : List (Candle A) × Option Currency) :
    List (DateTime × Candle A) → Except Failure (List (Candle A) × Option Currency)
  | [] => .ok st
  | x :: rest => do
    let agg ← (rest.map Prod.snd).foldlM (extendBucket x.1) (.ofCandle x.2)
    finalizeBucket st.1 st.2 x.1 agg

/-- The resampled series of tagged candles. -/
def resampleTagged (tagged : List (DateTime × Candle A)) : Except Failure (List (Candle A)) := do
  let st ← (Runs.runs Prod.fst tagged).foldlM closeRun ([], none)
  return st.1

/-- The checks of a run that is not complete. -/
def openRun (st : List (Candle A) × Option Currency) :
    List (DateTime × Candle A) → Except Failure (ResampleState A)
  | [] => .ok ⟨st.1, st.2, none⟩
  | x :: rest => do
    let agg ← (rest.map Prod.snd).foldlM (extendBucket x.1) (.ofCandle x.2)
    return ⟨st.1, st.2, some (x.1, agg)⟩

/-- Finishing the open run closes it. -/
theorem openRun_resampleFinish (st : List (Candle A) × Option Currency)
    {run : List (DateTime × Candle A)} (hne : run ≠ []) :
    (openRun st run >>= resampleFinish) = (closeRun st run >>= fun st => .ok st.1) := by
  cases run with
  | nil => exact absurd rfl hne
  | cons x rest =>
    rw [openRun, closeRun]
    cases (rest.map Prod.snd).foldlM (extendBucket x.1) (.ofCandle x.2) <;> rfl

/-- The open bucket `x :: g` is extended by the candles to come as long as they have its bucket: the
loop closes all runs but the last. -/
theorem foldlM_resampleStep_open (out : List (Candle A)) (seriesCurrency : Option Currency)
    (x : DateTime × Candle A) (g l : List (DateTime × Candle A)) {agg : BucketAgg A}
    (hsame : Runs.SameKey Prod.fst (x :: g))
    (hagg : (g.map Prod.snd).foldlM (extendBucket x.1) (.ofCandle x.2) = .ok agg) :
    ∃ closed last, Runs.runs Prod.fst (x :: g ++ l) = closed ++ [last] ∧
      l.foldlM (fun st y => resampleStep st y.1 y.2) ⟨out, seriesCurrency, some (x.1, agg)⟩ =
        (closed.foldlM closeRun (out, seriesCurrency) >>= fun st => openRun st last) := by
  induction l generalizing out seriesCurrency x g agg with
  | nil =>
    refine ⟨[], x :: g, ?_, ?_⟩
    · rw [List.append_nil, Runs.runs_of_sameKey (List.cons_ne_nil _ _) hsame]
      rfl
    · simp [openRun, hagg]
  | cons y l ih =>
    rw [List.foldlM_cons, resampleStep]
    by_cases hy : y.1 = x.1
    · simp only [hy, if_true]
      cases hext : extendBucket x.1 agg y.2 with
      | error f =>
        rw [Runs.runs_cons_append hsame]
        rcases List.eq_nil_or_concat (Runs.runs Prod.fst ((y :: l).dropWhile fun z => z.1 = x.1))
          with hrest | ⟨closed, last, hrest⟩
        · refine ⟨[], _, by rw [hrest]; rfl, ?_⟩
          simp [openRun, hy, hagg, hext]
        · refine ⟨(x :: g ++ (y :: l).takeWhile fun z => z.1 = x.1) :: closed, last, ?_, ?_⟩
          · rw [hrest, List.concat_eq_append]
            rfl
          · simp [closeRun, hy, hagg, hext]
      | ok agg' =>
        have hagg' : ((g ++ [y]).map Prod.snd).foldlM (extendBucket x.1) (.ofCandle x.2) =
            .ok agg' := by
          simp [hagg, hext]
        rw [List.append_cons (x :: g) y l]
        exact ih out seriesCurrency x (g ++ [y]) (hsame.concat hy) hagg'
    · have hne : ∀ z ∈ x :: g, z.1 ≠ y.1 := fun z hz h =>
        hy (h.symm.trans (hsame z hz x List.mem_cons_self))
      have hrun : closeRun (out, seriesCurrency) (x :: g) =
          finalizeBucket out seriesCurrency x.1 agg := by
        simp [closeRun, hagg]
      simp only [hy, if_false]
      rw [Runs.runs_append_cons (List.cons_ne_nil _ _) hsame hne]
      cases hfin : finalizeBucket out seriesCurrency x.1 agg with
      | error f =>
        obtain ⟨closed, last, hrest⟩ := Runs.exists_runs_eq_concat Prod.fst y l
        refine ⟨(x :: g) :: closed, last, congrArg ((x :: g) :: ·) hrest, ?_⟩
        rw [List.foldlM_cons, hrun, hfin]
        rfl
      | ok st =>
        obtain ⟨closed, last, hrest, hloop⟩ := ih st.1 st.2 y [] (.singleton y) rfl
        refine ⟨(x :: g) :: closed, last, congrArg ((x :: g) :: ·) hrest, ?_⟩
        rw [List.foldlM_cons, hrun, hfin]
        exact hloop

/-- The loop over tagged candles closes all runs but the last. -/
theorem foldlM_resampleStep_cons (x : DateTime × Candle A) (l : List (DateTime × Candle A)) :
    ∃ closed last, Runs.runs Prod.fst (x :: l) = closed ++ [last] ∧
      (x :: l).foldlM (fun st y => resampleStep st y.1 y.2) ⟨[], none, none⟩ =
        (closed.foldlM closeRun ([], none) >>= fun st => openRun st last) :=
  foldlM_resampleStep_open [] none x [] l (.singleton x) rfl

/-- The loop over tagged candles, and its end, aggregate their runs. -/
theorem foldlM_resampleStep (tagged : List (DateTime × Candle A)) :
    (tagged.foldlM (fun st y => resampleStep st y.1 y.2) ⟨[], none, none⟩ >>= resampleFinish) =
      resampleTagged tagged := by
  cases tagged with
  | nil => rfl
  | cons x l =>
    obtain ⟨closed, last, hruns, hloop⟩ := foldlM_resampleStep_cons x l
    have hmem : last ∈ Runs.runs Prod.fst (x :: l) := by
      rw [hruns]
      exact List.mem_append_right _ (List.mem_singleton_self last)
    have hlast := Runs.ne_nil_of_mem_runs hmem
    rw [hloop, resampleTagged, hruns, List.foldlM_append]
    simp only [List.foldlM_cons, List.foldlM_nil, bind_assoc, bind_pure,
      openRun_resampleFinish _ hlast]
    rfl

/-! ## The loop over all candles -/

/-- The body of the loop of `resample_by`. -/
def resampleBody (bucketOf : DateTime → Bucket) (st : ResampleState A) (c : Candle A) :
    Except Failure (ResampleState A) := do
  match ← bucketOf c.ts with
  | some bucket => resampleStep st bucket c
  | none => return st

theorem resampleBy_eq (candles : List (Candle A)) (bucketOf : DateTime → Bucket) :
    resampleBy candles bucketOf =
      ((SortKey.sortByKey (·.ts) candles).foldlM (resampleBody bucketOf) ⟨[], none, none⟩ >>=
        resampleFinish) := by
  rw [resampleBy]
  cases candles with
  | nil => rfl
  | cons c cs => rfl

/-- The loop looks only at the candles that have a bucket. -/
theorem foldlM_resampleBody {bucketOf : DateTime → Bucket} {cs : List (Candle A)}
    (htotal : Total bucketOf cs) (st : ResampleState A) :
    cs.foldlM (resampleBody bucketOf) st =
      (cs.filterMap (tag bucketOf)).foldlM (fun st y => resampleStep st y.1 y.2) st := by
  induction cs generalizing st with
  | nil => rfl
  | cons c cs ih =>
    obtain ⟨⟨b, hb⟩, hcs⟩ := List.forall_mem_cons.1 htotal
    rw [List.foldlM_cons, resampleBody, hb]
    cases b with
    | none =>
      have htag : tag bucketOf c = none := by simp [tag, bucketAt, hb]
      rw [List.filterMap_cons_none htag]
      exact ih hcs st
    | some b =>
      have htag : tag bucketOf c = some (b, c) := by simp [tag, bucketAt, hb]
      rw [List.filterMap_cons_some htag, List.foldlM_cons, ok_bind]
      exact bind_congr fun st' => ih hcs st'

/-- Where the bucket function does not fail, the runs of tagged candles are aggregated. -/
theorem resampleBy_of_total {bucketOf : DateTime → Bucket} {candles : List (Candle A)}
    (htotal : Total bucketOf candles) :
    resampleBy candles bucketOf = resampleTagged (tagged bucketOf candles) := by
  have htotal' : Total bucketOf (SortKey.sortByKey (·.ts) candles) :=
    fun c hc => htotal c (SortKey.mem_sortByKey.1 hc)
  rw [resampleBy_eq, foldlM_resampleBody htotal', foldlM_resampleStep]
  rfl

/-- A step of the loop calls the bucket function. -/
theorem exists_bucket_of_resampleBody_eq_ok {bucketOf : DateTime → Bucket}
    {st st' : ResampleState A} {c : Candle A} (h : resampleBody bucketOf st c = .ok st') :
    ∃ b, bucketOf c.ts = .ok b := by
  obtain ⟨b, hb, -⟩ := bind_eq_ok.1 h
  exact ⟨b, hb⟩

/-- Resampling succeeds when the bucket function does not fail and no run of candles with one bucket
fails a currency check. -/
theorem resampleBy_eq_ok {bucketOf : DateTime → Bucket} {candles out : List (Candle A)} :
    resampleBy candles bucketOf = .ok out ↔
      Total bucketOf candles ∧ resampleTagged (tagged bucketOf candles) = .ok out := by
  constructor
  · intro h
    have htotal : Total bucketOf candles := by
      intro c hc
      rw [resampleBy_eq] at h
      obtain ⟨st, hfold, -⟩ := bind_eq_ok.1 h
      obtain ⟨_, _, hbody⟩ := exists_step_of_foldlM_eq_ok hfold c (SortKey.mem_sortByKey.2 hc)
      exact exists_bucket_of_resampleBody_eq_ok hbody
    exact ⟨htotal, resampleBy_of_total htotal ▸ h⟩
  · rintro ⟨htotal, h⟩
    rw [resampleBy_of_total htotal, h]

/-! ## What the checks ask -/

/-- The prices of the aggregate are all in the currency. -/
def BucketAgg.In (cur : Currency) (agg : BucketAgg A) : Prop :=
  agg.open.currency = cur ∧ agg.high.currency = cur ∧ agg.low.currency = cur ∧
    agg.close.currency = cur

omit [ToString DateTime] in
theorem BucketAgg.In.extend {cur : Currency} {agg : BucketAgg A} {c : Candle A}
    (hagg : agg.In cur) (hc : c.In cur) : (agg.extend c).In cur := by
  obtain ⟨hopen, hhigh, hlow, -⟩ := hagg
  obtain ⟨-, hhigh', hlow', hclose'⟩ := hc
  refine ⟨hopen, ?_, ?_, hclose'⟩
  · simp only [BucketAgg.extend]
    split <;> assumption
  · simp only [BucketAgg.extend]
    split <;> assumption

omit [ToString DateTime] in
theorem BucketAgg.In.foldl {cur : Currency} {agg : BucketAgg A} {cs : List (Candle A)}
    (hagg : agg.In cur) (hcs : ∀ c ∈ cs, c.In cur) : (cs.foldl BucketAgg.extend agg).In cur := by
  induction cs generalizing agg with
  | nil => exact hagg
  | cons c cs ih =>
    obtain ⟨hc, hcs⟩ := List.forall_mem_cons.1 hcs
    exact ih (hagg.extend hc) hcs

theorem extendBucket_eq_ok {b : DateTime} {agg agg' : BucketAgg A} {c : Candle A} :
    extendBucket b agg c = .ok agg' ↔
      (c.open.currency = agg.high.currency ∧ c.open.currency = agg.low.currency ∧
        c.open.currency = agg.close.currency) ∧ agg' = agg.extend c := by
  have hcheck := ensureCandleCurrencyUniform_eq_ok
    (c := ⟨c.ts, c.open, agg.high, agg.low, agg.close, none, none⟩)
  simp only [Candle.Uniform, Candle.In, true_and] at hcheck
  rw [extendBucket]
  cases hres : ensureCandleCurrencyUniform
    ⟨c.ts, c.open, agg.high, agg.low, agg.close, none, none⟩ with
  | error e => simp only [hres, reduceCtorEq, false_iff] at hcheck ⊢; tauto
  | ok u => simp only [hres, true_iff] at hcheck; simp [hcheck, eq_comm]

omit [LinearOrder A] in
theorem finalizeBucket_eq_ok {out : List (Candle A)} {seriesCurrency : Option Currency}
    {b : DateTime} {agg : BucketAgg A} {st : List (Candle A) × Option Currency} :
    finalizeBucket out seriesCurrency b agg = .ok st ↔
      agg.In agg.open.currency ∧ (∀ cur ∈ seriesCurrency, cur = agg.open.currency) ∧
        st = (out ++ [agg.candle b],
          seriesCurrency.or (if out.isEmpty then some agg.open.currency else none)) := by
  have hcheck : ensureCandleCurrencyUniform
      ⟨b, agg.open, agg.high, agg.low, agg.close, none, none⟩ = .ok () ↔
        agg.In agg.open.currency := ensureCandleCurrencyUniform_eq_ok
  unfold finalizeBucket
  cases hres : ensureCandleCurrencyUniform
    ⟨b, agg.open, agg.high, agg.low, agg.close, none, none⟩ with
  | error e =>
    rw [hres] at hcheck
    have hnot : ¬ agg.In agg.open.currency := fun h => nomatch hcheck.2 h
    simp [hnot]
  | ok u =>
    have hin : agg.In agg.open.currency := hcheck.1 hres
    cases seriesCurrency with
    | none =>
      constructor
      · intro h
        exact ⟨hin, by simp, (Except.ok.inj h).symm⟩
      · rintro ⟨-, -, rfl⟩
        rfl
    | some cur =>
      by_cases hcur : cur = agg.open.currency
      · subst hcur
        constructor
        · intro h
          exact ⟨hin, by simp, (Except.ok.inj ((if_neg (by simp)).symm.trans h)).symm⟩
        · rintro ⟨-, -, rfl⟩
          exact if_neg (by simp)
      · simp [hcur]

/-- The checked aggregation of a bucket gives the aggregate. -/
theorem foldlM_extendBucket {b : DateTime} {agg agg' : BucketAgg A} {cs : List (Candle A)}
    (h : cs.foldlM (extendBucket b) agg = .ok agg') : agg' = cs.foldl BucketAgg.extend agg := by
  induction cs generalizing agg with
  | nil => exact (Except.ok.inj h).symm
  | cons c cs ih =>
    obtain ⟨agg₁, hext, h⟩ := foldlM_cons_eq_ok.1 h
    rw [ih h, List.foldl_cons, (extendBucket_eq_ok.1 hext).2]

/-- A run is output as its aggregate. -/
theorem closeRun_eq_ok {st st' : List (Candle A) × Option Currency}
    {run : List (DateTime × Candle A)} (h : closeRun st run = .ok st') :
    st'.1 = st.1 ++ (bucketCandle run).toList := by
  cases run with
  | nil => simp [← Except.ok.inj h, bucketCandle]
  | cons x rest =>
    obtain ⟨agg, hagg, h⟩ := bind_eq_ok.1 h
    obtain ⟨-, -, rfl⟩ := finalizeBucket_eq_ok.1 h
    simp [bucketCandle, aggregate, foldlM_extendBucket hagg]

/-- Whatever the currencies, a resampled series lists the aggregates of the runs. -/
theorem resampleTagged_eq_ok {tagged : List (DateTime × Candle A)} {out : List (Candle A)}
    (h : resampleTagged tagged = .ok out) :
    out = (Runs.runs Prod.fst tagged).filterMap bucketCandle := by
  obtain ⟨st, hfold, h⟩ := bind_eq_ok.1 h
  have hstep : ∀ (st : List (Candle A) × Option Currency) run st', closeRun st run = .ok st' →
      st'.1 = st.1 ++ (bucketCandle run).toList := fun _ _ _ hrun => closeRun_eq_ok hrun
  rw [← Except.ok.inj h]
  exact foldlM_collects hstep hfold

/-! ## Candles in one currency -/

section
variable {cur : Currency}

theorem foldlM_extendBucket_of_in (b : DateTime) {agg : BucketAgg A} {cs : List (Candle A)}
    (hagg : agg.In cur) (hcs : ∀ c ∈ cs, c.In cur) :
    cs.foldlM (extendBucket b) agg = .ok (cs.foldl BucketAgg.extend agg) := by
  induction cs generalizing agg with
  | nil => rfl
  | cons c cs ih =>
    obtain ⟨hc, hcs⟩ := List.forall_mem_cons.1 hcs
    have hext : extendBucket b agg c = .ok (agg.extend c) := by
      refine extendBucket_eq_ok.2 ⟨?_, rfl⟩
      rw [hc.1, hagg.2.1, hagg.2.2.1, hagg.2.2.2]
      exact ⟨rfl, rfl, rfl⟩
    rw [List.foldlM_cons, hext, List.foldl_cons]
    exact ih (hagg.extend hc) hcs

omit [LinearOrder A] in
theorem finalizeBucket_of_in (out : List (Candle A)) {seriesCurrency : Option Currency}
    {agg : BucketAgg A} (b : DateTime) (hseries : ∀ c ∈ seriesCurrency, c = cur)
    (hagg : agg.In cur) : ∃ seriesCurrency', finalizeBucket out seriesCurrency b agg =
      .ok (out ++ [agg.candle b], seriesCurrency') ∧ ∀ c ∈ seriesCurrency', c = cur := by
  refine ⟨_, finalizeBucket_eq_ok.2 ⟨?_, ?_, rfl⟩, ?_⟩
  · rw [hagg.1]
    exact hagg
  · rw [hagg.1]
    exact hseries
  · intro c hc
    rcases Option.or_eq_some_iff.1 hc with hc | ⟨-, hc⟩
    · exact hseries c hc
    · split at hc
      · rw [← Option.some.inj hc, hagg.1]
      · cases hc

theorem closeRun_of_in {st : List (Candle A) × Option Currency}
    {run : List (DateTime × Candle A)} (hst : ∀ c ∈ st.2, c = cur) (hrun : ∀ x ∈ run, x.2.In cur) :
    ∃ seriesCurrency, closeRun st run = .ok (st.1 ++ (bucketCandle run).toList, seriesCurrency) ∧
      ∀ c ∈ seriesCurrency, c = cur := by
  cases run with
  | nil => exact ⟨st.2, by simp [closeRun, bucketCandle], hst⟩
  | cons x rest =>
    obtain ⟨hx, hrest⟩ := List.forall_mem_cons.1 hrun
    have hcs : ∀ c ∈ rest.map Prod.snd, c.In cur := List.forall_mem_map.2 hrest
    have hfirst : (BucketAgg.ofCandle x.2).In cur := hx
    obtain ⟨seriesCurrency, hfin, hseries⟩ :=
      finalizeBucket_of_in st.1 x.1 hst (hfirst.foldl hcs)
    refine ⟨seriesCurrency, ?_, hseries⟩
    rw [closeRun, foldlM_extendBucket_of_in x.1 hfirst hcs]
    exact hfin

/-- No currency check fails on candles in one currency. -/
theorem resampleTagged_of_in {tagged : List (DateTime × Candle A)}
    (h : ∀ x ∈ tagged, x.2.In cur) :
    resampleTagged tagged = .ok ((Runs.runs Prod.fst tagged).filterMap bucketCandle) := by
  have hstep : ∀ run ∈ Runs.runs Prod.fst tagged, ∀ st : List (Candle A) × Option Currency,
      (∀ c ∈ st.2, c = cur) → ∃ st', closeRun st run = .ok st' ∧ ∀ c ∈ st'.2, c = cur := by
    intro run hrun st hst
    obtain ⟨seriesCurrency, hclose, hseries⟩ :=
      closeRun_of_in hst fun x hx => h x (Runs.mem_of_mem_runs hrun hx)
    exact ⟨_, hclose, hseries⟩
  obtain ⟨st, hst, -⟩ := exists_foldlM_eq_ok (b := ([], none)) hstep (by simp)
  have hok : resampleTagged tagged = .ok st.1 := by rw [resampleTagged, hst]; rfl
  rw [hok, ← resampleTagged_eq_ok hok]

/-- A candle of the currency keeps the open bucket in the currency. -/
theorem resampleStep_of_in {st : ResampleState A} {c : Candle A} (b : DateTime)
    (hseries : ∀ c ∈ st.seriesCurrency, c = cur) (hcurrent : ∀ x ∈ st.current, x.2.In cur)
    (hc : c.In cur) : ∃ st', resampleStep st b c = .ok st' ∧
      (∀ c ∈ st'.seriesCurrency, c = cur) ∧ ∀ x ∈ st'.current, x.2.In cur := by
  have hnew : ∀ x ∈ some (b, BucketAgg.ofCandle c), x.2.In cur := by
    intro x hx
    rw [← Option.some.inj hx]
    exact hc
  rw [resampleStep]
  cases hcur : st.current with
  | none => exact ⟨_, rfl, hseries, hnew⟩
  | some x =>
    have hx := hcurrent x hcur
    by_cases hb : b = x.1
    · have hext : extendBucket x.1 x.2 c = .ok (x.2.extend c) :=
        extendBucket_eq_ok.2 ⟨by rw [hc.1, hx.2.1, hx.2.2.1, hx.2.2.2]; exact ⟨rfl, rfl, rfl⟩, rfl⟩
      refine ⟨{ st with current := some (x.1, x.2.extend c) }, by simp [hb, hext], hseries, ?_⟩
      intro y hy
      rw [← Option.some.inj hy]
      exact hx.extend hc
    · obtain ⟨seriesCurrency, hfin, hseries'⟩ :=
        finalizeBucket_of_in st.out x.1 hseries hx
      exact ⟨⟨st.out ++ [x.2.candle x.1], seriesCurrency, some (b, .ofCandle c)⟩,
        by simp [hb, hfin], hseries', hnew⟩

/-- Where the bucket function fails on some candle in one currency, so does the loop. -/
theorem foldlM_resampleBody_eq_error {bucketOf : DateTime → Bucket}
    (hpanic : ∀ ts f, bucketOf ts = .error f → f = .panic) {cs : List (Candle A)}
    {st : ResampleState A} (hseries : ∀ c ∈ st.seriesCurrency, c = cur)
    (hcurrent : ∀ x ∈ st.current, x.2.In cur) (hcs : ∀ c ∈ cs, c.In cur)
    (hnot : ¬ Total bucketOf cs) : cs.foldlM (resampleBody bucketOf) st = .error .panic := by
  induction cs generalizing st with
  | nil => exact absurd (by simp [Total]) hnot
  | cons c cs ih =>
    obtain ⟨hc, hcs⟩ := List.forall_mem_cons.1 hcs
    rw [List.foldlM_cons, resampleBody]
    cases hb : bucketOf c.ts with
    | error f => rw [hpanic c.ts f hb]; rfl
    | ok b =>
      have hnot' : ¬ Total bucketOf cs := fun h => hnot (List.forall_mem_cons.2 ⟨⟨b, hb⟩, h⟩)
      cases b with
      | none => exact ih hseries hcurrent hcs hnot'
      | some b =>
        obtain ⟨st', hstep, hseries', hcurrent'⟩ := resampleStep_of_in b hseries hcurrent hc
        simp only [ok_bind, hstep]
        exact ih hseries' hcurrent' hcs hnot'

/-- The resampled series of candles in one currency. -/
theorem resampleBy_of_singleCurrency {bucketOf : DateTime → Bucket} {candles : List (Candle A)}
    (hcur : SingleCurrency candles) (htotal : Total bucketOf candles) :
    resampleBy candles bucketOf =
      .ok ((Runs.runs Prod.fst (tagged bucketOf candles)).filterMap bucketCandle) := by
  obtain ⟨cur, hcur⟩ := hcur
  rw [resampleBy_of_total htotal]
  exact resampleTagged_of_in fun x hx => hcur x.2 (mem_tagged.1 hx).1

/-- Candles in one currency are resampled unless a bucket function panics. -/
theorem resampleBy_eq_panic {bucketOf : DateTime → Bucket}
    (hpanic : ∀ ts f, bucketOf ts = .error f → f = .panic) {candles : List (Candle A)}
    (hcur : SingleCurrency candles) (hnot : ¬ Total bucketOf candles) :
    resampleBy candles bucketOf = .error .panic := by
  obtain ⟨cur, hcur⟩ := hcur
  have hnot' : ¬ Total bucketOf (SortKey.sortByKey (·.ts) candles) :=
    fun h => hnot fun c hc => h c (SortKey.mem_sortByKey.2 hc)
  rw [resampleBy_eq, foldlM_resampleBody_eq_error hpanic (by simp) (by simp)
    (fun c hc => hcur c (SortKey.mem_sortByKey.1 hc)) hnot']
  rfl

end

end

end Borsa
