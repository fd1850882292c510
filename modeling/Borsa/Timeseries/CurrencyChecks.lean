import Borsa.Timeseries.Cadence

/-!
# What the currency checks see

`resample_by` checks the open of a further candle of a bucket against the aggregate of those before
it, and the aggregate of the whole bucket once it is complete. `resampleTagged_isOk` says what these
checks ask of the candles. They do not look at a high or a low that is not a new extreme, so they are
no test that the candles are in one currency: `hidesNoMix_iff` says when none in another is let
through.
-/

namespace Borsa

open Fallible

section
variable {A : Type} [LinearOrder A]

/-- The currencies that a check sees in candles: those of the highest high, of the lowest low and of
the last close. -/
def seen (cs : List (Candle A)) : List Currency :=
  (((cs.map (·.high)).argmax (·.amount)).toList ++ ((cs.map (·.low)).argmin (·.amount)).toList ++
    (cs.map (·.close)).getLast?.toList).map (·.currency)

/-- The checks of a bucket see one currency: each candle opens in the currencies seen before it, and
the first in those seen in the whole bucket. -/
def SeesOne (cs : List (Candle A)) : Prop :=
  (∀ pre c post, cs = pre ++ c :: post → ∀ cur ∈ seen pre, cur = c.open.currency) ∧
    ∀ c, cs.head? = some c → ∀ cur ∈ seen cs, cur = c.open.currency

/-- The checks of all buckets see one currency, and the buckets open in one currency. -/
def SeesOneThroughout (buckets : List (List (Candle A))) : Prop :=
  (∀ cs ∈ buckets, SeesOne cs) ∧
    ∃ cur, ∀ cs ∈ buckets, ∀ c, cs.head? = some c → c.open.currency = cur

/-! ## The checks -/

/-- A property of the items of a list and what precedes them, for one more item. -/
theorem forall_split_concat {α : Type} {P : List α → α → Prop} {l : List α} {e : α} :
    (∀ pre d post, l ++ [e] = pre ++ d :: post → P pre d) ↔
      (∀ pre d post, l = pre ++ d :: post → P pre d) ∧ P l e := by
  constructor
  · intro h
    refine ⟨fun pre d post heq => h pre d (post ++ [e]) (by simp [heq]), h l e [] rfl⟩
  · rintro ⟨h, he⟩ pre d post heq
    cases post using List.reverseRecOn with
    | nil =>
      obtain ⟨rfl, hd⟩ := List.append_inj' heq rfl
      obtain rfl : e = d := by simpa using hd
      exact he
    | append_singleton post e' =>
      rw [← List.cons_append, ← List.append_assoc] at heq
      obtain ⟨rfl, -⟩ := List.append_inj' heq rfl
      exact h pre d post rfl

/-- The aggregate holds what the checks see. -/
theorem seen_cons (c : Candle A) (cs : List (Candle A)) :
    seen (c :: cs) = [(aggregate c cs).high.currency, (aggregate c cs).low.currency,
      (aggregate c cs).close.currency] := by
  rw [seen, argmax_high, argmin_low, List.getLast?_map, close_aggregate]
  rfl

variable [ToString DateTime]

/-- No check on the way through a bucket fails exactly when each candle opens in the currencies seen
before it. -/
theorem foldlM_extendBucket_isOk (b : DateTime) (c : Candle A) (cs : List (Candle A)) :
    (∃ agg, cs.foldlM (extendBucket b) (.ofCandle c) = .ok agg) ↔
      ∀ pre d post, c :: cs = pre ++ d :: post → ∀ cur ∈ seen pre, cur = d.open.currency := by
  induction cs using List.reverseRecOn with
  | nil =>
    refine iff_of_true ⟨_, rfl⟩ fun pre d post heq cur hcur => ?_
    obtain ⟨rfl, -⟩ | ⟨_, rfl, hnil⟩ := List.cons_eq_append_iff.1 heq
    · simp [seen] at hcur
    · simp at hnil
  | append_singleton cs d ih =>
    rw [← List.cons_append, forall_split_concat, ← ih, List.foldlM_append, seen_cons]
    simp only [List.foldlM_cons, List.foldlM_nil, bind_pure]
    constructor
    · rintro ⟨agg', h⟩
      obtain ⟨agg, hagg, h⟩ := bind_eq_ok.1 h
      obtain rfl := foldlM_extendBucket hagg
      obtain ⟨⟨hhigh, hlow, hclose⟩, -⟩ := extendBucket_eq_ok.1 h
      refine ⟨⟨_, hagg⟩, ?_⟩
      simp only [List.mem_cons, List.not_mem_nil, or_false, forall_eq_or_imp, forall_eq]
      exact ⟨hhigh.symm, hlow.symm, hclose.symm⟩
    · rintro ⟨⟨agg, hagg⟩, hseen⟩
      obtain rfl := foldlM_extendBucket hagg
      simp only [List.mem_cons, List.not_mem_nil, or_false, forall_eq_or_imp, forall_eq] at hseen
      obtain ⟨hhigh, hlow, hclose⟩ := hseen
      rw [hagg]
      exact ⟨_, extendBucket_eq_ok.2 ⟨⟨hhigh.symm, hlow.symm, hclose.symm⟩, rfl⟩⟩

/-- A bucket is closed when its checks see one currency, that of the series. -/
theorem closeRun_cons_eq_ok {st st' : List (Candle A) × Option Currency} {x : DateTime × Candle A}
    {rest : List (DateTime × Candle A)} : closeRun st (x :: rest) = .ok st' ↔
      SeesOne ((x :: rest).map Prod.snd) ∧ (∀ cur ∈ st.2, cur = x.2.open.currency) ∧
        st' = (st.1 ++ [(aggregate x.2 (rest.map Prod.snd)).candle x.1],
          st.2.or (if st.1.isEmpty then some x.2.open.currency else none)) := by
  have hpass := foldlM_extendBucket_isOk x.1 x.2 (rest.map Prod.snd)
  have hlast : (aggregate x.2 (rest.map Prod.snd)).In x.2.open.currency ↔
      ∀ c, (x.2 :: rest.map Prod.snd).head? = some c →
        ∀ cur ∈ seen (x.2 :: rest.map Prod.snd), cur = c.open.currency := by
    rw [seen_cons, BucketAgg.In, open_aggregate]
    simp
  rw [List.map_cons, SeesOne, ← hpass, ← hlast, closeRun]
  constructor
  · intro h
    obtain ⟨agg, hagg, h⟩ := bind_eq_ok.1 h
    obtain rfl := foldlM_extendBucket hagg
    obtain ⟨hin, hseries, rfl⟩ := finalizeBucket_eq_ok.1 h
    rw [← aggregate, open_aggregate] at hin hseries ⊢
    exact ⟨⟨⟨_, hagg⟩, hin⟩, hseries, rfl⟩
  · rintro ⟨⟨⟨agg, hagg⟩, hin⟩, hseries, rfl⟩
    obtain rfl := foldlM_extendBucket hagg
    rw [← aggregate] at hagg
    rw [hagg, ok_bind]
    refine finalizeBucket_eq_ok.2 ?_
    rw [open_aggregate]
    exact ⟨hin, hseries, rfl⟩

/-- After the first bucket, the others must open in the currency of the series. -/
theorem foldlM_closeRun_isOk {runs : List (List (DateTime × Candle A))}
    (hne : ∀ run ∈ runs, run ≠ []) (out : List (Candle A)) (cur : Currency) :
    (∃ st, runs.foldlM closeRun (out, some cur) = .ok st) ↔
      ∀ run ∈ runs, SeesOne (run.map Prod.snd) ∧
        ∀ c, (run.map Prod.snd).head? = some c → c.open.currency = cur := by
  induction runs generalizing out with
  | nil => exact iff_of_true ⟨_, rfl⟩ (List.forall_mem_nil _)
  | cons run runs ih =>
    obtain ⟨hrun, hruns⟩ := List.forall_mem_cons.1 hne
    cases run with
    | nil => exact absurd rfl hrun
    | cons x rest =>
      rw [List.forall_mem_cons]
      constructor
      · rintro ⟨st, h⟩
        obtain ⟨_, hclose, h⟩ := foldlM_cons_eq_ok.1 h
        obtain ⟨hsees, hseries, rfl⟩ := closeRun_cons_eq_ok.1 hclose
        refine ⟨⟨hsees, fun c hc => ?_⟩, (ih hruns _).1 ⟨st, h⟩⟩
        rw [← Option.some.inj hc]
        exact (hseries cur rfl).symm
      · rintro ⟨⟨hsees, hcur⟩, hrest⟩
        have hseries : ∀ cur' ∈ some cur, cur' = x.2.open.currency := by
          rintro _ ⟨⟩
          exact (hcur x.2 rfl).symm
        obtain ⟨st, h⟩ := (ih hruns _).2 hrest
        exact ⟨st, foldlM_cons_eq_ok.2 ⟨_, closeRun_cons_eq_ok.2 ⟨hsees, hseries, rfl⟩, h⟩⟩

/-- Complete runs pass the checks exactly when these see one currency throughout. -/
theorem foldlM_closeRun_nil_isOk {runs : List (List (DateTime × Candle A))}
    (hne : ∀ run ∈ runs, run ≠ []) :
    (∃ st, runs.foldlM closeRun ([], none) = .ok st) ↔
      SeesOneThroughout (runs.map fun run => run.map Prod.snd) := by
  rw [SeesOneThroughout, List.forall_mem_map]
  simp only [List.forall_mem_map]
  cases runs with
  | nil => exact iff_of_true ⟨_, rfl⟩ ⟨List.forall_mem_nil _, ⟨""⟩, List.forall_mem_nil _⟩
  | cons run runs =>
    obtain ⟨hrun, hrest⟩ := List.forall_mem_cons.1 hne
    cases run with
    | nil => exact absurd rfl hrun
    | cons x rest =>
      constructor
      · rintro ⟨st, h⟩
        obtain ⟨_, hclose, h⟩ := foldlM_cons_eq_ok.1 h
        obtain ⟨hsees, -, rfl⟩ := closeRun_cons_eq_ok.1 hclose
        have hothers := (foldlM_closeRun_isOk hrest _ _).1 ⟨st, h⟩
        refine ⟨List.forall_mem_cons.2 ⟨hsees, fun run hrun => (hothers run hrun).1⟩,
          x.2.open.currency, List.forall_mem_cons.2 ⟨?_, fun run hrun => (hothers run hrun).2⟩⟩
        intro c hc
        rw [← Option.some.inj hc]
      · rintro ⟨hsees, cur, hcur⟩
        obtain ⟨hsees, hothers⟩ := List.forall_mem_cons.1 hsees
        obtain ⟨hcurx, hcur⟩ := List.forall_mem_cons.1 hcur
        obtain rfl : x.2.open.currency = cur := hcurx x.2 rfl
        obtain ⟨st, h⟩ := (foldlM_closeRun_isOk hrest _ _).2 fun run hrun =>
          ⟨hothers run hrun, hcur run hrun⟩
        exact ⟨st, foldlM_cons_eq_ok.2 ⟨_, closeRun_cons_eq_ok.2 ⟨hsees, by simp, rfl⟩, h⟩⟩

/-- Resampling passes the checks exactly when they see one currency throughout. -/
theorem resampleTagged_isOk (tagged : List (DateTime × Candle A)) :
    (∃ out, resampleTagged tagged = .ok out) ↔
      SeesOneThroughout ((Runs.runs Prod.fst tagged).map fun run => run.map Prod.snd) := by
  have hfold : (∃ out, resampleTagged tagged = .ok out) ↔
      ∃ st, (Runs.runs Prod.fst tagged).foldlM closeRun ([], none) = .ok st := by
    simp [resampleTagged, bind_eq_ok]
  rw [hfold]
  exact foldlM_closeRun_nil_isOk fun _ => Runs.ne_nil_of_mem_runs

/-- A series that passes the checks is in one currency, whatever the candles are in. -/
theorem singleCurrency_of_resampleTagged_eq_ok {tagged : List (DateTime × Candle A)}
    {out : List (Candle A)} (h : resampleTagged tagged = .ok out) : SingleCurrency out := by
  obtain ⟨hsees, cur, hcur⟩ := (resampleTagged_isOk tagged).1 ⟨out, h⟩
  refine ⟨cur, fun o ho => ?_⟩
  rw [resampleTagged_eq_ok h] at ho
  obtain ⟨run, hrun, ho⟩ := List.mem_filterMap.1 ho
  cases run with
  | nil => cases ho
  | cons x rest =>
    have hmem : x.2 :: rest.map Prod.snd ∈
        (Runs.runs Prod.fst tagged).map fun run => run.map Prod.snd :=
      List.mem_map.2 ⟨_, hrun, rfl⟩
    have hopen : x.2.open.currency = cur := hcur _ hmem x.2 rfl
    have hseen := (hsees _ hmem).2 x.2 rfl
    rw [seen_cons, hopen] at hseen
    simp only [List.mem_cons, List.not_mem_nil, or_false, forall_eq_or_imp, forall_eq] at hseen
    rw [← Option.some.inj ho, Candle.In, BucketAgg.candle, open_aggregate]
    exact ⟨hopen, hseen⟩

theorem extendBucket_eq_error {b : DateTime} {agg : BucketAgg A} {c : Candle A} {f : Failure}
    (h : extendBucket b agg c = .error f) : ∃ msg, f = .err (.data msg) := by
  rw [extendBucket] at h
  split at h
  · exact ⟨_, (Except.error.inj h).symm⟩
  · cases h

omit [LinearOrder A] in
theorem finalizeBucket_eq_error {out : List (Candle A)} {seriesCurrency : Option Currency}
    {b : DateTime} {agg : BucketAgg A} {f : Failure}
    (h : finalizeBucket out seriesCurrency b agg = .error f) : ∃ msg, f = .err (.data msg) := by
  unfold finalizeBucket at h
  split at h
  · exact ⟨_, (Except.error.inj h).symm⟩
  · split at h
    · split at h
      · exact ⟨_, (Except.error.inj h).symm⟩
      · cases h
    · cases h

/-- The checks fail with an error about the data. -/
theorem resampleTagged_eq_error {tagged : List (DateTime × Candle A)} {f : Failure}
    (h : resampleTagged tagged = .error f) : ∃ msg, f = .err (.data msg) := by
  have hclose : ∀ st (run : List (DateTime × Candle A)) f, closeRun st run = .error f →
      ∃ msg, f = .err (.data msg) := by
    intro st run f h
    cases run with
    | nil => cases h
    | cons x rest =>
      rcases bind_eq_error.1 h with hagg | ⟨agg, -, h⟩
      · exact foldlM_eq_error (fun _ _ _ h => extendBucket_eq_error h) hagg
      · exact finalizeBucket_eq_error h
  rcases bind_eq_error.1 h with hfold | ⟨st, -, h⟩
  · exact foldlM_eq_error hclose hfold
  · cases h

theorem resampleStep_eq_error {st : ResampleState A} {b : DateTime} {c : Candle A} {f : Failure}
    (h : resampleStep st b c = .error f) : ∃ msg, f = .err (.data msg) := by
  unfold resampleStep at h
  split at h
  · cases h
  · split at h
    · rcases bind_eq_error.1 h with hext | ⟨agg, -, h⟩
      · exact extendBucket_eq_error hext
      · cases h
    · rcases bind_eq_error.1 h with hfin | ⟨out, -, h⟩
      · exact finalizeBucket_eq_error hfin
      · cases h

/-- Besides an overflow in a bucket function, resampling fails with an error about the data. -/
theorem resampleBy_eq_error {bucketOf : DateTime → Bucket}
    (hpanic : ∀ ts f, bucketOf ts = .error f → f = .panic) {candles : List (Candle A)}
    {f : Failure} (h : resampleBy candles bucketOf = .error f) :
    f = .panic ∨ ∃ msg, f = .err (.data msg) := by
  have hbody : ∀ st (c : Candle A) f, resampleBody bucketOf st c = .error f →
      f = .panic ∨ ∃ msg, f = .err (.data msg) := by
    intro st c f h
    rcases bind_eq_error.1 h with hb | ⟨b, -, h⟩
    · exact .inl (hpanic c.ts f hb)
    · cases b with
      | none => cases h
      | some b => exact .inr (resampleStep_eq_error h)
  rw [resampleBy_eq] at h
  rcases bind_eq_error.1 h with hfold | ⟨st, -, h⟩
  · exact foldlM_eq_error hbody hfold
  · unfold resampleFinish at h
    split at h
    · cases h
    · rcases bind_eq_error.1 h with hfin | ⟨out, -, h⟩
      · exact .inr (finalizeBucket_eq_error hfin)
      · cases h

/-! ## Mixes that the checks let through -/

omit [ToString DateTime] in
theorem close_mem_seen (cs : List (Candle A)) (c : Candle A) :
    c.close.currency ∈ seen (cs ++ [c]) := by
  simp [seen]

omit [ToString DateTime] in
/-- If each candle has one currency, a bucket whose checks see one currency has one. -/
theorem SeesOne.in_of_uniform {cs : List (Candle A)} {cur : Currency} (h : SeesOne cs)
    (hhead : ∀ c, cs.head? = some c → c.open.currency = cur) (huniform : ∀ c ∈ cs, c.Uniform) :
    ∀ c ∈ cs, c.In cur := by
  have hprefix : ∀ pre post, cs = pre ++ post → ∀ c ∈ pre, c.In cur := by
    intro pre
    induction pre using List.reverseRecOn with
    | nil => exact fun _ _ _ hc => absurd hc List.not_mem_nil
    | append_singleton pre d ih =>
      intro post heq
      rw [List.append_assoc, List.singleton_append] at heq
      have ih := ih (d :: post) heq
      refine List.forall_mem_append.2 ⟨ih, List.forall_mem_singleton.2 ?_⟩
      have hd : d.open.currency = cur := by
        cases pre using List.reverseRecOn with
        | nil => exact hhead d (by simp [heq])
        | append_singleton pre' e =>
          have hseen := h.1 _ d post heq e.close.currency (close_mem_seen pre' e)
          rw [← hseen]
          exact (ih e (by simp)).2.2.2
      have := huniform d (by simp [heq])
      rwa [Candle.Uniform, hd] at this
  exact hprefix cs [] (List.append_nil cs).symm

/-- The candle falls in a bucket. -/
def Cadence.HasBucket (cadence : Cadence) («meta» : Option HistoryMeta) (c : Candle A) : Prop :=
  0 < cadence.length ∧ ∃ b, cadence.bucketOf «meta» c.ts = .ok (some b)

/-- The candles of the buckets, in the order of time. -/
def Cadence.buckets (cadence : Cadence) («meta» : Option HistoryMeta) (candles : List (Candle A)) :
    List (List (Candle A)) :=
  (Runs.runs Prod.fst (tagged (cadence.bucketOf «meta») candles)).map fun run => run.map Prod.snd

/-- In a series that resampling returns, the candles of the buckets are in one currency, that of the
series. -/
def HidesNoMix (cadence : Cadence) («meta» : Option HistoryMeta) (candles : List (Candle A))
    (result : Except Failure (List (Candle A))) : Prop :=
  ∀ out, result = .ok out → ∀ c ∈ candles, cadence.HasBucket «meta» c →
    ∃ cur, c.In cur ∧ ∀ o ∈ out, o.In cur

/-- Where no check of the buckets sees a mix, no candle of a bucket holds one. -/
def MissesNoMix (cadence : Cadence) («meta» : Option HistoryMeta) (candles : List (Candle A)) :
    Prop :=
  Total (cadence.bucketOf «meta») candles → SeesOneThroughout (cadence.buckets «meta» candles) →
    ∀ c ∈ candles, cadence.HasBucket «meta» c → c.Uniform

omit [ToString DateTime] in
/-- The candle of a run in one currency is in it. -/
theorem bucketCandle_in {cur : Currency} {run : List (DateTime × Candle A)} {o : Candle A}
    (ho : bucketCandle run = some o) (hrun : ∀ x ∈ run, x.2.In cur) : o.In cur := by
  cases run with
  | nil => cases ho
  | cons x rest =>
    obtain ⟨hx, hrest⟩ := List.forall_mem_cons.1 hrun
    have hfirst : (BucketAgg.ofCandle x.2).In cur := hx
    rw [← Option.some.inj ho]
    exact hfirst.foldl (List.forall_mem_map.2 hrest)

/-- Where each candle has one currency, the series that passes the checks is in one currency. -/
theorem resampleTagged_in {tagged : List (DateTime × Candle A)} {out : List (Candle A)}
    (hout : resampleTagged tagged = .ok out) (huniform : ∀ x ∈ tagged, x.2.Uniform) :
    ∃ cur, (∀ x ∈ tagged, x.2.In cur) ∧ ∀ o ∈ out, o.In cur := by
  obtain ⟨hsees, cur, hcur⟩ := (resampleTagged_isOk tagged).1 ⟨out, hout⟩
  have hruns : ∀ run ∈ Runs.runs Prod.fst tagged, ∀ x ∈ run, x.2.In cur := by
    intro run hrun x hx
    have hmem := List.mem_map_of_mem (f := fun run => run.map Prod.snd) hrun
    refine (hsees _ hmem).in_of_uniform (hcur _ hmem) ?_ x.2 (List.mem_map_of_mem hx)
    exact List.forall_mem_map.2 fun y hy => huniform y (Runs.mem_of_mem_runs hrun hy)
  refine ⟨cur, fun x hx => ?_, fun o ho => ?_⟩
  · obtain ⟨run, hrun, hxrun⟩ := Runs.exists_mem_runs Prod.fst hx
    exact hruns run hrun x hxrun
  · rw [resampleTagged_eq_ok hout] at ho
    obtain ⟨run, hrun, ho⟩ := List.mem_filterMap.1 ho
    exact bucketCandle_in ho (hruns run hrun)

/-- A resampler hides no mix of currencies exactly when every mix is seen by a check. When it fails,
its bucket function does, or it returns an error about the data. -/
theorem hidesNoMix_iff (cadence : Cadence) («meta» : Option HistoryMeta)
    (candles : List (Candle A)) :
    (HidesNoMix cadence «meta» candles (cadence.resampleWithMeta candles «meta») ↔
      MissesNoMix cadence «meta» candles) ∧
    («meta» = none → (HidesNoMix cadence «meta» candles (cadence.resample candles) ↔
      MissesNoMix cadence «meta» candles)) ∧
    (Total (cadence.bucketOf «meta») candles →
      (∃ out, cadence.resampleWithMeta candles «meta» = .ok out) ∨
      ∃ msg, cadence.resampleWithMeta candles «meta» = .error (.err (.data msg))) := by
  have hiff : HidesNoMix cadence «meta» candles (cadence.resampleWithMeta candles «meta») ↔
      MissesNoMix cadence «meta» candles := by
    by_cases hpos : 0 < cadence.length
    · rw [Cadence.resampleWithMeta_eq hpos]
      constructor
      · intro h htotal hsees c hc hbucket
        obtain ⟨out, hout⟩ := (resampleTagged_isOk _).2 hsees
        obtain ⟨cur, hin, -⟩ := h out (resampleBy_eq_ok.2 ⟨htotal, hout⟩) c hc hbucket
        exact hin.uniform
      · intro h out hout c hc hbucket
        obtain ⟨htotal, hout⟩ := resampleBy_eq_ok.1 hout
        have huniform := h htotal ((resampleTagged_isOk _).1 ⟨out, hout⟩)
        obtain ⟨cur, hin, hins⟩ := resampleTagged_in hout fun x hx =>
          huniform x.2 (mem_tagged.1 hx).1 ⟨hpos, x.1, (mem_tagged.1 hx).2⟩
        obtain ⟨-, b, hb⟩ := hbucket
        exact ⟨cur, hin (b, c) (mem_tagged.2 ⟨hc, hb⟩), hins⟩
    · exact iff_of_true (fun _ _ _ _ hbucket => absurd hbucket.1 hpos)
        fun _ _ _ _ hbucket => absurd hbucket.1 hpos
  refine ⟨hiff, fun hmeta => ?_, fun htotal => ?_⟩
  · rw [Cadence.resample_eq, ← hmeta]
    exact hiff
  · by_cases hpos : 0 < cadence.length
    · rw [Cadence.resampleWithMeta_eq hpos, resampleBy_of_total htotal]
      cases hres : resampleTagged (tagged (cadence.bucketOf «meta») candles) with
      | ok out => exact .inl ⟨out, rfl⟩
      | error f =>
        obtain ⟨msg, rfl⟩ := resampleTagged_eq_error hres
        exact .inr ⟨msg, rfl⟩
    · exact .inl ⟨candles, Cadence.resampleWithMeta_eq_self hpos _ _⟩

end

section
local instance textChecks : ToString DateTime := ⟨fun ts => toString ts.nanos⟩

/-- Of two candles on one day, the second has its high in another currency; it is not above the first
one's, so no check sees it. -/
theorem not_hidesNoMix :
    ¬ ∀ candles : List (Candle ℕ), HidesNoMix .daily none candles (resampleToDaily candles) := by
  intro h
  let dollar : Money ℕ := ⟨10, ⟨"USD"⟩⟩
  let first : Candle ℕ := .flat (.ofTimestamp 0 (by decide)) dollar
  let second : Candle ℕ :=
    { Candle.flat (.ofTimestamp 60 (by decide)) dollar with high := ⟨10, ⟨"EUR"⟩⟩ }
  obtain ⟨cur, hsecond, hout⟩ := h [first, second] [first] rfl second (by simp)
    ⟨by decide, .ofTimestamp 0 (by decide), rfl⟩
  have heuro : (⟨"EUR"⟩ : Currency) = cur := hsecond.2.1
  have hdollar : (⟨"USD"⟩ : Currency) = cur := hsecond.1
  rw [← hdollar] at heuro
  revert heuro
  decide

end

end Borsa
