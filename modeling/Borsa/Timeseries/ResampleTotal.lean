import Borsa.Timeseries.CurrencyChecks
import Borsa.Timeseries.LocalDays
import Borsa.Timeseries.LocalMinutes

/-!
# When the resamplers panic

A resampler returns a series or an error about the data unless a bucket function leaves a range
(`OutOfRange`). The length of the buckets, `minutes * 60`, may overflow; at an offset, so may the local
time, the start of the bucket there and the same start in UTC; in a time zone the local time may be
outside chrono's calendar. The loop reaches a candle when no check on the candles before it has failed;
these are the checks of the complete buckets and those made so far on the open one (`PassesSoFar`).
`resamplers_total_iff` puts the two together.
-/

namespace Borsa

open Fallible

/-! ## Bucket functions -/

namespace Cadence

/-- Computing the bucket of an instant overflows, or its local time is outside the calendar. -/
def OutOfRange (cadence : Cadence) («meta» : Option HistoryMeta) (ts : DateTime) : Prop :=
  match «meta» with
  | some ⟨some tz, _⟩ => ¬ (InI64 cadence.length ∧ LocalInCalendar tz ts)
  | some ⟨none, some off⟩ => ¬ cadence.Fits off ts.timestamp
  | some ⟨none, none⟩ | none => ¬ InI64 cadence.length

/-- In UTC the start of a bucket is in `i64`. -/
theorem fits_zero_iff {cadence : Cadence} (hpos : 0 < cadence.length) (ts : DateTime) :
    cadence.Fits 0 ts.timestamp ↔ InI64 cadence.length := by
  have hstart : InI64 cadence.length → InI64 (cadence.start 0 ts.timestamp) := by
    intro hlen
    have hbounds := ts.timestamp_bounds
    cases cadence with
    | daily =>
      rw [start_daily]
      simp only [InI64, day, minTimestamp, maxTimestamp] at *
      omega
    | weekly =>
      rw [start_weekly]
      simp only [InI64, weekStartDay, day, minTimestamp, maxTimestamp] at *
      omega
    | minutes n =>
      rw [start_minutes]
      exact inI64_sub_emod hpos hlen ts
  rw [Fits, add_zero, add_zero]
  exact ⟨fun h => h.1, fun h => ⟨h, inI64_timestamp ts, hstart h, hstart h⟩⟩

/-- In a time zone the length of the buckets can overflow, and the local time be outside the
calendar. -/
theorem bucketOf_tz_isOk {cadence : Cadence} (hpos : 0 < cadence.length) (tz : Tz)
    (off : Option ℤ) (ts : DateTime) : (∃ b, cadence.bucketOf (some ⟨some tz, off⟩) ts = .ok b) ↔
      InI64 cadence.length ∧ LocalInCalendar tz ts := by
  cases cadence with
  | daily =>
    rw [and_iff_right (show InI64 daily.length by decide), ← Period.bucketWithTz_isOk_iff,
      Period.bucketWithTz_days]
    rfl
  | weekly =>
    rw [and_iff_right (show InI64 weekly.length by decide), ← Period.bucketWithTz_isOk_iff,
      Period.bucketWithTz_weeks]
    rfl
  | minutes n =>
    have hn : 0 < n := by
      simp only [length] at hpos
      omega
    exact bucketMinutesWithTz_isOk_iff hn ts

/-- A bucket function fails exactly when it leaves a range. -/
theorem bucketOf_isOk_iff {cadence : Cadence} (hpos : 0 < cadence.length)
    («meta» : Option HistoryMeta) (ts : DateTime) :
    (∃ b, cadence.bucketOf «meta» ts = .ok b) ↔ ¬ cadence.OutOfRange «meta» ts := by
  have hfixed : ∀ off, FixedOffset «meta» off →
      ((∃ b, cadence.bucketOf «meta» ts = .ok b) ↔ cadence.Fits off ts.timestamp) := by
    intro off hoff
    rw [bucketOf_eq cadence hoff]
    split
    · next h => exact iff_of_true ⟨_, rfl⟩ h
    · next h => exact iff_of_false (by simp) h
  rcases «meta» with _ | ⟨_ | tz, _ | off⟩
  · exact (hfixed 0 rfl).trans ((fits_zero_iff hpos ts).trans not_not.symm)
  · exact (hfixed 0 ⟨rfl, rfl⟩).trans ((fits_zero_iff hpos ts).trans not_not.symm)
  · exact (hfixed off ⟨rfl, rfl⟩).trans not_not.symm
  · exact (bucketOf_tz_isOk hpos tz none ts).trans not_not.symm
  · exact (bucketOf_tz_isOk hpos tz (some off) ts).trans not_not.symm

end Cadence

/-! ## The checks made so far -/

section
variable {A : Type} [LinearOrder A]

/-- No check has failed while the last bucket is open: those of the complete buckets see one currency
throughout, and each further candle of the open one opens in the currencies seen before it. -/
def PassesSoFar (buckets : List (List (Candle A))) : Prop :=
  SeesOneThroughout buckets.dropLast ∧ ∀ cs ∈ buckets.getLast?, ∀ pre c post,
    cs = pre ++ c :: post → ∀ cur ∈ seen pre, cur = c.open.currency

variable [ToString DateTime]

/-- The loop gets through tagged candles exactly when no check fails so far. -/
theorem foldlM_resampleStep_isOk (tagged : List (DateTime × Candle A)) :
    (∃ st, tagged.foldlM (fun st y => resampleStep st y.1 y.2) ⟨[], none, none⟩ = .ok st) ↔
      PassesSoFar ((Runs.runs Prod.fst tagged).map fun run => run.map Prod.snd) := by
  cases tagged with
  | nil =>
    exact iff_of_true ⟨_, rfl⟩
      ⟨⟨List.forall_mem_nil _, ⟨""⟩, List.forall_mem_nil _⟩, fun cs hcs => by cases hcs⟩
  | cons x l =>
    obtain ⟨closed, last, hruns, hloop⟩ := foldlM_resampleStep_cons x l
    have hne : ∀ run ∈ closed ++ [last], run ≠ [] := by
      rw [← hruns]
      exact fun run hrun => Runs.ne_nil_of_mem_runs hrun
    obtain ⟨hclosed, hlast⟩ := List.forall_mem_append.1 hne
    have hlast := hlast last (List.mem_singleton_self last)
    rw [hloop, hruns, PassesSoFar, List.map_append, List.map_singleton, List.dropLast_concat,
      List.getLast?_concat, ← foldlM_closeRun_nil_isOk hclosed]
    cases last with
    | nil => exact absurd rfl hlast
    | cons y rest =>
      simp only [Option.mem_some_iff, forall_eq', List.map_cons]
      rw [← foldlM_extendBucket_isOk y.1 y.2 (rest.map Prod.snd)]
      constructor
      · rintro ⟨st', h⟩
        obtain ⟨st, hst, h⟩ := bind_eq_ok.1 h
        obtain ⟨agg, hagg, -⟩ := bind_eq_ok.1 h
        exact ⟨⟨st, hst⟩, agg, hagg⟩
      · rintro ⟨⟨st, hst⟩, agg, hagg⟩
        rw [hst, ok_bind, openRun, hagg]
        exact ⟨_, rfl⟩

omit [LinearOrder A] [ToString DateTime] in
/-- Candles in the order of time stay as they are. -/
theorem tagged_of_pairwise {bucketOf : DateTime → Bucket} {cs : List (Candle A)}
    (hs : cs.Pairwise fun c d => c.ts ≤ d.ts) : tagged bucketOf cs = cs.filterMap (tag bucketOf) := by
  rw [tagged, SortKey.sortByKey, hs.insertionSort_eq]

/-- The loop gets through a first part of the candles exactly when the bucket function does not fail
on it and no check fails so far. -/
theorem foldlM_resampleBody_isOk {bucketOf : DateTime → Bucket} {cs : List (Candle A)}
    (hs : cs.Pairwise fun c d => c.ts ≤ d.ts) :
    (∃ st, cs.foldlM (resampleBody bucketOf) ⟨[], none, none⟩ = .ok st) ↔
      Total bucketOf cs ∧
        PassesSoFar ((Runs.runs Prod.fst (tagged bucketOf cs)).map fun run => run.map Prod.snd) := by
  rw [tagged_of_pairwise hs, ← foldlM_resampleStep_isOk]
  constructor
  · rintro ⟨st, hst⟩
    have htotal : Total bucketOf cs := by
      intro c hc
      obtain ⟨_, _, hbody⟩ := exists_step_of_foldlM_eq_ok hst c hc
      exact exists_bucket_of_resampleBody_eq_ok hbody
    exact ⟨htotal, st, (foldlM_resampleBody htotal _).symm.trans hst⟩
  · rintro ⟨htotal, st, hst⟩
    exact ⟨st, (foldlM_resampleBody htotal _).trans hst⟩

/-! ## The first candle out of range -/

/-- A step of the loop panics exactly when its bucket function does. -/
theorem resampleBody_eq_panic_iff {bucketOf : DateTime → Bucket} {st : ResampleState A}
    {c : Candle A} :
    resampleBody bucketOf st c = .error .panic ↔ bucketOf c.ts = .error .panic := by
  rw [resampleBody, bind_eq_error]
  constructor
  · rintro (h | ⟨b, -, h⟩)
    · exact h
    · cases b with
      | none => cases h
      | some b =>
        obtain ⟨msg, hmsg⟩ := resampleStep_eq_error h
        cases hmsg
  · exact .inl

/-- Resampling panics when the loop reaches a candle whose bucket function does. -/
theorem resampleBy_eq_panic_iff (candles : List (Candle A)) (bucketOf : DateTime → Bucket) :
    resampleBy candles bucketOf = .error .panic ↔
      ∃ pre c post, SortKey.sortByKey (·.ts) candles = pre ++ c :: post ∧
        bucketOf c.ts = .error .panic ∧ Total bucketOf pre ∧
        PassesSoFar ((Runs.runs Prod.fst (tagged bucketOf pre)).map fun run => run.map Prod.snd) := by
  have hsorted := SortKey.pairwise_sortByKey (fun c : Candle A => c.ts) candles
  have hfinish : ∀ st : ResampleState A, resampleFinish st ≠ .error .panic := by
    intro st h
    unfold resampleFinish at h
    split at h
    · cases h
    · rcases bind_eq_error.1 h with hfin | ⟨out, -, h⟩
      · obtain ⟨msg, hmsg⟩ := finalizeBucket_eq_error hfin
        cases hmsg
      · cases h
  rw [resampleBy_eq, bind_eq_error, foldlM_eq_error_iff]
  constructor
  · rintro (⟨pre, c, post, st, heq, hpre, hbody⟩ | ⟨st, -, h⟩)
    · have hs : pre.Pairwise fun c d => c.ts ≤ d.ts := (List.pairwise_append.1 (heq ▸ hsorted)).1
      obtain ⟨htotal, hpasses⟩ := (foldlM_resampleBody_isOk hs).1 ⟨st, hpre⟩
      exact ⟨pre, c, post, heq, resampleBody_eq_panic_iff.1 hbody, htotal, hpasses⟩
    · exact absurd h (hfinish st)
  · rintro ⟨pre, c, post, heq, hc, htotal, hpasses⟩
    have hs : pre.Pairwise fun c d => c.ts ≤ d.ts := (List.pairwise_append.1 (heq ▸ hsorted)).1
    obtain ⟨st, hpre⟩ := (foldlM_resampleBody_isOk hs).2 ⟨htotal, hpasses⟩
    exact .inl ⟨pre, c, post, st, heq, hpre, resampleBody_eq_panic_iff.2 hc⟩

omit [LinearOrder A] [ToString DateTime] in
/-- A bucket function panics when it leaves a range. -/
theorem Cadence.bucketOf_eq_panic_iff {cadence : Cadence} (hpos : 0 < cadence.length)
    («meta» : Option HistoryMeta) (ts : DateTime) :
    cadence.bucketOf «meta» ts = .error .panic ↔ cadence.OutOfRange «meta» ts := by
  rw [← not_iff_not, ← bucketOf_isOk_iff hpos]
  cases hb : cadence.bucketOf «meta» ts with
  | ok b => exact iff_of_true (by simp) ⟨b, rfl⟩
  | error f =>
    rw [bucketOf_eq_error hb]
    exact iff_of_false (by simp) (by simp)

/-- The resampler returns a series or an error about the data. -/
def Returns (result : Except Failure (List (Candle A))) : Prop :=
  (∃ out, result = .ok out) ∨ ∃ msg, result = .error (.err (.data msg))

/-- If a candle is out of range, a check on the candles before the first such candle fails. -/
def ChecksFirst (cadence : Cadence) («meta» : Option HistoryMeta) (candles : List (Candle A)) :
    Prop :=
  ∀ pre c post, SortKey.sortByKey (·.ts) candles = pre ++ c :: post →
    (∀ d ∈ pre, ¬ cadence.OutOfRange «meta» d.ts) → cadence.OutOfRange «meta» c.ts →
    ¬ PassesSoFar (cadence.buckets «meta» pre)

/-- **A resampler returns unless it reaches a candle that is out of range.** -/
theorem resamplers_total_iff {cadence : Cadence} (hpos : 0 < cadence.length)
    («meta» : Option HistoryMeta) (candles : List (Candle A)) :
    (Returns (cadence.resampleWithMeta candles «meta») ↔ ChecksFirst cadence «meta» candles) ∧
    («meta» = none →
      (Returns (cadence.resample candles) ↔ ChecksFirst cadence «meta» candles)) := by
  have hiff : Returns (cadence.resampleWithMeta candles «meta») ↔
      ChecksFirst cadence «meta» candles := by
    have hpanic : Returns (cadence.resampleWithMeta candles «meta») ↔
        cadence.resampleWithMeta candles «meta» ≠ .error .panic := by
      rw [Cadence.resampleWithMeta_eq hpos]
      constructor
      · rintro (⟨out, h⟩ | ⟨msg, h⟩) <;> simp [h]
      · intro hne
        cases hres : resampleBy candles (cadence.bucketOf «meta») with
        | ok out => exact .inl ⟨out, rfl⟩
        | error f =>
          rcases resampleBy_eq_error (fun _ _ => Cadence.bucketOf_eq_error) hres with rfl | ⟨msg, rfl⟩
          · exact absurd hres hne
          · exact .inr ⟨msg, rfl⟩
    have htotal : ∀ pre : List (Candle A), Total (cadence.bucketOf «meta») pre ↔
        ∀ d ∈ pre, ¬ cadence.OutOfRange «meta» d.ts := fun pre =>
      forall₂_congr fun d _ => Cadence.bucketOf_isOk_iff hpos «meta» d.ts
    rw [hpanic, Cadence.resampleWithMeta_eq hpos, Ne, resampleBy_eq_panic_iff, ChecksFirst]
    simp only [Cadence.bucketOf_eq_panic_iff hpos, htotal, Cadence.buckets]
    constructor
    · intro h pre c post heq hpre hc hpasses
      exact h ⟨pre, c, post, heq, hc, hpre, hpasses⟩
    · rintro h ⟨pre, c, post, heq, hc, hpre, hpasses⟩
      exact h pre c post heq hpre hc hpasses
  refine ⟨hiff, fun hmeta => ?_⟩
  rw [Cadence.resample_eq, ← hmeta]
  exact hiff

end

section
local instance textTotal : ToString DateTime := ⟨fun ts => toString ts.nanos⟩

/-- A candle at the epoch. -/
def epochDollar : Candle ℕ := .flat (.ofTimestamp 0 DateTime.epoch_inCalendar) ⟨10, ⟨"USD"⟩⟩

/-- Buckets of 2⁶² minutes: their length in seconds is a multiple of 2⁶⁴. -/
theorem hugeMinutes_not_returns :
    ¬ Returns (resampleToMinutes [epochDollar] 4611686018427387904) := by
  have hpanic : resampleToMinutes [epochDollar] 4611686018427387904 = .error .panic := rfl
  rw [hpanic]
  rintro (⟨out, h⟩ | ⟨msg, h⟩) <;> cases h

/-- Buckets of five minutes do not overflow. -/
theorem fiveMinutes_returns : Returns ((Cadence.minutes 5).resample [epochDollar]) := by
  refine ((resamplers_total_iff (by decide) none [epochDollar]).2 rfl).2 ?_
  intro pre c post _ _ hout
  exact absurd (show InI64 (5 * 60) by decide) hout

end

end Borsa
