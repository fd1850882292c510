import Borsa.Lib.Mode
import Borsa.Timeseries.Subdaily

/-!
# The step of a series

`estimate_step_seconds` sorts the gaps between distinct timestamps, in whole seconds, and scans their
runs for the longest one; it counts the runs that are as long as the longest so far, and falls back to
the lower median when there are several. The scan keeps what its best run says of the finished runs
(`DeltaScan.Tallies`), so the result is the step of the measured gaps
(`estimateStepSeconds_eq_some_iff`).

A gap is measured after it has been found positive, and one of less than a second then counts as zero
seconds. `stepEstimate_iff` says when the result is the step of the gaps as they are.
-/

namespace Borsa

open Mode

/-- The state of the scan over the sorted deltas. -/
structure DeltaScan where
  bestDelta : ℤ
  bestCount : ℕ
  numBestCandidates : ℕ
  curDelta : ℤ
  curCount : ℕ

namespace DeltaScan

/-- The current run is compared with the best one. -/
def closeRun (st : DeltaScan) : DeltaScan :=
  if st.bestCount < st.curCount then
    { st with bestCount := st.curCount, bestDelta := st.curDelta, numBestCandidates := 1 }
  else if st.curCount = st.bestCount then
    { st with numBestCandidates := st.numBestCandidates + 1 }
  else st

/-- The body of the loop. -/
def next (st : DeltaScan) (d : ℤ) : DeltaScan :=
  if d = st.curDelta then { st with curCount := st.curCount + 1 }
  else { st.closeRun with curDelta := d, curCount := 1 }

/-- The scan of the deltas `first :: rest`, with its last run. -/
def scan (first : ℤ) (rest : List ℤ) : DeltaScan :=
  (rest.foldl next ⟨first, 0, 0, first, 1⟩).closeRun

end DeltaScan

/-- The second half of `estimate_step_seconds`, from the sorted deltas on: the mode, and the lower
median when the scan has found none. The indices are in range (`isStep_representative`). -/
def representative (deltas : List ℤ) : Option ℤ :=
  match deltas with
  | [] => none
  | first :: rest =>
    let scan := DeltaScan.scan first rest
    if scan.numBestCandidates = 1 then some scan.bestDelta
    else
      let mid := deltas.length / 2
      if deltas.length % 2 = 1 then deltas[mid]? else deltas[mid - 1]?

/-- `estimate_step_seconds`. -/
def estimateStepSeconds {A : Type} (candles : List (Candle A)) : Option ℤ :=
  if candles.length < 2 then none
  else
    match (SortKey.sortByKey (·.ts) candles).map (·.ts) with
    | [] => none
    | last :: rest => representative (SortKey.sortByKey id (positiveDeltas last rest))

/-! ## The scan -/

namespace DeltaScan

/-- What the best run says of the deltas in finished runs: no delta occurs more often, the best one
occurs so often, and it is counted once exactly when it is the mode. -/
structure Tallies (st : DeltaScan) (closed : List ℤ) : Prop where
  count_le : ∀ d, closed.count d ≤ st.bestCount
  count_best : closed.count st.bestDelta = st.bestCount
  eq_zero : st.numBestCandidates = 0 ↔ closed = []
  eq_one : st.numBestCandidates = 1 ↔ IsMode closed st.bestDelta

/-- Once a run has been counted the number of best runs is not zero. -/
theorem Tallies.numBestCandidates_ne_zero {st : DeltaScan} {closed : List ℤ} (h : Tallies st closed)
    (hpos : 0 < st.bestCount) : st.numBestCandidates ≠ 0 := by
  intro h0
  have hcount := h.count_best
  rw [h.eq_zero.1 h0, List.count_nil] at hcount
  omega

/-- Finishing the current run takes its deltas into account. -/
theorem Tallies.closeRun {st : DeltaScan} {closed : List ℤ} (h : Tallies st closed)
    (hpos : 0 < st.curCount) (hnew : st.curDelta ∉ closed) :
    Tallies st.closeRun (closed ++ List.replicate st.curCount st.curDelta) := by
  have hne : closed ++ List.replicate st.curCount st.curDelta ≠ [] := by simp [hpos.ne']
  have hcount : ∀ d, (closed ++ List.replicate st.curCount st.curDelta).count d ≤
      max st.bestCount st.curCount := by
    intro d
    rcases eq_or_ne d st.curDelta with rfl | hd
    · rw [count_append_run_self hnew]
      exact le_max_right ..
    · rw [count_append_run_of_ne hd]
      exact (h.count_le d).trans (le_max_left ..)
  unfold DeltaScan.closeRun
  split
  · -- a longer run: its delta is the mode
    next hlt =>
    refine ⟨fun d => (hcount d).trans_eq (max_eq_right hlt.le), count_append_run_self hnew,
      by simp [hne], iff_of_true rfl ?_⟩
    exact isMode_append_run hnew fun d => (h.count_le d).trans_lt hlt
  · next hge =>
    have hbest : st.bestDelta ≠ st.curDelta := by
      intro heq
      have hzero := h.count_best
      rw [heq, List.count_eq_zero_of_not_mem hnew] at hzero
      omega
    have hcountBest : (closed ++ List.replicate st.curCount st.curDelta).count st.bestDelta =
        st.bestCount := by
      rw [count_append_run_of_ne hbest, h.count_best]
    have hcount : ∀ d, (closed ++ List.replicate st.curCount st.curDelta).count d ≤ st.bestCount :=
      fun d => (hcount d).trans_eq (max_eq_left (not_lt.1 hge))
    have hzero := h.numBestCandidates_ne_zero (by omega)
    split
    · -- a run as long as the best one: neither is the mode
      next heq =>
      refine ⟨hcount, hcountBest, by simp [hne], iff_of_false ?_ ?_⟩
      · show st.numBestCandidates + 1 ≠ 1
        omega
      · exact not_isMode_append_run hnew hbest (h.count_best.trans heq.symm)
    · -- a shorter run changes nothing
      next hshort =>
      refine ⟨hcount, hcountBest, by simp [hne, hzero], h.eq_one.trans ?_⟩
      refine (isMode_append_run_iff hnew ?_).symm
      rw [h.count_best]
      omega

/-- The scan over the deltas that follow takes them into account. -/
theorem Tallies.foldl {st : DeltaScan} {closed more : List ℤ} (h : Tallies st closed)
    (hpos : 0 < st.curCount) (hlt : ∀ d ∈ closed, d < st.curDelta)
    (hs : (st.curDelta :: more).Pairwise (· ≤ ·)) :
    Tallies (more.foldl next st).closeRun
      (closed ++ List.replicate st.curCount st.curDelta ++ more) := by
  induction more generalizing st closed with
  | nil =>
    rw [List.append_nil]
    exact h.closeRun hpos fun hmem => lt_irrefl _ (hlt _ hmem)
  | cons d more ih =>
    rw [List.foldl_cons, next]
    split
    · next heq =>
      subst heq
      have hlonger : Tallies { st with curCount := st.curCount + 1 } closed :=
        ⟨h.count_le, h.count_best, h.eq_zero, h.eq_one⟩
      have hrun := ih hlonger (Nat.succ_pos _) hlt hs.of_cons
      simpa [List.replicate_succ'] using hrun
    · next hne =>
      have hd : st.curDelta < d :=
        lt_of_le_of_ne (List.rel_of_pairwise_cons hs List.mem_cons_self) (Ne.symm hne)
      have hclosed := h.closeRun hpos fun hmem => lt_irrefl _ (hlt _ hmem)
      have hopened : Tallies { st.closeRun with curDelta := d, curCount := 1 }
          (closed ++ List.replicate st.curCount st.curDelta) :=
        ⟨hclosed.count_le, hclosed.count_best, hclosed.eq_zero, hclosed.eq_one⟩
      have hrun := ih hopened Nat.one_pos (fun x hx => ?_) hs.of_cons
      · simpa using hrun
      · rcases List.mem_append.1 hx with hx | hx
        · exact (hlt x hx).trans hd
        · rw [(List.mem_replicate.1 hx).2]
          exact hd

/-- What the scan finds out about a sorted list. -/
theorem tallies_scan {first : ℤ} {rest : List ℤ} (hs : (first :: rest).Pairwise (· ≤ ·)) :
    Tallies (scan first rest) (first :: rest) := by
  have hnone : Tallies ⟨first, 0, 0, first, 1⟩ [] :=
    ⟨fun _ => Nat.le_refl _, rfl, iff_of_true rfl rfl, iff_of_false (by simp) (by simp [IsMode])⟩
  exact hnone.foldl Nat.one_pos (by simp) hs

/-- Only the best delta can be the mode. -/
theorem Tallies.eq_of_isMode {st : DeltaScan} {closed : List ℤ} {d : ℤ} (h : Tallies st closed)
    (hmode : IsMode closed d) : d = st.bestDelta := by
  by_contra hne
  have hlt := hmode.2 _ (Ne.symm hne)
  have hle := h.count_le d
  have hbest := h.count_best
  omega

end DeltaScan

/-- What the function returns for sorted deltas: their mode, or their lower median. -/
theorem isStep_representative {deltas : List ℤ} (hs : deltas.Pairwise (· ≤ ·)) :
    (representative deltas = none ↔ deltas = []) ∧
      ∀ d, representative deltas = some d → IsStep deltas d := by
  cases deltas with
  | nil => exact ⟨iff_of_true rfl rfl, by simp [representative]⟩
  | cons first rest =>
    have htallies := DeltaScan.tallies_scan hs
    rw [representative]
    dsimp only
    split
    · next hone =>
      refine ⟨by simp, fun d hd => ?_⟩
      rw [← Option.some.inj hd]
      exact .inl (htallies.eq_one.1 hone)
    · next hmany =>
      have hno : ∀ d, ¬ IsMode (first :: rest) d := by
        intro d hmode
        have heq := htallies.eq_of_isMode hmode
        exact hmany (htallies.eq_one.2 (heq ▸ hmode))
      -- both branches read the entry at the same place
      have hmid : (if (first :: rest).length % 2 = 1 then (first :: rest)[(first :: rest).length / 2]?
          else (first :: rest)[(first :: rest).length / 2 - 1]?) =
          (first :: rest)[((first :: rest).length - 1) / 2]? := by
        have hpos : 0 < (first :: rest).length := List.length_pos_of_mem List.mem_cons_self
        split <;> congr 1 <;> omega
      rw [hmid]
      refine ⟨?_, fun d hd => .inr ⟨hno, isLowerMedian_getElem hs hd⟩⟩
      simp only [List.getElem?_eq_none_iff, List.length_cons, reduceCtorEq, iff_false]
      omega

/-! ## The measured gaps -/

section
variable {A : Type}

theorem estimateStepSeconds_eq (candles : List (Candle A)) :
    estimateStepSeconds candles = representative (SortKey.sortByKey id (gaps candles)) := by
  have hmap : (SortKey.sortByKey (·.ts) candles).map (·.ts) =
      SortKey.sortByKey id (candles.map (·.ts)) := (SortKey.sortByKey_map id _ _).symm
  rw [estimateStepSeconds, hmap]
  split
  · next hlen => rw [gaps_eq_nil hlen]; rfl
  · rw [gaps]
    cases SortKey.sortByKey id (candles.map (·.ts)) <;> rfl

theorem estimateStepSeconds_eq_none_iff (candles : List (Candle A)) :
    estimateStepSeconds candles = none ↔ gaps candles = [] := by
  have hsorted := SortKey.pairwise_sortByKey id (gaps candles)
  rw [estimateStepSeconds_eq, (isStep_representative hsorted).1,
    ← List.length_eq_zero_iff, (SortKey.sortByKey_perm id _).length_eq, List.length_eq_zero_iff]

/-- The result is the step of the gaps in whole seconds. -/
theorem estimateStepSeconds_eq_some_iff (candles : List (Candle A)) (s : ℤ) :
    estimateStepSeconds candles = some s ↔ IsStep (gaps candles) s := by
  have hsorted := SortKey.pairwise_sortByKey id (gaps candles)
  have hstep : ∀ d, estimateStepSeconds candles = some d → IsStep (gaps candles) d := by
    intro d hd
    rw [estimateStepSeconds_eq] at hd
    exact (isStep_perm (SortKey.sortByKey_perm id _)).1 ((isStep_representative hsorted).2 d hd)
  refine ⟨hstep s, fun hs => ?_⟩
  cases hresult : estimateStepSeconds candles with
  | none =>
    rw [estimateStepSeconds_eq_none_iff] at hresult
    exact absurd hs.mem (hresult ▸ List.not_mem_nil)
  | some d => rw [(hstep d hresult).unique hs]

/-! ## The gaps as they are -/

/-- How many gaps last less than a second. -/
def subsecondGaps (candles : List (Candle A)) : ℕ :=
  (nanoGaps candles).countP fun g => g < 1000000000

/-- How many gaps last `q` seconds and a fraction. -/
def gapsOfSeconds (candles : List (Candle A)) (q : ℤ) : ℕ :=
  (nanoGaps candles).countP fun g => g / 1000000000 = q

/-- The step is reported as zero seconds when the gaps of less than a second are half of all gaps, or
more frequent than any other number of seconds. -/
theorem estimateStepSeconds_eq_zero_iff (candles : List (Candle A)) :
    estimateStepSeconds candles = some 0 ↔
      nanoGaps candles ≠ [] ∧ ((nanoGaps candles).length ≤ 2 * subsecondGaps candles ∨
        ∀ q, 0 < q → gapsOfSeconds candles q < subsecondGaps candles) := by
  have hpos : ∀ g ∈ nanoGaps candles, 0 < g := gapsOf_pos (pairwise_instants candles)
  have hcount : ∀ q, (gaps candles).count q = gapsOfSeconds candles q := by
    intro q
    rw [gaps_eq, List.count, List.countP_map, gapsOfSeconds]
    exact List.countP_congr fun g _ => by simp
  have hzero : gapsOfSeconds candles 0 = subsecondGaps candles :=
    List.countP_congr fun g hg => by
      have := hpos g hg
      simp only [decide_eq_true_eq]
      omega
  have hnonneg : ∀ d ∈ gaps candles, 0 ≤ d := by
    intro d hd
    rw [gaps_eq] at hd
    obtain ⟨g, hg, rfl⟩ := List.mem_map.1 hd
    exact Int.ediv_nonneg (hpos g hg).le (by omega)
  rw [estimateStepSeconds_eq_some_iff, isStep_least_iff hnonneg, hcount, hzero, gaps_eq,
    List.length_map, Ne, List.map_eq_nil_iff, ← gaps_eq]
  refine and_congr_right fun hne => or_congr_right ⟨fun h q hq => ?_, fun h q hq => ?_⟩
  · rw [← hcount]
    exact h q hq.ne'
  · rcases lt_or_gt_of_ne hq with hneg | hq
    · -- no gap is negative
      rw [List.count_eq_zero_of_not_mem fun hmem => absurd (hnonneg q hmem) (not_le.2 hneg)]
      exact (Nat.zero_le _).trans_lt (h 1 Int.one_pos)
    · rw [hcount]
      exact h q hq

/-- The estimate at a series: it is `none` for fewer than two distinct timestamps and otherwise the
step of the gaps between them, in seconds and positive; and it is the same for every series with the
same timestamps, in any order and repeated or not. -/
def StepEstimate (candles : List (Candle A)) : Prop :=
  (estimateStepSeconds candles = none ↔ (candles.map (·.ts)).toFinset.card < 2) ∧
  (∀ s, estimateStepSeconds candles = some s →
    0 < s ∧ IsStep (nanoGaps candles) (s * 1000000000)) ∧
  ∀ candles' : List (Candle A), (∀ t, (∃ c ∈ candles', c.ts = t) ↔ ∃ c ∈ candles, c.ts = t) →
    estimateStepSeconds candles' = estimateStepSeconds candles

/-- Rounding the gaps down to whole seconds leaves their step, a positive number of seconds. -/
def RoundingKeepsStep (gaps : List ℤ) : Prop :=
  ∃ q, 0 < q ∧ IsStep gaps (q * 1000000000) ∧ IsStep (gaps.map (· / 1000000000)) q

/-- Gaps of whole seconds are not rounded. -/
theorem roundingKeepsStep_of_dvd {gaps : List ℤ} {s : ℤ} (hpos : ∀ g ∈ gaps, 0 < g)
    (hdvd : ∀ g ∈ gaps, 1000000000 ∣ g) (hs : IsStep (gaps.map (· / 1000000000)) s) :
    RoundingKeepsStep gaps := by
  have hback : (gaps.map (· / 1000000000)).map (· * 1000000000) = gaps := by
    rw [List.map_map]
    exact (List.map_congr_left fun g hg => Int.ediv_mul_cancel (hdvd g hg)).trans (List.map_id _)
  have hmono : StrictMono fun d : ℤ => d * 1000000000 := fun d e hlt => by
    show d * 1000000000 < e * 1000000000
    omega
  have hstep : IsStep gaps (s * 1000000000) := by
    rw [← hback]
    exact (isStep_map hmono).2 hs
  refine ⟨s, ?_, hstep, hs⟩
  have := hpos _ hstep.mem
  omega

theorem estimateStepSeconds_eq_none_iff_card (candles : List (Candle A)) :
    estimateStepSeconds candles = none ↔ (candles.map (·.ts)).toFinset.card < 2 := by
  rw [estimateStepSeconds_eq_none_iff, gaps_eq, List.map_eq_nil_iff, nanoGaps_eq_nil_iff]

theorem stepEstimate_of_roundingKeepsStep {candles : List (Candle A)}
    (h : (candles.map (·.ts)).toFinset.card < 2 ∨ RoundingKeepsStep (nanoGaps candles)) :
    StepEstimate candles := by
  refine ⟨estimateStepSeconds_eq_none_iff_card candles, fun s hs => ?_, fun candles' hts => ?_⟩
  · rcases h with hfew | ⟨q, hpos, hstep, hround⟩
    · rw [(estimateStepSeconds_eq_none_iff_card candles).2 hfew] at hs
      cases hs
    · rw [estimateStepSeconds_eq_some_iff, gaps_eq] at hs
      obtain rfl : q = s := hround.unique hs
      exact ⟨hpos, hstep⟩
  · rw [estimateStepSeconds_eq, estimateStepSeconds_eq, gaps_eq, gaps_eq, nanoGaps, nanoGaps,
      instants_congr hts]

/-- The estimate of a series whose gaps are whole seconds meets its specification. -/
theorem stepEstimate_of_wholeSeconds {candles : List (Candle A)}
    (hdvd : ∀ g ∈ nanoGaps candles, 1000000000 ∣ g) : StepEstimate candles := by
  refine stepEstimate_of_roundingKeepsStep ?_
  cases hresult : estimateStepSeconds candles with
  | none => exact .inl ((estimateStepSeconds_eq_none_iff_card candles).1 hresult)
  | some s =>
    rw [estimateStepSeconds_eq_some_iff, gaps_eq] at hresult
    exact .inr (roundingKeepsStep_of_dvd (gapsOf_pos (pairwise_instants candles)) hdvd hresult)

/-- **The estimate is the step of the gaps exactly when rounding them to whole seconds leaves it.** It
is always the step of the rounded gaps, and it is zero, where the gaps are positive, exactly when gaps
of less than a second dominate. -/
theorem stepEstimate_iff (candles : List (Candle A)) :
    (StepEstimate candles ↔
      (candles.map (·.ts)).toFinset.card < 2 ∨ RoundingKeepsStep (nanoGaps candles)) ∧
    (∀ s, estimateStepSeconds candles = some s ↔
      IsStep ((nanoGaps candles).map (· / 1000000000)) s) ∧
    (estimateStepSeconds candles = some 0 ↔
      nanoGaps candles ≠ [] ∧ ((nanoGaps candles).length ≤ 2 * subsecondGaps candles ∨
        ∀ q, 0 < q → gapsOfSeconds candles q < subsecondGaps candles)) := by
  have hsome : ∀ s, estimateStepSeconds candles = some s ↔
      IsStep ((nanoGaps candles).map (· / 1000000000)) s := by
    intro s
    rw [estimateStepSeconds_eq_some_iff, gaps_eq]
  refine ⟨⟨fun h => ?_, stepEstimate_of_roundingKeepsStep⟩, hsome,
    estimateStepSeconds_eq_zero_iff candles⟩
  cases hresult : estimateStepSeconds candles with
  | none => exact .inl ((estimateStepSeconds_eq_none_iff_card candles).1 hresult)
  | some s =>
    obtain ⟨hpos, hstep⟩ := h.2.1 s hresult
    exact .inr ⟨s, hpos, hstep, (hsome s).1 hresult⟩

end

/-- The step of two candles half a second apart is reported as zero. -/
theorem halfSecond_not_stepEstimate :
    ¬ StepEstimate [halfSecondCandle 0, halfSecondCandle 1] := by
  rintro ⟨_, hstep, _⟩
  exact absurd (hstep 0 (by decide)).1 (by decide)

end Borsa
