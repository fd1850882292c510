import Borsa.Timeseries.Infer

/-!
# The sub-daily test

`is_subdaily` asks for evidence: three gaps under a day or more, and 60% of all gaps. It measures the
gaps in whole seconds and then leaves out those of zero seconds, which are gaps of less than a second:
`subdailyTest_iff` says that it meets its specification exactly when the evidence does not rest on such
gaps.
-/

namespace Borsa

/-- Enough gaps out of all to call a series sub-daily. -/
def Evidence (count total : ℕ) : Prop := 3 ≤ count ∧ 60 * total ≤ 100 * count

instance (count total : ℕ) : Decidable (Evidence count total) :=
  inferInstanceAs (Decidable (_ ∧ _))

section
variable {A : Type}

/-- The gaps shorter than a day. -/
def shortGaps (candles : List (Candle A)) : List ℤ :=
  (nanoGaps candles).filter fun g => g < 86400 * 1000000000

/-- The gaps shorter than a day that last at least a second. -/
def shortGapsSeconds (candles : List (Candle A)) : List ℤ :=
  (shortGaps candles).filter fun g => 1000000000 ≤ g

/-- The test counts the short gaps that last at least a second. -/
theorem isSubdaily_iff_evidence (candles : List (Candle A)) :
    isSubdaily candles = true ↔
      Evidence (shortGapsSeconds candles).length (nanoGaps candles).length := by
  have hcount : (gaps candles).countP (fun d => 0 < d ∧ d < 86400) =
      (shortGapsSeconds candles).length := by
    rw [gaps_eq, List.countP_map, shortGapsSeconds, shortGaps, List.filter_filter,
      List.countP_eq_length_filter]
    congr 1
    refine List.filter_congr fun g _ => ?_
    simp only [Function.comp_apply, ← Bool.decide_and, decide_eq_decide]
    omega
  have hlen : (gaps candles).length = (nanoGaps candles).length := by
    rw [gaps_eq, List.length_map]
  rw [isSubdaily_eq, hcount, hlen, Evidence]
  split
  · next hempty =>
    have hnil : nanoGaps candles = [] := by
      rw [List.isEmpty_iff, gaps_eq, List.map_eq_nil_iff] at hempty
      exact hempty
    simp [shortGapsSeconds, shortGaps, hnil]
  · split
    · next hlt => simpa using by omega
    · rw [decide_eq_true_iff]
      omega

/-- The sub-daily test at a series: it tells whether the gaps shorter than a day are evidence enough,
and it tells the same of every series with the same timestamps, in any order and repeated or not. -/
def SubdailyTest (candles : List (Candle A)) : Prop :=
  (isSubdaily candles = true ↔ Evidence (shortGaps candles).length (nanoGaps candles).length) ∧
    ∀ candles' : List (Candle A),
      (∀ t, (∃ c ∈ candles', c.ts = t) ↔ ∃ c ∈ candles, c.ts = t) →
        isSubdaily candles' = isSubdaily candles

/-- **The sub-daily test meets its specification exactly when the evidence does not rest on gaps of
less than a second.** -/
theorem subdailyTest_iff (candles : List (Candle A)) :
    SubdailyTest candles ↔
      (Evidence (shortGaps candles).length (nanoGaps candles).length →
        Evidence (shortGapsSeconds candles).length (nanoGaps candles).length) := by
  have hle : (shortGapsSeconds candles).length ≤ (shortGaps candles).length :=
    List.length_filter_le _ _
  have hmono : Evidence (shortGapsSeconds candles).length (nanoGaps candles).length →
      Evidence (shortGaps candles).length (nanoGaps candles).length := by
    unfold Evidence
    omega
  rw [SubdailyTest, isSubdaily_iff_evidence]
  constructor
  · rintro ⟨hiff, _⟩
    exact hiff.2
  · intro h
    exact ⟨⟨hmono, h⟩, fun candles' hts => isSubdaily_congr hts⟩

end

/-! ## Half a second -/

theorem halfSeconds_inCalendar {n : ℕ} (h : n < 8) :
    minTimestamp * 1000000000 ≤ (n : ℤ) * 500000000 ∧
      (n : ℤ) * 500000000 < (maxTimestamp + 1) * 1000000000 := by
  simp only [minTimestamp, maxTimestamp]
  omega

/-- A candle some half seconds after the epoch. -/
def halfSecondCandle (n : Fin 8) : Candle ℕ :=
  .flat ⟨(n : ℕ) * 500000000, halfSeconds_inCalendar n.2⟩ ⟨10, ⟨"USD"⟩⟩

/-- A series of four candles, half a second apart, is not told to be sub-daily. -/
theorem halfSeconds_not_subdailyTest :
    ¬ SubdailyTest [halfSecondCandle 0, halfSecondCandle 1, halfSecondCandle 2,
      halfSecondCandle 3] := by
  rintro ⟨hiff, _⟩
  exact absurd (hiff.2 (by decide)) (by decide)

end Borsa
