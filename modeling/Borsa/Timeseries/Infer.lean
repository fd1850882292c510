import Borsa.Timeseries.Candle

/-!
# Cadence of a series

`infer.rs`: `is_subdaily`, which tells a series of more than one candle a day by the gaps between its
timestamps. It depends on the set of timestamps alone (`isSubdaily_congr`), as the gaps it measures are
those between the series' `instants`, in whole seconds (`gaps_eq`).
-/

namespace Borsa

/-- The loop over the sorted timestamps: the whole seconds between distinct neighbours. -/
def positiveDeltas (last : DateTime) : List DateTime → List ℤ
  | [] => []
  | cur :: rest =>
    let dt := cur.nanos - last.nanos
    if 0 < dt then dt / 1000000000 :: positiveDeltas cur rest else positiveDeltas last rest

/-- `is_subdaily`. -/
def isSubdaily {A : Type} (candles : List (Candle A)) : Bool :=
  if candles.length < 2 then false
  else
    match SortKey.sortByKey id (candles.map (·.ts)) with
    | [] => false
    | first :: rest =>
      let deltas := positiveDeltas first rest
      if deltas.isEmpty then false
      else
        let total := deltas.length
        let subdaily := deltas.countP fun d => 0 < d ∧ d < 86400
        if subdaily < 3 then false else decide (total * 3 ≤ subdaily * 5)

/-! ## Gaps -/

theorem positiveDeltas_of_lt {last cur : DateTime} (h : last < cur) (rest : List DateTime) :
    positiveDeltas last (cur :: rest) =
      (cur.nanos - last.nanos) / 1000000000 :: positiveDeltas cur rest :=
  if_pos (Int.sub_pos.2 h)

theorem positiveDeltas_of_not_lt {last cur : DateTime} (h : ¬ last < cur) (rest : List DateTime) :
    positiveDeltas last (cur :: rest) = positiveDeltas last rest :=
  if_neg fun hpos => h (Int.sub_pos.1 hpos)

/-- The instants the loop keeps after `last`. -/
def later (last : DateTime) : List DateTime → List DateTime
  | [] => []
  | cur :: rest => if last < cur then cur :: later cur rest else later last rest

/-- The gaps between the neighbours of a list of instants, in nanoseconds. -/
def gapsOf : List DateTime → List ℤ
  | t :: u :: rest => (u.nanos - t.nanos) :: gapsOf (u :: rest)
  | _ => []

theorem positiveDeltas_eq (last : DateTime) (l : List DateTime) :
    positiveDeltas last l = (gapsOf (last :: later last l)).map (· / 1000000000) := by
  induction l generalizing last with
  | nil => rfl
  | cons cur rest ih =>
    by_cases h : last < cur
    · rw [positiveDeltas_of_lt h, later, if_pos h, ih cur, gapsOf, List.map_cons]
    · rw [positiveDeltas_of_not_lt h, later, if_neg h, ih last]

/-- The loop keeps each instant of a sorted list once. -/
theorem later_spec {last : DateTime} {l : List DateTime} (h : (last :: l).Pairwise (· ≤ ·)) :
    (last :: later last l).Pairwise (· < ·) ∧ ∀ t, t ∈ last :: later last l ↔ t ∈ last :: l := by
  induction l generalizing last with
  | nil => exact ⟨List.pairwise_singleton .., fun t => Iff.rfl⟩
  | cons cur rest ih =>
    rw [later]
    split
    · next hlt =>
      obtain ⟨hpair, hmem⟩ := ih h.of_cons
      refine ⟨List.pairwise_cons.2 ⟨fun t ht => ?_, hpair⟩, fun t => ?_⟩
      · rcases List.mem_cons.1 ((hmem t).1 ht) with rfl | ht
        · exact hlt
        · exact hlt.trans_le (List.rel_of_pairwise_cons h.of_cons ht)
      · rw [List.mem_cons, hmem t, ← List.mem_cons]
    · next hlt =>
      obtain rfl : last = cur :=
        le_antisymm (List.rel_of_pairwise_cons h List.mem_cons_self) (not_lt.1 hlt)
      obtain ⟨hpair, hmem⟩ := ih h.of_cons
      exact ⟨hpair, fun t => by rw [hmem t, List.mem_cons, List.mem_cons, List.mem_cons]; simp⟩

/-- The distinct timestamps of the candles, in the order of time. -/
def instants {A : Type} (candles : List (Candle A)) : List DateTime :=
  SortKey.sortByKey id (candles.map (·.ts)).dedup

/-- The gaps between consecutive distinct timestamps, in nanoseconds. -/
def nanoGaps {A : Type} (candles : List (Candle A)) : List ℤ := gapsOf (instants candles)

/-- The strictly sorted lists with the candles' timestamps are one list. -/
theorem instants_eq {A : Type} {candles : List (Candle A)} {l : List DateTime}
    (hlt : l.Pairwise (· < ·)) (hmem : ∀ t, t ∈ l ↔ ∃ c ∈ candles, c.ts = t) :
    instants candles = l := by
  refine SortKey.sortByKey_eq_of_perm ?_ hlt
  refine (List.perm_ext_iff_of_nodup (hlt.imp ne_of_lt) (List.nodup_dedup _)).2 fun t => ?_
  rw [hmem t, List.mem_dedup, List.mem_map]

theorem mem_instants {A : Type} {candles : List (Candle A)} {t : DateTime} :
    t ∈ instants candles ↔ ∃ c ∈ candles, c.ts = t := by
  simp [instants]

theorem pairwise_instants {A : Type} (candles : List (Candle A)) :
    (instants candles).Pairwise (· < ·) := by
  have hnodup : (instants candles).Nodup :=
    (SortKey.sortByKey_perm id _).nodup_iff.2 (List.nodup_dedup _)
  exact (SortKey.pairwise_sortByKey id _).imp₂ (fun _ _ hle hne => lt_of_le_of_ne hle hne) hnodup

/-- There are as many instants as distinct timestamps. -/
theorem length_instants {A : Type} (candles : List (Candle A)) :
    (instants candles).length = (candles.map (·.ts)).toFinset.card := by
  rw [instants, (SortKey.sortByKey_perm id _).length_eq, List.card_toFinset]

theorem length_gapsOf (l : List DateTime) : (gapsOf l).length = l.length - 1 := by
  induction l with
  | nil => rfl
  | cons t rest ih =>
    cases rest with
    | nil => rfl
    | cons u rest => rw [gapsOf, List.length_cons, ih]; rfl

/-- Gaps between distinct timestamps are positive. -/
theorem gapsOf_pos {l : List DateTime} (hlt : l.Pairwise (· < ·)) : ∀ g ∈ gapsOf l, 0 < g := by
  induction l with
  | nil => simp [gapsOf]
  | cons t rest ih =>
    cases rest with
    | nil => simp [gapsOf]
    | cons u rest =>
      intro g hg
      rcases List.mem_cons.1 hg with rfl | hg
      · exact Int.sub_pos.2 (List.rel_of_pairwise_cons hlt List.mem_cons_self)
      · exact ih hlt.of_cons g hg

/-- A series has no gaps when it has fewer than two distinct timestamps. -/
theorem nanoGaps_eq_nil_iff {A : Type} (candles : List (Candle A)) :
    nanoGaps candles = [] ↔ (candles.map (·.ts)).toFinset.card < 2 := by
  rw [← length_instants, ← List.length_eq_zero_iff, nanoGaps, length_gapsOf]
  omega

/-- Series with the same timestamps, repeated or not, have the same instants. -/
theorem instants_congr {A : Type} {candles candles' : List (Candle A)}
    (h : ∀ t, (∃ c ∈ candles, c.ts = t) ↔ ∃ c ∈ candles', c.ts = t) :
    instants candles = instants candles' :=
  instants_eq (pairwise_instants candles') fun t => mem_instants.trans (h t).symm

/-- The gaps between the timestamps of the candles. -/
def gaps {A : Type} (candles : List (Candle A)) : List ℤ :=
  match SortKey.sortByKey id (candles.map (·.ts)) with
  | [] => []
  | first :: rest => positiveDeltas first rest

/-- The gaps the code measures are the gaps in whole seconds, rounded down. -/
theorem gaps_eq {A : Type} (candles : List (Candle A)) :
    gaps candles = (nanoGaps candles).map (· / 1000000000) := by
  have hsorted := SortKey.pairwise_sortByKey id (candles.map (·.ts))
  have hmem : ∀ t, t ∈ SortKey.sortByKey id (candles.map (·.ts)) ↔ ∃ c ∈ candles, c.ts = t := by
    simp
  rw [gaps, nanoGaps]
  cases hsort : SortKey.sortByKey id (candles.map (·.ts)) with
  | nil =>
    rw [instants_eq (l := []) .nil fun t => by rw [← hmem t, hsort]]
    rfl
  | cons first rest =>
    rw [hsort] at hsorted hmem
    obtain ⟨hpair, hkept⟩ := later_spec hsorted
    rw [instants_eq hpair fun t => (hkept t).trans (hmem t)]
    exact positiveDeltas_eq first rest

/-- A series of fewer than two candles has no gaps. -/
theorem gaps_eq_nil {A : Type} {candles : List (Candle A)} (hlen : candles.length < 2) :
    gaps candles = [] := by
  rcases Nat.le_one_iff_eq_zero_or_eq_one.1 (Nat.le_of_lt_succ hlen) with h | h
  · rw [List.length_eq_zero_iff.1 h]
    rfl
  · obtain ⟨c, rfl⟩ := List.length_eq_one_iff.1 h
    rfl

theorem isSubdaily_eq {A : Type} (candles : List (Candle A)) :
    isSubdaily candles =
      if (gaps candles).isEmpty then false
      else if (gaps candles).countP (fun d => 0 < d ∧ d < 86400) < 3 then false
      else decide ((gaps candles).length * 3 ≤
        (gaps candles).countP (fun d => 0 < d ∧ d < 86400) * 5) := by
  rw [isSubdaily]
  split
  · next hlen => simp [gaps_eq_nil hlen]
  · rw [gaps]
    cases SortKey.sortByKey id (candles.map (·.ts)) <;> rfl

/-- Series with the same timestamps, repeated or not, are alike. -/
theorem isSubdaily_congr {A : Type} {candles candles' : List (Candle A)}
    (h : ∀ t, (∃ c ∈ candles, c.ts = t) ↔ ∃ c ∈ candles', c.ts = t) :
    isSubdaily candles = isSubdaily candles' := by
  rw [isSubdaily_eq, isSubdaily_eq, gaps_eq, gaps_eq, nanoGaps, nanoGaps, instants_congr h]

end Borsa
