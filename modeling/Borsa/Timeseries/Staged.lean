import Borsa.Timeseries.ResampleSpec

/-!
# Resampling in stages

A resampled series is determined by the candles (`IsResampled.unique`), and the resampled series of a
finer one is that of its candles (`IsResampled.trans`). So resampling to a cadence and then to one
whose buckets are made of its buckets is resampling to the latter at once, but for overflows: the
first stage leaves out candles whose bucket starts before the calendar, and with them the panic that
the second stage would have had (`resample_staged`).
-/

namespace Borsa

open Fallible

section
variable {A : Type} [LinearOrder A]

/-! ## Sums of sums -/

omit [LinearOrder A] in
theorem volumes_append (cs ds : List (Candle A)) : volumes (cs ++ ds) = volumes cs ++ volumes ds :=
  List.filterMap_append

namespace SumsUp
variable {cs : List (Candle A)} {o o' : Candle A}

theorem ne_nil (h : SumsUp cs o) : cs ≠ [] := by
  intro hnil
  have := h.openFirst
  rw [hnil] at this
  cases this

/-- The volume of the candle is the capped sum of the volumes. -/
theorem sum_volumes (h : SumsUp cs o) :
    (volumes [o]).sum = min (volumes cs).sum (2 ^ 64 - 1) := by
  cases hv : o.volume with
  | none =>
    rw [volumes_eq_nil.2 (h.volume_none.1 hv)]
    simp [volumes, hv]
  | some v =>
    rw [← h.volume_sum v hv]
    simp [volumes, hv]

theorem exists_open (h : SumsUp cs o) : ∃ c ∈ cs, o.open = c.open := by
  obtain ⟨c, hc, hopen⟩ := Option.map_eq_some_iff.1 h.openFirst
  exact ⟨c, List.mem_of_mem_head? hc, hopen.symm⟩

theorem exists_close (h : SumsUp cs o) : ∃ c ∈ cs, o.close = c.close := by
  obtain ⟨c, hc, hclose⟩ := Option.map_eq_some_iff.1 h.closeLast
  exact ⟨c, List.mem_of_mem_getLast? hc, hclose.symm⟩

/-- The candle is in the currency of the candles it sums up. -/
theorem mem_in {cur : Currency} (h : SumsUp cs o) (hcur : ∀ c ∈ cs, c.In cur) : o.In cur := by
  obtain ⟨c₁, hc₁, hopen⟩ := h.exists_open
  obtain ⟨c₂, hc₂, hhigh⟩ := h.high_mem
  obtain ⟨c₃, hc₃, hlow⟩ := h.low_mem
  obtain ⟨c₄, hc₄, hclose⟩ := h.exists_close
  rw [Candle.In, hopen, hhigh, hlow, hclose]
  exact ⟨(hcur c₁ hc₁).1, (hcur c₂ hc₂).2.1, (hcur c₃ hc₃).2.2.1, (hcur c₄ hc₄).2.2.2⟩

/-- Candles in one currency are summed up in one way. -/
theorem unique {cur : Currency} (h : SumsUp cs o) (h' : SumsUp cs o') (hcur : ∀ c ∈ cs, c.In cur)
    (hts : o.ts = o'.ts) : o = o' := by
  have hin := h.mem_in hcur
  have hin' := h'.mem_in hcur
  have hopen : o.open = o'.open := Option.some.inj (h.openFirst.symm.trans h'.openFirst)
  have hclose : o.close = o'.close := Option.some.inj (h.closeLast.symm.trans h'.closeLast)
  have hhigh : o.high = o'.high := by
    obtain ⟨c, hc, heq⟩ := h.high_mem
    obtain ⟨c', hc', heq'⟩ := h'.high_mem
    refine Money.ext ?_ (hin.2.1.trans hin'.2.1.symm)
    exact le_antisymm (heq ▸ h'.le_high c hc) (heq' ▸ h.le_high c' hc')
  have hlow : o.low = o'.low := by
    obtain ⟨c, hc, heq⟩ := h.low_mem
    obtain ⟨c', hc', heq'⟩ := h'.low_mem
    refine Money.ext ?_ (hin.2.2.1.trans hin'.2.2.1.symm)
    exact le_antisymm (heq' ▸ h.low_le c' hc') (heq ▸ h'.low_le c hc)
  have hvolume : o.volume = o'.volume := by
    cases hv : o.volume with
    | none => exact (h'.volume_none.2 (h.volume_none.1 hv)).symm
    | some v =>
      cases hv' : o'.volume with
      | none =>
        rw [h.volume_none.2 (h'.volume_none.1 hv')] at hv
        cases hv
      | some v' =>
        have heq : v.toNat = v'.toNat := (h.volume_sum v hv).trans (h'.volume_sum v' hv').symm
        rw [UInt64.toNat_inj.1 heq]
  exact Candle.ext hts hopen hhigh hlow hclose (h.closeUnadj_eq.trans h'.closeUnadj_eq.symm) hvolume

theorem min_sum_volumes_flatMap {parts : Candle A → List (Candle A)} {ys : List (Candle A)}
    (hparts : ∀ y ∈ ys, SumsUp (parts y) y) :
    min (volumes ys).sum (2 ^ 64 - 1) = min (volumes (ys.flatMap parts)).sum (2 ^ 64 - 1) := by
  induction ys with
  | nil => rfl
  | cons y ys ih =>
    obtain ⟨hy, hys⟩ := List.forall_mem_cons.1 hparts
    have hsum := hy.sum_volumes
    have ih := ih hys
    rw [← List.singleton_append, volumes_append, List.flatMap_append, volumes_append,
      List.flatMap_singleton, List.sum_append, List.sum_append]
    omega

/-- Summing up sums is summing up. -/
theorem flatMap {parts : Candle A → List (Candle A)} {ys : List (Candle A)} (h : SumsUp ys o)
    (hparts : ∀ y ∈ ys, SumsUp (parts y) y) : SumsUp (ys.flatMap parts) o where
  openFirst := by
    obtain ⟨y, hy, hopen⟩ := Option.map_eq_some_iff.1 h.openFirst
    obtain ⟨rest, rfl⟩ : ∃ rest, ys = y :: rest := List.head?_eq_some_iff.1 hy
    have hy' := hparts y List.mem_cons_self
    rw [List.flatMap_cons, List.head?_append_of_ne_nil _ hy'.ne_nil, hy'.openFirst, hopen]
  closeLast := by
    obtain ⟨y, hy, hclose⟩ := Option.map_eq_some_iff.1 h.closeLast
    obtain ⟨rest, rfl⟩ : ∃ rest, ys = rest ++ [y] := List.getLast?_eq_some_iff.1 hy
    have hy' := hparts y (by simp)
    rw [List.flatMap_append, List.flatMap_singleton, List.getLast?_append_of_ne_nil _ hy'.ne_nil,
      hy'.closeLast, hclose]
  high_mem := by
    obtain ⟨y, hy, hhigh⟩ := h.high_mem
    obtain ⟨c, hc, heq⟩ := (hparts y hy).high_mem
    exact ⟨c, List.mem_flatMap.2 ⟨y, hy, hc⟩, hhigh.trans heq⟩
  le_high := by
    intro c hc
    obtain ⟨y, hy, hcy⟩ := List.mem_flatMap.1 hc
    exact ((hparts y hy).le_high c hcy).trans (h.le_high y hy)
  low_mem := by
    obtain ⟨y, hy, hlow⟩ := h.low_mem
    obtain ⟨c, hc, heq⟩ := (hparts y hy).low_mem
    exact ⟨c, List.mem_flatMap.2 ⟨y, hy, hc⟩, hlow.trans heq⟩
  low_le := by
    intro c hc
    obtain ⟨y, hy, hcy⟩ := List.mem_flatMap.1 hc
    exact (h.low_le y hy).trans ((hparts y hy).low_le c hcy)
  closeUnadj_eq := h.closeUnadj_eq
  volume_none := by
    rw [h.volume_none]
    constructor
    · intro hnone c hc
      obtain ⟨y, hy, hcy⟩ := List.mem_flatMap.1 hc
      exact (hparts y hy).volume_none.1 (hnone y hy) c hcy
    · intro hnone y hy
      exact (hparts y hy).volume_none.2 fun c hc => hnone c (List.mem_flatMap.2 ⟨y, hy, hc⟩)
  volume_sum := by
    intro v hv
    rw [h.volume_sum v hv, min_sum_volumes_flatMap hparts]

end SumsUp

/-! ## The resampled series -/

omit [LinearOrder A] in
theorem mem_members {cadence : Cadence} {candles : List (Candle A)} {b : DateTime} {c : Candle A} :
    c ∈ members cadence candles b ↔ c ∈ candles ∧ cadence.InBucket b c.ts := by
  rw [members, List.mem_filter, SortKey.mem_sortByKey, decide_eq_true_iff]

namespace IsResampled
variable {cadence : Cadence} {off : ℤ} {candles out out' : List (Candle A)}

/-- The resampled candles are in the currency of the candles. -/
theorem singleCurrency (h : IsResampled cadence off candles out) (hcur : SingleCurrency candles) :
    SingleCurrency out := by
  obtain ⟨cur, hcur⟩ := hcur
  exact ⟨cur, fun o ho => (h.sumsUp o ho).mem_in fun c hc => hcur c (mem_members.1 hc).1⟩

theorem mem_of_mem (hpos : 0 < cadence.length) (h : IsResampled cadence off candles out)
    (h' : IsResampled cadence off candles out') (hcur : SingleCurrency candles) {o : Candle A}
    (ho : o ∈ out) : o ∈ out' := by
  obtain ⟨cur, hcur⟩ := hcur
  obtain ⟨c, hc, hin⟩ := h.occupied o ho
  have hstart := (Cadence.inBucket_iff hpos (h.starts o ho)).1 hin
  obtain ⟨o', ho', hin'⟩ := h'.covers c hc (hstart ▸ o.ts.timestamp_bounds.1)
  have hts : o.ts = o'.ts := by
    refine DateTime.nanos_injective ?_
    rw [(h.starts o ho).1, (h'.starts o' ho').1, hstart,
      (Cadence.inBucket_iff hpos (h'.starts o' ho')).1 hin']
  have hsum' := h'.sumsUp o' ho'
  rw [← hts] at hsum'
  rwa [(h.sumsUp o ho).unique hsum' (fun c hc => hcur c (mem_members.1 hc).1) hts]

/-- Candles in one currency have one resampled series. -/
theorem unique (hpos : 0 < cadence.length) (h : IsResampled cadence off candles out)
    (h' : IsResampled cadence off candles out') (hcur : SingleCurrency candles) : out = out' := by
  have hnodup : ∀ {l : List (Candle A)}, Ascending l → l.Nodup :=
    fun hl => hl.imp fun hlt heq => hlt.ne (congrArg Candle.ts heq)
  have hperm : out.Perm out' := (List.perm_ext_iff_of_nodup (hnodup h.ascending)
    (hnodup h'.ascending)).2 fun o => ⟨h.mem_of_mem hpos h' hcur, h'.mem_of_mem hpos h hcur⟩
  exact hperm.eq_of_pairwise (fun _ _ _ _ hlt hlt' => absurd hlt' hlt.asymm) h.ascending h'.ascending

end IsResampled

/-! ## Buckets made of buckets -/

/-- The buckets of the second cadence are made of buckets of the first. -/
inductive Cadence.Nested : Cadence → Cadence → Prop where
  | refl (cadence : Cadence) : Nested cadence cadence
  | daily_weekly : Nested .daily .weekly
  | minutes_daily {m : ℤ} : 0 < m → m ∣ 1440 → Nested (.minutes m) .daily
  | minutes {m n : ℤ} : 0 < m → 0 < n → m ∣ n → Nested (.minutes m) (.minutes n)

namespace Cadence.Nested
variable {fine coarse : Cadence} {off : ℤ}

theorem dvd (h : Nested fine coarse) : fine.length ∣ coarse.length ∧
    fine.length ∣ coarse.origin - fine.origin := by
  cases h with
  | refl => exact ⟨dvd_rfl, by simp⟩
  | daily_weekly => exact ⟨by decide, by decide⟩
  | minutes_daily _ hdvd => exact ⟨mul_dvd_mul_right hdvd 60, dvd_zero _⟩
  | minutes _ _ hdvd => exact ⟨mul_dvd_mul_right hdvd 60, dvd_zero _⟩

theorem pos_iff (h : Nested fine coarse) : 0 < fine.length ↔ 0 < coarse.length := by
  cases h with
  | refl => rfl
  | daily_weekly => decide
  | minutes_daily hpos _ => exact iff_of_true (by simpa [length] using hpos) (by decide)
  | minutes hpos hpos' _ =>
    exact iff_of_true (by simpa [length] using hpos) (by simpa [length] using hpos')

theorem eq_of_not_pos (h : Nested fine coarse) (hpos : ¬ 0 < fine.length) : fine = coarse := by
  cases h with
  | refl => rfl
  | daily_weekly => exact absurd (by decide) hpos
  | minutes_daily hpos' _ => exact absurd (by simpa [length] using hpos') hpos
  | minutes hpos' _ _ => exact absurd (by simpa [length] using hpos') hpos

/-- The coarse bucket of a second is that of the start of its fine bucket. -/
theorem start_start (h : Nested fine coarse) (hpos : 0 < fine.length) (off secs : ℤ) :
    coarse.start off (fine.start off secs) = coarse.start off secs := by
  refine Grid.floorTo_floorTo hpos (h.pos_iff.1 hpos) h.dvd.1 ?_
  simpa using h.dvd.2

theorem start_le_start (h : Nested fine coarse) (hpos : 0 < fine.length) (off secs : ℤ) :
    coarse.start off secs ≤ fine.start off secs := by
  rw [← h.start_start hpos]
  exact Grid.floorTo_le (h.pos_iff.1 hpos) _ _

/-- Where the coarse bucket can be computed, so can the fine one. -/
theorem fits_of_fits (h : Nested fine coarse) (hpos : 0 < fine.length) {ts : DateTime}
    (hfits : coarse.Fits off ts.timestamp) : fine.Fits off ts.timestamp := by
  have hlen := Int.le_of_dvd (h.pos_iff.1 hpos) h.dvd.1
  have hle := h.start_le_start hpos off ts.timestamp
  have hle' := Grid.floorTo_le hpos (fine.origin - off) ts.timestamp
  have hts := Cadence.inI64_timestamp ts
  simp only [Fits, InI64, start] at *
  omega

end Cadence.Nested

section
variable {fine coarse : Cadence} {off : ℤ} {candles mid : List (Candle A)}
  (hnest : fine.Nested coarse) (hpos : 0 < fine.length) (hmid : IsResampled fine off candles mid)
include hnest hpos hmid

/-- A candle lies in the coarse bucket with the candle of its fine bucket. -/
theorem IsResampled.inBucket_iff {b : DateTime} (hb : coarse.StartsBucket off b) {o c : Candle A}
    (ho : o ∈ mid) (hin : fine.InBucket o.ts c.ts) :
    coarse.InBucket b c.ts ↔ coarse.InBucket b o.ts := by
  have hpos' := hnest.pos_iff.1 hpos
  rw [Cadence.inBucket_iff hpos' hb, Cadence.inBucket_iff hpos' hb,
    (Cadence.inBucket_iff hpos (hmid.starts o ho)).1 hin, hnest.start_start hpos]

/-- A candle of a coarse bucket lies in the fine bucket of a candle in it. -/
theorem IsResampled.exists_mem_members {b : DateTime} (hb : coarse.StartsBucket off b)
    {c : Candle A} (hc : c ∈ members coarse candles b) :
    ∃ o ∈ members coarse mid b, fine.InBucket o.ts c.ts := by
  obtain ⟨hc, hin⟩ := mem_members.1 hc
  have hmin : minTimestamp ≤ fine.start off c.ts.timestamp := by
    have hle := hnest.start_le_start hpos off c.ts.timestamp
    rw [← (Cadence.inBucket_iff (hnest.pos_iff.1 hpos) hb).1 hin] at hle
    exact b.timestamp_bounds.1.trans hle
  obtain ⟨o, ho, hino⟩ := hmid.covers c hc hmin
  exact ⟨o, mem_members.2 ⟨ho, (hmid.inBucket_iff hnest hpos hb ho hino).1 hin⟩, hino⟩

/-- A coarse bucket lists its candles fine bucket by fine bucket. -/
theorem members_eq_flatMap {b : DateTime} (hb : coarse.StartsBucket off b) :
    members coarse candles b =
      (members coarse mid b).flatMap fun o => members fine candles o.ts := by
  have hmem : members coarse mid b = mid.filter fun o => coarse.InBucket b o.ts := by
    rw [members, SortKey.sortByKey_eq_of_perm (List.Perm.refl _) hmid.ascending]
  have hsorted : (members coarse candles b).Pairwise fun c d =>
      fine.start off c.ts.timestamp ≤ fine.start off d.ts.timestamp := by
    refine ((SortKey.pairwise_sortByKey _ candles).filter _).imp fun {c d} hle => ?_
    exact Cadence.start_mono hpos off (DateTime.timestamp_mono hle)
  have hstarts : ((members coarse mid b).map fun o => o.ts.timestamp).Pairwise (· < ·) := by
    rw [hmem, List.pairwise_map]
    refine (hmid.ascending.filter _).imp_of_mem fun {o o'} ho ho' hlt => ?_
    have hs := (hmid.starts o (List.mem_filter.1 ho).1).1
    have hs' := (hmid.starts o' (List.mem_filter.1 ho').1).1
    rw [DateTime.lt_def] at hlt
    omega
  have hcovers : ∀ c ∈ members coarse candles b,
      fine.start off c.ts.timestamp ∈ (members coarse mid b).map fun o => o.ts.timestamp := by
    intro c hc
    obtain ⟨o, ho, hin⟩ := hmid.exists_mem_members hnest hpos hb hc
    have hstart := (Cadence.inBucket_iff hpos (hmid.starts o (mem_members.1 ho).1)).1 hin
    exact List.mem_map.2 ⟨o, ho, hstart⟩
  refine (SortKey.flatMap_filter_of_pairwise hsorted hstarts hcovers).symm.trans ?_
  rw [List.flatMap_map]
  refine List.flatMap_congr fun o ho => ?_
  obtain ⟨ho, hino⟩ := mem_members.1 ho
  rw [members, members, List.filter_filter]
  refine List.filter_congr fun c _ => ?_
  rw [Bool.eq_iff_iff, Bool.and_eq_true, beq_iff_eq, decide_eq_true_iff, decide_eq_true_iff,
    Cadence.inBucket_iff hpos (hmid.starts o ho)]
  constructor
  · rintro ⟨heq, _⟩
    exact heq.symm
  · intro heq
    have hin := (Cadence.inBucket_iff hpos (hmid.starts o ho)).2 heq
    exact ⟨heq.symm, (hmid.inBucket_iff hnest hpos hb ho hin).2 hino⟩

end

/-- The resampled series of a finer one is the resampled series of its candles. -/
theorem IsResampled.trans {fine coarse : Cadence} {off : ℤ} {candles mid out : List (Candle A)}
    (hnest : fine.Nested coarse) (hpos : 0 < fine.length)
    (hmid : IsResampled fine off candles mid) (hout : IsResampled coarse off mid out) :
    IsResampled coarse off candles out where
  ascending := hout.ascending
  starts := hout.starts
  occupied := by
    intro o ho
    have hb := hout.starts o ho
    obtain ⟨m, hm, hin⟩ := hout.occupied o ho
    have hne := (hmid.sumsUp m hm).ne_nil
    obtain ⟨c, hc⟩ := List.exists_mem_of_ne_nil _ hne
    have hmem : c ∈ members coarse candles o.ts := by
      rw [members_eq_flatMap hnest hpos hmid hb]
      exact List.mem_flatMap.2 ⟨m, mem_members.2 ⟨hm, hin⟩, hc⟩
    exact ⟨c, mem_members.1 hmem⟩
  covers := by
    intro c hc hmin
    have hmin' := hmin.trans (hnest.start_le_start hpos off c.ts.timestamp)
    obtain ⟨m, hm, hin⟩ := hmid.covers c hc hmin'
    have hstart := (Cadence.inBucket_iff hpos (hmid.starts m hm)).1 hin
    have hcoarse : coarse.start off m.ts.timestamp = coarse.start off c.ts.timestamp := by
      rw [hstart, hnest.start_start hpos]
    obtain ⟨o, ho, hino⟩ := hout.covers m hm (hcoarse.symm ▸ hmin)
    refine ⟨o, ho, ?_⟩
    rw [Cadence.inBucket_iff (hnest.pos_iff.1 hpos) (hout.starts o ho)] at hino ⊢
    rw [hino, hcoarse]
  sumsUp := by
    intro o ho
    rw [members_eq_flatMap hnest hpos hmid (hout.starts o ho)]
    exact (hout.sumsUp o ho).flatMap fun m hm => hmid.sumsUp m (mem_members.1 hm).1

/-! ## Two stages -/

variable [ToString DateTime]

/-- The bucket function of a cadence fails by a panic. -/
theorem resampleWithMeta_eq_panic {cadence : Cadence} {«meta» : Option HistoryMeta} {off : ℤ}
    {candles : List (Candle A)} (hpos : 0 < cadence.length)
    (hoff : Cadence.FixedOffset «meta» off) (hcur : SingleCurrency candles)
    (hnot : ¬ Total (cadence.bucketOf «meta») candles) :
    cadence.resampleWithMeta candles «meta» = .error .panic := by
  rw [Cadence.resampleWithMeta_eq hpos]
  refine resampleBy_eq_panic (fun ts f h => ?_) hcur hnot
  rw [cadence.bucketOf_eq hoff] at h
  split at h
  · cases h
  · exact (Except.error.inj h).symm

omit [LinearOrder A] [ToString DateTime] in
theorem total_bucketOf_iff {cadence : Cadence} {«meta» : Option HistoryMeta} {off : ℤ}
    {candles : List (Candle A)} (hoff : Cadence.FixedOffset «meta» off) :
    Total (cadence.bucketOf «meta») candles ↔
      ∀ c ∈ candles, cadence.Fits off c.ts.timestamp := by
  refine forall₂_congr fun c _ => ?_
  rw [cadence.bucketOf_eq hoff]
  split <;> simp_all

/-- A panic of the coarse cadence is not lost: some candle that causes it reaches the second stage, or
causes a panic of the first. -/
def KeepsPanic (fine coarse : Cadence) (off : ℤ) (candles : List (Candle A)) : Prop :=
  (∃ c ∈ candles, ¬ coarse.Fits off c.ts.timestamp) →
    ∃ c ∈ candles, ¬ coarse.Fits off c.ts.timestamp ∧
      (fine.Fits off c.ts.timestamp → minTimestamp ≤ fine.start off c.ts.timestamp)

instance (fine coarse : Cadence) (off : ℤ) (candles : List (Candle A)) :
    Decidable (KeepsPanic fine coarse off candles) :=
  inferInstanceAs (Decidable ((∃ c ∈ candles, _) → ∃ c ∈ candles, _))

omit [LinearOrder A] [ToString DateTime] in
theorem KeepsPanic.refl (cadence : Cadence) (off : ℤ) (candles : List (Candle A)) :
    KeepsPanic cadence cadence off candles := by
  rintro ⟨c, hc, hnot⟩
  exact ⟨c, hc, hnot, fun hfits => absurd hfits hnot⟩

section
variable {fine coarse : Cadence} {«meta» : Option HistoryMeta} {off : ℤ}
  {candles mid : List (Candle A)} (hnest : fine.Nested coarse) (hpos : 0 < fine.length)
include hnest hpos

omit [ToString DateTime] in
/-- The second stage panics on the candles that reach it. -/
theorem not_fits_mid_iff (hmid : IsResampled fine off candles mid)
    (hfits : ∀ c ∈ candles, fine.Fits off c.ts.timestamp) :
    (∃ o ∈ mid, ¬ coarse.Fits off o.ts.timestamp) ↔
      ∃ c ∈ candles, ¬ coarse.Fits off c.ts.timestamp ∧
        minTimestamp ≤ fine.start off c.ts.timestamp := by
  -- where no operation of the first stage overflows, one of the second does for both or for neither
  have hiff : ∀ o ∈ mid, ∀ c ∈ candles, fine.InBucket o.ts c.ts →
      (coarse.Fits off o.ts.timestamp ↔ coarse.Fits off c.ts.timestamp) := by
    intro o ho c hc hin
    have hstart := (Cadence.inBucket_iff hpos (hmid.starts o ho)).1 hin
    have hfc := hfits c hc
    have hcoarse := hnest.start_start hpos off c.ts.timestamp
    simp only [Cadence.Fits, hstart, hcoarse] at hfc ⊢
    tauto
  constructor
  · rintro ⟨o, ho, hnot⟩
    obtain ⟨c, hc, hin⟩ := hmid.occupied o ho
    refine ⟨c, hc, fun hfc => hnot ((hiff o ho c hc hin).2 hfc), ?_⟩
    rw [← (Cadence.inBucket_iff hpos (hmid.starts o ho)).1 hin]
    exact o.ts.timestamp_bounds.1
  · rintro ⟨c, hc, hnot, hmin⟩
    obtain ⟨o, ho, hin⟩ := hmid.covers c hc hmin
    exact ⟨o, ho, fun hfo => hnot ((hiff o ho c hc hin).1 hfo)⟩

/-- Resampling in two stages of positive lengths is resampling at once, unless a panic is lost. -/
theorem resampleWithMeta_bind_iff (hoff : Cadence.FixedOffset «meta» off)
    (hcur : SingleCurrency candles) :
    (fine.resampleWithMeta candles «meta» >>= fun mid => coarse.resampleWithMeta mid «meta») =
        coarse.resampleWithMeta candles «meta» ↔ KeepsPanic fine coarse off candles := by
  have hpos' := hnest.pos_iff.1 hpos
  by_cases hfine : ∀ c ∈ candles, fine.Fits off c.ts.timestamp
  · obtain ⟨mid, hmideq, hmid⟩ :=
      exists_resampleWithMeta_eq hpos hoff hcur ((total_bucketOf_iff hoff).2 hfine)
    have hcurmid := hmid.singleCurrency hcur
    rw [hmideq, ok_bind, KeepsPanic]
    by_cases hcoarse : ∀ c ∈ candles, coarse.Fits off c.ts.timestamp
    · have hmidfits : ∀ o ∈ mid, coarse.Fits off o.ts.timestamp := by
        by_contra hnot
        simp only [not_forall, exists_prop] at hnot
        obtain ⟨c, hc, hnot, -⟩ := (not_fits_mid_iff hnest hpos hmid hfine).1 hnot
        exact hnot (hcoarse c hc)
      obtain ⟨out, houteq, hout⟩ :=
        exists_resampleWithMeta_eq hpos' hoff hcur ((total_bucketOf_iff hoff).2 hcoarse)
      obtain ⟨out', houteq', hout'⟩ :=
        exists_resampleWithMeta_eq hpos' hoff hcurmid ((total_bucketOf_iff hoff).2 hmidfits)
      rw [houteq, houteq', (hmid.trans hnest hpos hout').unique hpos' hout hcur]
      refine iff_of_true rfl ?_
      rintro ⟨c, hc, hnot⟩
      exact absurd (hcoarse c hc) hnot
    · have hpanic := resampleWithMeta_eq_panic hpos' hoff hcur
        fun htotal => hcoarse ((total_bucketOf_iff hoff).1 htotal)
      rw [hpanic]
      by_cases hmidfits : ∀ o ∈ mid, coarse.Fits off o.ts.timestamp
      · obtain ⟨out, hout, -⟩ :=
          exists_resampleWithMeta_eq hpos' hoff hcurmid ((total_bucketOf_iff hoff).2 hmidfits)
        rw [hout]
        refine iff_of_false (by simp) fun hkeeps => ?_
        obtain ⟨c, hc, hnot, hmin⟩ := hkeeps (by simpa using hcoarse)
        obtain ⟨o, ho, hnoto⟩ :=
          (not_fits_mid_iff hnest hpos hmid hfine).2 ⟨c, hc, hnot, hmin (hfine c hc)⟩
        exact hnoto (hmidfits o ho)
      · rw [resampleWithMeta_eq_panic hpos' hoff hcurmid
          fun htotal => hmidfits ((total_bucketOf_iff hoff).1 htotal)]
        refine iff_of_true rfl fun _ => ?_
        obtain ⟨c, hc, hnot, hmin⟩ :=
          (not_fits_mid_iff hnest hpos hmid hfine).1 (by simpa using hmidfits)
        exact ⟨c, hc, hnot, fun _ => hmin⟩
  · -- where the first stage panics, so does the second
    have hpanic := resampleWithMeta_eq_panic hpos hoff hcur
      fun htotal => hfine ((total_bucketOf_iff hoff).1 htotal)
    simp only [not_forall, exists_prop] at hfine
    obtain ⟨c, hc, hnot⟩ := hfine
    have hnot' : ¬ coarse.Fits off c.ts.timestamp := fun h => hnot (hnest.fits_of_fits hpos h)
    rw [hpanic, resampleWithMeta_eq_panic hpos' hoff hcur
      fun htotal => hnot' ((total_bucketOf_iff hoff).1 htotal c hc)]
    exact iff_of_true rfl fun _ => ⟨c, hc, hnot', fun h => absurd h hnot⟩

end

/-- Resampling to a cadence whose buckets are made of those of another, after resampling to the
other, is resampling at once, exactly when no panic is lost; resampling twice to one cadence is
resampling once. -/
theorem resample_staged {«meta» : Option HistoryMeta} {off : ℤ} {candles : List (Candle A)}
    (hoff : Cadence.FixedOffset «meta» off) (hcur : SingleCurrency candles) :
    (∀ cadence : Cadence,
      (cadence.resampleWithMeta candles «meta» >>= fun mid => cadence.resampleWithMeta mid «meta») =
        cadence.resampleWithMeta candles «meta») ∧
    (∀ fine coarse : Cadence, fine.Nested coarse →
      ((fine.resampleWithMeta candles «meta» >>= fun mid => coarse.resampleWithMeta mid «meta») =
          coarse.resampleWithMeta candles «meta» ↔ KeepsPanic fine coarse off candles)) ∧
    («meta» = none → ∀ fine coarse : Cadence, fine.Nested coarse →
      ((fine.resample candles >>= fun mid => coarse.resample mid) = coarse.resample candles ↔
        KeepsPanic fine coarse off candles)) := by
  have hiff : ∀ fine coarse : Cadence, fine.Nested coarse →
      ((fine.resampleWithMeta candles «meta» >>= fun mid => coarse.resampleWithMeta mid «meta») =
          coarse.resampleWithMeta candles «meta» ↔ KeepsPanic fine coarse off candles) := by
    intro fine coarse hnest
    by_cases hpos : 0 < fine.length
    · exact resampleWithMeta_bind_iff hnest hpos hoff hcur
    · obtain rfl := hnest.eq_of_not_pos hpos
      refine iff_of_true ?_ (.refl _ _ _)
      rw [Cadence.resampleWithMeta_eq_self hpos]
      exact Cadence.resampleWithMeta_eq_self hpos _ _
  refine ⟨fun cadence => (hiff _ _ (.refl cadence)).2 (.refl _ _ _), hiff, ?_⟩
  intro hmeta fine coarse hnest
  simp only [Cadence.resample_eq, ← hmeta]
  exact hiff fine coarse hnest

end

section
local instance textStaged : ToString DateTime := ⟨fun ts => toString ts.nanos⟩

/-- The last second of 1969. -/
def lastSecond : Candle ℕ := .flat (.ofTimestamp (-1) (by decide)) ⟨1, ⟨"USD"⟩⟩

/-- Candles of two days, five hours behind UTC. -/
def twoDays : List (Candle ℕ) :=
  [dollarCandle 97200 (by decide) 14, dollarCandle 3900 (by decide) 10,
    dollarCandle 5400 (by decide) 12, dollarCandle 7500 (by decide) 11,
    dollarCandle 21600 (by decide) 13]

/-- By hours, and these by days. -/
theorem resample_staged_twoDays :
    let behind : Option HistoryMeta := some ⟨none, some (-18000)⟩
    ((Cadence.minutes 60).resampleWithMeta twoDays behind >>= fun mid =>
      Cadence.daily.resampleWithMeta mid behind) = Cadence.daily.resampleWithMeta twoDays behind ∧
    (Cadence.daily.resampleWithMeta twoDays behind).map (·.map (·.high.amount)) = .ok [12, 14] := by
  intro behind
  have hcur : SingleCurrency twoDays := ⟨⟨"USD"⟩, by decide⟩
  have hoff : Cadence.FixedOffset behind (-18000) := ⟨rfl, rfl⟩
  have hnest : (Cadence.minutes 60).Nested .daily := .minutes_daily (by decide) ⟨24, by decide⟩
  exact ⟨((resample_staged hoff hcur).2.1 _ _ hnest).2 (by decide), rfl⟩

/-- Twice the largest number of minutes whose seconds fit overflows, but a candle before the epoch
does not reach the second stage. -/
theorem not_resample_staged :
    ¬ ∀ (candles : List (Candle ℕ)) (m n : ℤ), SingleCurrency candles → 0 < m → 0 < n → m ∣ n →
      (resampleToMinutes candles m >>= fun mid => resampleToMinutes mid n) =
        resampleToMinutes candles n := by
  intro h
  have heq := h [lastSecond] 153722867280912930 307445734561825860 ⟨⟨"USD"⟩, by decide⟩
    (by decide) (by decide) ⟨2, by decide⟩
  have hstaged : (resampleToMinutes [lastSecond] 153722867280912930 >>=
      fun mid => resampleToMinutes mid 307445734561825860) = .ok [] := rfl
  have honce : resampleToMinutes [lastSecond] 307445734561825860 = .error .panic := rfl
  rw [hstaged, honce] at heq
  cases heq

end

end Borsa
