import Borsa.Timeseries.Dedup

/-!
# Merging in two steps

A merged history can be merged with further responses in place of those it came from
(`mergeHistory_incremental`): every accumulator of `merge_history` can be read back from the response
it ends in. The candles are the first ones up to their unadjusted close (`SameFirsts`), a response is
new or old by the timestamps before it, the flag and the meta speak for all that contributed, and
deduplicated actions can be deduplicated again together with more.
-/

namespace Borsa

section
variable {A : Type}

/-! ## First candles -/

/-- The candle without its unadjusted close. -/
def Candle.stripped (c : Candle A) : Candle A := { c with closeUnadj := none }

/-- The first candles of the two lists are the same, up to their unadjusted close. -/
def SameFirsts (cs cs' : List (Candle A)) : Prop :=
  ∀ c, (∃ d, FirstOf cs d ∧ c = d.stripped) ↔ ∃ d, FirstOf cs' d ∧ c = d.stripped

/-- The first candle of a timestamp in two lists one after the other. -/
theorem firstOf_append {cs ds : List (Candle A)} {c : Candle A} :
    FirstOf (cs ++ ds) c ↔ FirstOf cs c ∨ FirstOf ds c ∧ ∀ e ∈ cs, e.ts ≠ c.ts := by
  unfold FirstOf
  rw [List.find?_append]
  cases hcs : cs.find? fun d => d.ts = c.ts with
  | none =>
    rw [List.find?_eq_none] at hcs
    simp only [decide_eq_true_eq] at hcs
    simp only [Option.none_or, reduceCtorEq, false_or]
    exact (and_iff_left hcs).symm
  | some d =>
    have hmem := List.mem_of_find?_eq_some hcs
    have hts : d.ts = c.ts := by simpa using List.find?_some hcs
    simp only [Option.some_or, Option.some.injEq]
    exact (or_iff_left fun h => h.2 d hmem hts).symm

/-- In an ascending list every candle is the first of its timestamp. -/
theorem firstOf_of_ascending {cs : List (Candle A)} (h : Ascending cs) {c : Candle A} :
    FirstOf cs c ↔ c ∈ cs := by
  refine ⟨FirstOf.mem, fun hc => ?_⟩
  obtain ⟨d, hd, hts⟩ := exists_firstOf hc
  have hinj : ∀ x ∈ cs, ∀ y ∈ cs, x.ts = y.ts → x = y := by
    have hmap : (cs.map (·.ts)).Nodup := List.pairwise_map.2 (h.imp fun hlt => ne_of_lt hlt)
    exact fun x hx y hy heq => List.inj_on_of_nodup_map hmap hx hy heq
  rwa [← hinj d hd.mem c hc hts]

namespace SameFirsts

variable {cs cs' : List (Candle A)}

/-- The two lists have candles at the same timestamps. -/
theorem ts (h : SameFirsts cs cs') (t : DateTime) :
    (∃ c ∈ cs, c.ts = t) ↔ ∃ c ∈ cs', c.ts = t := by
  have key : ∀ {a b : List (Candle A)}, SameFirsts a b → (∃ c ∈ a, c.ts = t) →
      ∃ c ∈ b, c.ts = t := by
    rintro a b hab ⟨c, hc, rfl⟩
    obtain ⟨d, hd, hts⟩ := exists_firstOf hc
    obtain ⟨e, he, heq⟩ := (hab _).1 ⟨d, hd, rfl⟩
    have hde := congrArg Candle.ts heq
    exact ⟨e, he.mem, Eq.trans hde.symm hts⟩
  exact ⟨key h, key fun c => (h c).symm⟩

/-- Followed by the same candles they still have the same first ones. -/
theorem append (h : SameFirsts cs cs') (ds : List (Candle A)) :
    SameFirsts (cs ++ ds) (cs' ++ ds) := by
  have key : ∀ {a b : List (Candle A)}, SameFirsts a b → ∀ c : Candle A,
      (∃ d, FirstOf (a ++ ds) d ∧ c = d.stripped) →
      ∃ d, FirstOf (b ++ ds) d ∧ c = d.stripped := by
    rintro a b hab c ⟨d, hd, rfl⟩
    rcases firstOf_append.1 hd with hd | ⟨hd, hno⟩
    · obtain ⟨e, he, heq⟩ := (hab _).1 ⟨d, hd, rfl⟩
      exact ⟨e, firstOf_append.2 (.inl he), heq⟩
    · refine ⟨d, firstOf_append.2 (.inr ⟨hd, fun e he hts => ?_⟩), rfl⟩
      obtain ⟨f, hf, hfts⟩ := (hab.ts d.ts).2 ⟨e, he, hts⟩
      exact hno f hf hfts
  exact fun c => ⟨key h c, key (fun c => (h c).symm) c⟩

/-- They can be merged or not alike: the unadjusted close plays no part in it. -/
theorem mergeable_iff (h : SameFirsts cs cs') : Mergeable cs ↔ Mergeable cs' := by
  have key : ∀ {a b : List (Candle A)}, SameFirsts a b → Mergeable a → Mergeable b := by
    rintro a b hab ⟨huni, hcur⟩
    have back : ∀ c, FirstOf b c → ∃ d, FirstOf a d ∧ c.stripped = d.stripped :=
      fun c hc => (hab _).2 ⟨c, hc, rfl⟩
    constructor
    · intro c hc
      obtain ⟨d, hd, heq⟩ := back c hc
      have hd : d.stripped.Uniform := huni d hd
      rw [← heq] at hd
      exact hd
    · intro c e hc he
      obtain ⟨d, hd, heq⟩ := back c hc
      obtain ⟨f, hf, heq'⟩ := back e he
      have hcd := congrArg (fun c : Candle A => c.open.currency) heq
      have hef := congrArg (fun c : Candle A => c.open.currency) heq'
      exact (hcd.trans (hcur d f hd hf)).trans hef.symm
  exact ⟨key h, key fun c => (h c).symm⟩

end SameFirsts

/-! ## Contributors -/

theorem candlesOf_append (as bs : List (HistoryResponse A)) :
    candlesOf (as ++ bs) = candlesOf as ++ candlesOf bs :=
  List.flatMap_append ..

theorem contributorsAfter_append (seen : List (Candle A)) (as bs : List (HistoryResponse A)) :
    contributorsAfter seen (as ++ bs) =
      contributorsAfter seen as ++ contributorsAfter (seen ++ candlesOf as) bs := by
  induction as generalizing seen with
  | nil => simp [contributorsAfter, candlesOf]
  | cons r as ih =>
    rw [List.cons_append, contributorsAfter, contributorsAfter, ih, candlesOf, candlesOf,
      List.flatMap_cons, List.append_assoc]
    split <;> rfl

theorem contributors_append (as bs : List (HistoryResponse A)) :
    contributors (as ++ bs) = contributors as ++ contributorsAfter (candlesOf as) bs := by
  rw [contributors, contributorsAfter_append]
  rfl

/-- What contributes depends on the timestamps before it. -/
theorem contributorsAfter_congr {seen seen' : List (Candle A)}
    (h : ∀ t, (∃ c ∈ seen, c.ts = t) ↔ ∃ c ∈ seen', c.ts = t) (rs : List (HistoryResponse A)) :
    contributorsAfter seen rs = contributorsAfter seen' rs := by
  induction rs generalizing seen seen' with
  | nil => rfl
  | cons r rs ih =>
    have hnew : New seen = New seen' := by
      funext c
      have hc := not_congr (h c.ts)
      simp only [not_exists, not_and] at hc
      rw [Bool.eq_iff_iff, New, New, List.all_eq_true, List.all_eq_true]
      simpa only [decide_eq_true_eq, ne_eq] using hc
    have hrest : ∀ t, (∃ c ∈ seen ++ r.candles, c.ts = t) ↔
        ∃ c ∈ seen' ++ r.candles, c.ts = t := by
      intro t
      simp only [List.mem_append, or_and_right, exists_or, h t]
    rw [contributorsAfter, contributorsAfter, hnew, ih hrest]

/-- A response contributes first exactly when it has a candle. -/
theorem contributors_singleton (r : HistoryResponse A) :
    contributors [r] = if r.candles = [] then [] else [r] := by
  rw [contributors, contributorsAfter, contributorsAfter]
  cases r.candles with
  | nil => rfl
  | cons c cs => simp [New]

/-- Nothing contributes exactly when no candle is new. -/
theorem contributorsAfter_eq_nil_iff {seen : List (Candle A)} {rs : List (HistoryResponse A)} :
    contributorsAfter seen rs = [] ↔ ∀ c ∈ candlesOf rs, New seen c = false := by
  induction rs generalizing seen with
  | nil => simp [contributorsAfter, candlesOf]
  | cons r rs ih =>
    have hcons : candlesOf (r :: rs) = r.candles ++ candlesOf rs := rfl
    rw [contributorsAfter, hcons, List.forall_mem_append]
    cases hany : r.candles.any (New seen) with
    | true =>
      obtain ⟨c, hc, hnew⟩ := List.any_eq_true.1 hany
      refine iff_of_false (by simp) fun h => ?_
      rw [h.1 c hc] at hnew
      cases hnew
    | false =>
      have hold : ∀ c ∈ r.candles, New seen c = false := by simpa using hany
      have hts : ∀ c, New (seen ++ r.candles) c = New seen c := by
        intro c
        rw [New, New, List.all_append, Bool.and_eq_left_iff_imp]
        intro hall
        refine List.all_eq_true.2 fun d hd => ?_
        have hd := hold d hd
        rw [New, List.all_eq_false] at hd
        obtain ⟨e, he, hed⟩ := hd
        have hed : e.ts = d.ts := by simpa using hed
        have hec := List.all_eq_true.1 hall e he
        rwa [hed] at hec
      rw [if_neg Bool.false_ne_true, ih, and_iff_right hold]
      simp only [hts]

theorem contributors_eq_nil_iff {rs : List (HistoryResponse A)} :
    contributors rs = [] ↔ candlesOf rs = [] := by
  rw [contributors, contributorsAfter_eq_nil_iff, List.eq_nil_iff_forall_not_mem]
  refine forall₂_congr fun c _ => ?_
  exact iff_of_false Bool.false_ne_true.symm id

/-! ## The merged response -/

section
variable [LinearOrder A] [DefaultHasher A]

omit [LinearOrder A] [DefaultHasher A] in
/-- Lists with the same first candles are merged to the same candles. -/
theorem SameFirsts.stripUnadjusted_eq {cs cs' : List (Candle A)} (h : SameFirsts cs cs') :
    stripUnadjusted (candleMapOf cs).values = stripUnadjusted (candleMapOf cs').values := by
  have hmem : ∀ (l : List (Candle A)) (c : Candle A),
      c ∈ stripUnadjusted (candleMapOf l).values ↔ ∃ d, FirstOf l d ∧ c = d.stripped := by
    intro l c
    rw [stripUnadjusted, List.mem_map]
    simp only [mem_values_candleMapOf, eq_comm]
    rfl
  have hasc : ∀ l : List (Candle A),
      (stripUnadjusted (candleMapOf l).values).Pairwise fun c d => c.ts < d.ts :=
    fun l => List.pairwise_map.2 (ascending_values_candleMapOf l)
  exact SortKey.eq_of_pairwise_lt (hasc cs) (hasc cs') fun c =>
    (hmem cs c).trans ((h c).trans (hmem cs' c).symm)

/-- The merged candles have the first candles of the input. -/
theorem sameFirsts_mergeStateOf (rs : List (HistoryResponse A)) :
    SameFirsts (mergeStateOf rs).response.candles (candlesOf rs) := by
  intro c
  simp only [firstOf_of_ascending (ascending_mergeStateOf rs), mem_candles_mergeStateOf]
  constructor
  · rintro ⟨_, ⟨d, hd, rfl⟩, rfl⟩
    exact ⟨d, hd, rfl⟩
  · rintro ⟨d, hd, rfl⟩
    exact ⟨_, ⟨d, hd, rfl⟩, rfl⟩

/-- Without candles in, there are none out. -/
theorem candles_mergeStateOf_eq_nil_iff {rs : List (HistoryResponse A)} :
    (mergeStateOf rs).response.candles = [] ↔ candlesOf rs = [] := by
  have hts := ts_mergeStateOf rs
  constructor
  · intro hnil
    refine List.eq_nil_iff_forall_not_mem.2 fun c hc => ?_
    obtain ⟨d, hd, -⟩ := (hts c.ts).2 ⟨c, hc, rfl⟩
    rw [hnil] at hd
    cases hd
  · intro hnil
    refine List.eq_nil_iff_forall_not_mem.2 fun c hc => ?_
    obtain ⟨d, hd, -⟩ := (hts c.ts).1 ⟨c, hc, rfl⟩
    rw [hnil] at hd
    cases hd

/-- The response merged from `as` contributes if any of them does, and the responses after it contribute
as they do after `as`. -/
theorem contributors_merged (as bs : List (HistoryResponse A)) :
    contributors ((mergeStateOf as).response :: bs) =
      (if candlesOf as = [] then [] else [(mergeStateOf as).response]) ++
        contributorsAfter (candlesOf as) bs := by
  generalize hm : (mergeStateOf as).response = m
  have hfirst : SameFirsts m.candles (candlesOf as) := hm ▸ sameFirsts_mergeStateOf as
  have hempty : m.candles = [] ↔ candlesOf as = [] := hm ▸ candles_mergeStateOf_eq_nil_iff
  have hone : ([] : List (Candle A)) ++ candlesOf [m] = m.candles := by simp [candlesOf]
  have happ : m :: bs = [m] ++ bs := rfl
  rw [happ, contributors, contributorsAfter_append, hone, contributorsAfter_congr hfirst.ts]
  congr 1
  have hsingle := contributors_singleton m
  simp only [hempty] at hsingle
  exact hsingle

theorem adjusted_merged (as bs : List (HistoryResponse A)) :
    (mergeStateOf ((mergeStateOf as).response :: bs)).response.adjusted =
      (mergeStateOf (as ++ bs)).response.adjusted := by
  have hadj := adjusted_mergeStateOf as
  rw [Bool.eq_iff_iff, adjusted_mergeStateOf, adjusted_mergeStateOf, contributors_merged,
    contributors_append]
  by_cases hno : candlesOf as = []
  · rw [if_pos hno, contributors_eq_nil_iff.2 hno]
  · have hne := mt contributors_eq_nil_iff.1 hno
    rw [if_neg hno]
    simp [hadj, hne, or_imp, forall_and]

theorem meta_merged (as bs : List (HistoryResponse A)) :
    (mergeStateOf ((mergeStateOf as).response :: bs)).response.meta =
      (mergeStateOf (as ++ bs)).response.meta := by
  have hcandles : candlesOf ((mergeStateOf as).response :: bs) =
      (mergeStateOf as).response.candles ++ candlesOf bs := rfl
  have hempty : (mergeStateOf as).response.candles = [] ↔ candlesOf as = [] :=
    candles_mergeStateOf_eq_nil_iff
  have hmeta := meta_mergeStateOf as
  rw [meta_mergeStateOf ((mergeStateOf as).response :: bs), meta_mergeStateOf (as ++ bs),
    contributors_merged, contributors_append, hcandles, candlesOf_append]
  by_cases hno : candlesOf as = []
  · -- nothing has contributed, and the meta is that of any response
    rw [if_pos hno] at hmeta
    have hany : ((mergeStateOf as).response :: bs).findSome? (·.meta) =
        (as ++ bs).findSome? (·.meta) := by
      rw [List.findSome?_append, List.findSome?_cons, hmeta]
      cases as.findSome? (·.meta) <;> rfl
    rw [if_pos hno, contributors_eq_nil_iff.2 hno, hempty.2 hno, hno, hany]
  · rw [if_neg hno] at hmeta
    rw [if_neg hno, if_neg (by simp [hempty, hno]), if_neg (by simp [hno]), List.findSome?_append,
      List.findSome?_append, List.findSome?_singleton, hmeta]

/-- A merged response stands for the responses it came from. -/
theorem mergeStateOf_merged (as bs : List (HistoryResponse A)) :
    (mergeStateOf ((mergeStateOf as).response :: bs)).response =
      (mergeStateOf (as ++ bs)).response := by
  have hadjusted := adjusted_merged as bs
  have hmeta := meta_merged as bs
  have hactions : (mergeStateOf ((mergeStateOf as).response :: bs)).response.actions =
      (mergeStateOf (as ++ bs)).response.actions := by
    have hleft : (mergeStateOf ((mergeStateOf as).response :: bs)).response.actions =
        dedupActions (dedupActions (as.flatMap (·.actions)) ++ bs.flatMap (·.actions)) := rfl
    have hright : (mergeStateOf (as ++ bs)).response.actions =
        dedupActions ((as ++ bs).flatMap (·.actions)) := rfl
    rw [hleft, hright, dedupActions_dedupActions_append, List.flatMap_append]
  have hcandles : (mergeStateOf ((mergeStateOf as).response :: bs)).response.candles =
      (mergeStateOf (as ++ bs)).response.candles := by
    have hsame := ((sameFirsts_mergeStateOf as).append (candlesOf bs)).stripUnadjusted_eq
    rw [← candlesOf_append] at hsame
    exact hsame
  generalize (mergeStateOf ((mergeStateOf as).response :: bs)).response = out at *
  generalize (mergeStateOf (as ++ bs)).response = out' at *
  cases out
  cases out'
  congr

/-- Merging in two steps is merging at once: whatever responses follow, a merged response can stand for
those it came from, and what could not be merged cannot be merged with more. In particular merging a
merged response again changes nothing. -/
theorem mergeHistory_incremental (as bs : List (HistoryResponse A)) :
    (∀ m, mergeHistory as = .ok m →
      mergeHistory (m :: bs) = mergeHistory (as ++ bs) ∧ mergeHistory [m] = .ok m) ∧
    ∀ e, mergeHistory as = .error e → ∃ e', mergeHistory (as ++ bs) = .error e' := by
  have hstep : ∀ m bs, mergeHistory as = .ok m →
      mergeHistory (m :: bs) = mergeHistory (as ++ bs) := by
    intro m bs h
    obtain ⟨-, rfl⟩ := mergeHistory_eq_ok h
    have hmerge : Mergeable (candlesOf ((mergeStateOf as).response :: bs)) ↔
        Mergeable (candlesOf (as ++ bs)) := by
      rw [candlesOf_append]
      exact ((sameFirsts_mergeStateOf as).append (candlesOf bs)).mergeable_iff
    rcases mergeHistory_eq ((mergeStateOf as).response :: bs) with ⟨hl, hleft⟩ | ⟨hl, hleft⟩ <;>
      rcases mergeHistory_eq (as ++ bs) with ⟨hr, hright⟩ | ⟨hr, hright⟩
    · rw [hleft, hright, mergeStateOf_merged]
    · exact absurd (hmerge.1 hl) hr
    · exact absurd (hmerge.2 hr) hl
    · rw [hleft, hright]
  refine ⟨fun m h => ⟨hstep m bs h, ?_⟩, fun e h => ?_⟩
  · rw [hstep m [] h, List.append_nil, h]
  · rcases mergeHistory_eq (as ++ bs) with ⟨hm, -⟩ | ⟨-, heq⟩
    · rcases mergeHistory_eq as with ⟨-, heq⟩ | ⟨hno, -⟩
      · rw [heq] at h
        cases h
      · rw [candlesOf_append] at hm
        exact absurd ((mergeable_append _ _).1 hm).1 hno
    · exact ⟨_, heq⟩

end

end

/-- Three histories, of which the first two have a candle of one minute with different prices. -/
def firstMinutes : HistoryResponse ℕ :=
  ⟨[dollarCandle 0 (by decide) 10, dollarCandle 60 (by decide) 11], [], true, none⟩

def nextMinutes : HistoryResponse ℕ :=
  ⟨[dollarCandle 120 (by decide) 13, dollarCandle 60 (by decide) 12], [], true, none⟩

def lastMinutes : HistoryResponse ℕ :=
  ⟨[dollarCandle 120 (by decide) 14, dollarCandle 180 (by decide) 15], [], false, none⟩

/-- The first two merged, and then the third. -/
theorem mergeHistory_incremental_minutes : ∃ m, mergeHistory [firstMinutes, nextMinutes] = .ok m ∧
    m.candles.map (·.close.amount) = [10, 11, 13] ∧
    mergeHistory [m, lastMinutes] = mergeHistory [firstMinutes, nextMinutes, lastMinutes] ∧
    mergeHistory [m] = .ok m := by
  have hm : mergeHistory [firstMinutes, nextMinutes] = .ok _ := rfl
  exact ⟨_, hm, rfl, (mergeHistory_incremental [firstMinutes, nextMinutes] [lastMinutes]).1 _ hm⟩

end Borsa
