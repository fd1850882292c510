import Borsa.Lib.OrdMap
import Borsa.Timeseries.Candle

/-!
# Merging histories

`merge_history` joins the answers of several providers, given in order of priority: for each
timestamp the first candle stays. Six accumulators go through one pass. `mergeHistory_spec` says what
comes out of it in terms of the input alone.

The hash under which `dedup_actions` remembers an action is a parameter: `DefaultHasher` is the
standard library's hasher applied to what `hash_action` writes into it.
-/

namespace Borsa

section
variable {A : Type}

/-! ## Actions -/

/-- What `hash_action` writes for an action. -/
inductive ActionHash (A : Type) where
  | dividend (secs : ℤ) (amount : A) (currency : String)
  | split (secs : ℤ) (numerator denominator : UInt32)
  | capitalGain (secs : ℤ) (gain : A) (currency : String)

/-- The 64-bit hash of what is written. -/
class DefaultHasher (A : Type) where
  finish : ActionHash A → UInt64

/-- For amounts that are natural numbers, a hash of the parts stands in. -/
instance : DefaultHasher ℕ where
  finish
    | .dividend secs amount currency => mixHash (hash secs) (mixHash (hash amount) (hash currency))
    | .split secs numerator denominator =>
      mixHash (hash secs) (mixHash (hash numerator) (hash denominator))
    | .capitalGain secs gain currency => mixHash (hash secs) (mixHash (hash currency) (hash gain))

/-- `hash_action`. -/
def hashAction : MarketAction A → ActionHash A
  | .dividend ts amount => .dividend ts.timestamp amount.amount amount.currency.debug
  | .split ts numerator denominator => .split ts.timestamp numerator denominator
  | .capitalGain ts gain => .capitalGain ts.timestamp gain.amount gain.currency.debug

/-- The instant of an action, and the rank of its variant. -/
def MarketAction.tsKind : MarketAction A → DateTime × ℕ
  | .dividend ts _ => (ts, 0)
  | .split ts .. => (ts, 1)
  | .capitalGain ts _ => (ts, 2)

variable [LinearOrder A]

/-- The order of two amounts of money of one kind of action. -/
def compareMoney (a b : Money A) : Ordering :=
  (compare a.amount b.amount).then (compare a.currency.debug b.currency.debug)

/-- `compare_actions`. -/
def compareActions (a b : MarketAction A) : Ordering :=
  let (ats, ak) := a.tsKind
  let (bts, bk) := b.tsKind
  (compare ats bts).then ((compare ak bk).then
    (match a, b with
    | .dividend _ aAmt, .dividend _ bAmt => compareMoney aAmt bAmt
    | .capitalGain _ aGain, .capitalGain _ bGain => compareMoney aGain bGain
    | .split _ an ad, .split _ bn bd => (compare an bn).then (compare ad bd)
    | _, _ => .eq))

variable [DefaultHasher A]

/-- `dedup_actions`: the sorted actions, of those with one hash the first. -/
def dedupActions (actions : List (MarketAction A)) : List (MarketAction A) :=
  let actions := actions.insertionSort fun a b => compareActions a b ≠ .gt
  (actions.foldl (fun (seen, out) a =>
    let h := DefaultHasher.finish (hashAction a)
    if h ∈ seen then (seen, out) else (h :: seen, out ++ [a]))
    (([], []) : List UInt64 × List (MarketAction A))).2

/-! ## The pass over the responses -/

/-- The message of a series in several currencies. -/
def mixedCurrencyHistory : BorsaError := .data "Connector provided mixed-currency history"

/-- What the loop over one response's candles changes. -/
structure CandleLoop (A : Type) where
  candleMap : OrdMap DateTime (Candle A)
  seriesCurrency : Option Currency
  contributed : Bool

/-- The body of the loop over one response's candles. -/
def mergeCandle (st : CandleLoop A) (c : Candle A) : Except BorsaError (CandleLoop A) :=
  if st.candleMap.contains c.ts then .ok st
  else
    match ensureCandleCurrencyUniform c with
    | .error _ => .error mixedCurrencyHistory
    | .ok () =>
      let candleMap := st.candleMap.orInsert c.ts c
      match st.seriesCurrency with
      | some cur =>
        if cur ≠ c.open.currency then .error mixedCurrencyHistory
        else .ok ⟨candleMap, some cur, true⟩
      | none => .ok ⟨candleMap, some c.open.currency, true⟩

/-- The accumulators of `merge_history`. -/
structure MergeState (A : Type) where
  adjustedAll : Option Bool
  firstContribAdjusted : Option Bool
  «meta» : Option HistoryMeta
  fallbackMeta : Option HistoryMeta
  candleMap : OrdMap DateTime (Candle A)
  actions : List (MarketAction A)
  seriesCurrency : Option Currency

/-- The accumulators before the first response. -/
def MergeState.init : MergeState A := ⟨none, none, none, none, .empty, [], none⟩

/-- The body of the loop over the responses. -/
def mergeResponse (st : MergeState A) (r : HistoryResponse A) :
    Except BorsaError (MergeState A) := do
  let loop ← r.candles.foldlM mergeCandle ⟨st.candleMap, st.seriesCurrency, false⟩
  return {
    adjustedAll :=
      if loop.contributed then some (st.adjustedAll.getD true && r.adjusted) else st.adjustedAll
    firstContribAdjusted :=
      if loop.contributed then st.firstContribAdjusted.or (some r.adjusted)
      else st.firstContribAdjusted
    «meta» := if loop.contributed then st.meta.or r.meta else st.meta
    fallbackMeta := st.fallbackMeta.or r.meta
    candleMap := loop.candleMap
    actions := st.actions ++ r.actions
    seriesCurrency := loop.seriesCurrency }

/-- What `merge_history` makes of its accumulators. -/
def MergeState.response (st : MergeState A) : HistoryResponse A where
  candles := stripUnadjusted st.candleMap.values
  actions := dedupActions st.actions
  adjusted :=
    match st.firstContribAdjusted, st.adjustedAll with
    | some first, some all => first && all
    | _, _ => false
  «meta» := if st.meta.isNone && st.candleMap.entries.isEmpty then st.fallbackMeta else st.meta

/-- `merge_history`. -/
def mergeHistory (responses : List (HistoryResponse A)) :
    Except BorsaError (HistoryResponse A) := do
  let st ← responses.foldlM mergeResponse MergeState.init
  return st.response

end

section
variable {A : Type}

/-! ## First appearances -/

/-- The candle is the first of its timestamp. -/
def FirstOf (cs : List (Candle A)) (c : Candle A) : Prop := cs.find? (fun d => d.ts = c.ts) = some c

/-- The map that holds the first candle of each timestamp. -/
def candleMapOf (cs : List (Candle A)) : OrdMap DateTime (Candle A) :=
  .ofList (cs.map fun c => (c.ts, c))

/-- The first candles are each in one currency, and all in the same. -/
def Mergeable (cs : List (Candle A)) : Prop :=
  (∀ c, FirstOf cs c → c.Uniform) ∧
    ∀ c d, FirstOf cs c → FirstOf cs d → c.open.currency = d.open.currency

theorem FirstOf.mem {cs : List (Candle A)} {c : Candle A} (h : FirstOf cs c) : c ∈ cs :=
  List.mem_of_find?_eq_some h

theorem candleMapOf_concat (cs : List (Candle A)) (c : Candle A) :
    candleMapOf (cs ++ [c]) = (candleMapOf cs).orInsert c.ts c := by
  rw [candleMapOf, List.map_append]
  exact OrdMap.ofList_concat _ _

theorem contains_candleMapOf {cs : List (Candle A)} {t : DateTime} :
    (candleMapOf cs).contains t ↔ ∃ c ∈ cs, c.ts = t := by
  rw [candleMapOf, OrdMap.contains_ofList]
  simp

/-- The entries of the map are the first candles, each under its timestamp. -/
theorem mem_candleMapOf {cs : List (Candle A)} {x : DateTime × Candle A} :
    x ∈ (candleMapOf cs).entries ↔ x.2.ts = x.1 ∧ FirstOf cs x.2 := by
  obtain ⟨t, c⟩ := x
  rw [candleMapOf, OrdMap.mem_ofList, List.find?_map, Option.map_eq_some_iff]
  constructor
  · rintro ⟨d, hd, heq⟩
    obtain ⟨rfl, rfl⟩ := Prod.mk.inj heq
    exact ⟨rfl, hd⟩
  · intro ⟨hts, h⟩
    obtain rfl : c.ts = t := hts
    exact ⟨c, h, rfl⟩

theorem mem_values_candleMapOf {cs : List (Candle A)} {c : Candle A} :
    c ∈ (candleMapOf cs).values ↔ FirstOf cs c := by
  simp only [OrdMap.values, List.mem_map, Prod.exists, exists_eq_right]
  constructor
  · rintro ⟨t, h⟩
    exact (mem_candleMapOf.1 h).2
  · intro h
    exact ⟨c.ts, mem_candleMapOf.2 ⟨rfl, h⟩⟩

theorem ascending_values_candleMapOf (cs : List (Candle A)) :
    Ascending (candleMapOf cs).values := by
  refine List.pairwise_map.2 ((candleMapOf cs).sorted.imp_of_mem fun {x y} hx hy h => ?_)
  rw [(mem_candleMapOf.1 hx).1, (mem_candleMapOf.1 hy).1]
  exact h

/-- A candle is added as the first of its timestamp, or not at all. -/
theorem firstOf_concat {cs : List (Candle A)} {c d : Candle A} :
    FirstOf (cs ++ [c]) d ↔ FirstOf cs d ∨ d = c ∧ ∀ e ∈ cs, e.ts ≠ c.ts := by
  have hmem : (d.ts, d) ∈ (candleMapOf (cs ++ [c])).entries ↔ _ := mem_candleMapOf
  have hkeys : (∀ y ∈ (candleMapOf cs).entries, y.1 ≠ c.ts) ↔ ∀ e ∈ cs, e.ts ≠ c.ts := by
    have := not_congr ((OrdMap.contains_iff (m := candleMapOf cs)).symm.trans
      (contains_candleMapOf (t := c.ts)))
    simpa only [not_exists, not_and] using this
  rw [candleMapOf_concat, OrdMap.mem_orInsert, mem_candleMapOf, hkeys] at hmem
  simp only [true_and, Prod.mk.injEq] at hmem
  rw [← hmem]
  refine or_congr_right (and_congr_left fun _ => ⟨fun h => h.2, fun h => ?_⟩)
  exact ⟨by rw [h], h⟩

theorem exists_firstOf {cs : List (Candle A)} {c : Candle A} (h : c ∈ cs) :
    ∃ d, FirstOf cs d ∧ d.ts = c.ts := by
  have hsome : (cs.find? fun d => d.ts = c.ts).isSome :=
    List.find?_isSome.2 ⟨c, h, by simp⟩
  obtain ⟨d, hd⟩ := Option.isSome_iff_exists.1 hsome
  have hts : d.ts = c.ts := by simpa using List.find?_some hd
  refine ⟨d, ?_, hts⟩
  rw [FirstOf, hts]
  exact hd

/-! ## The loop over candles -/

/-- The candle does not stop the merge after the candles `seen`. -/
def Accepts (seen : List (Candle A)) (c : Candle A) : Prop :=
  (∃ d ∈ seen, d.ts = c.ts) ∨
    c.Uniform ∧ ∀ d ∈ seen.head?, d.open.currency = c.open.currency

/-- None of the candles stops the merge. -/
def AcceptsAll (seen : List (Candle A)) : List (Candle A) → Prop
  | [] => True
  | c :: cs => Accepts seen c ∧ AcceptsAll (seen ++ [c]) cs

theorem acceptsAll_append (seen cs ds : List (Candle A)) :
    AcceptsAll seen (cs ++ ds) ↔ AcceptsAll seen cs ∧ AcceptsAll (seen ++ cs) ds := by
  induction cs generalizing seen with
  | nil => simp [AcceptsAll]
  | cons c cs ih => simp [AcceptsAll, ih, and_assoc]

theorem mergeable_concat (seen : List (Candle A)) (c : Candle A) :
    Mergeable (seen ++ [c]) ↔ Mergeable seen ∧ Accepts seen c := by
  simp only [Mergeable, Accepts, firstOf_concat]
  by_cases hin : ∃ d ∈ seen, d.ts = c.ts
  · have hnot : ¬ ∀ e ∈ seen, e.ts ≠ c.ts := by simpa using hin
    simp [hin, hnot]
  · have hnew : ∀ e ∈ seen, e.ts ≠ c.ts := by simpa using hin
    simp only [hin, false_or]
    constructor
    · rintro ⟨huni, hcur⟩
      refine ⟨⟨fun d hd => huni d (.inl hd), fun d e hd he => hcur d e (.inl hd) (.inl he)⟩,
        huni c (.inr ⟨rfl, hnew⟩), fun d hd => ?_⟩
      have hfirst : FirstOf seen d := by
        cases seen with
        | nil => simp at hd
        | cons e rest =>
          obtain rfl : e = d := by simpa using hd
          simp [FirstOf]
      exact hcur d c (.inl hfirst) (.inr ⟨rfl, hnew⟩)
    · rintro ⟨⟨huni, hcur⟩, hc, hhead⟩
      -- the series currency is that of the very first candle
      have hsame : ∀ d, FirstOf seen d → d.open.currency = c.open.currency := by
        intro d hd
        cases seen with
        | nil => simp [FirstOf] at hd
        | cons e rest =>
          rw [hcur d e hd (by simp [FirstOf])]
          exact hhead e rfl
      refine ⟨?_, ?_⟩
      · rintro d (hd | ⟨rfl, -⟩)
        · exact huni d hd
        · exact hc
      · rintro d e (hd | ⟨rfl, -⟩) (he | ⟨rfl, -⟩)
        · exact hcur d e hd he
        · exact hsame d hd
        · exact (hsame e he).symm
        · rfl

/-- Nothing stops the merge exactly when the first candles are in one currency. -/
theorem mergeable_append (seen cs : List (Candle A)) :
    Mergeable (seen ++ cs) ↔ Mergeable seen ∧ AcceptsAll seen cs := by
  induction cs generalizing seen with
  | nil => simp [AcceptsAll]
  | cons c cs ih =>
    rw [List.append_cons, ih, mergeable_concat, AcceptsAll, and_assoc]

theorem mergeable_iff_acceptsAll (cs : List (Candle A)) : Mergeable cs ↔ AcceptsAll [] cs := by
  have hnil : Mergeable ([] : List (Candle A)) := by simp [Mergeable, FirstOf]
  simpa [hnil] using mergeable_append [] cs

/-- The state of the candle loop after the candles `seen`. -/
def candleLoopOf (seen : List (Candle A)) (contributed : Bool) : CandleLoop A :=
  ⟨candleMapOf seen, seen.head?.map (·.open.currency), contributed⟩

/-- The candle has a timestamp that is not among `seen`. -/
def New (seen : List (Candle A)) (c : Candle A) : Bool := seen.all fun d => d.ts ≠ c.ts

/-- One candle is accepted, or the merge fails. -/
theorem mergeCandle_candleLoopOf (seen : List (Candle A)) (b : Bool) (c : Candle A) :
    (Accepts seen c ∧
      mergeCandle (candleLoopOf seen b) c = .ok (candleLoopOf (seen ++ [c]) (b || New seen c))) ∨
    (¬ Accepts seen c ∧ mergeCandle (candleLoopOf seen b) c = .error mixedCurrencyHistory) := by
  have hcontains : (candleMapOf seen).contains c.ts ↔ _ := contains_candleMapOf
  by_cases hin : ∃ d ∈ seen, d.ts = c.ts
  · have hnew : New seen c = false := by simpa [New] using hin
    obtain ⟨d, hd, hts⟩ := hin
    have hhead : (seen ++ [c]).head? = seen.head? := by
      cases seen with
      | nil => simp at hd
      | cons => rfl
    have hpos : (candleMapOf seen).contains c.ts := hcontains.2 ⟨d, hd, hts⟩
    refine .inl ⟨.inl ⟨d, hd, hts⟩, ?_⟩
    rw [mergeCandle, if_pos (show (candleLoopOf seen b).candleMap.contains c.ts from hpos),
      candleLoopOf, candleLoopOf, hnew, hhead, candleMapOf_concat,
      OrdMap.orInsert_of_contains c hpos, Bool.or_false]
  · have hnew : New seen c = true := by simpa [New] using hin
    have hne : ¬ (candleLoopOf seen b).candleMap.contains c.ts := fun h => hin (hcontains.1 h)
    rw [mergeCandle, if_neg hne, candleLoopOf, hnew, Bool.or_true]
    simp only [Accepts, hin, false_or]
    cases hres : ensureCandleCurrencyUniform c with
    | error e =>
      refine .inr ⟨fun h => ?_, rfl⟩
      rw [ensureCandleCurrencyUniform_eq_ok.2 h.1] at hres
      cases hres
    | ok _ =>
      have huni := ensureCandleCurrencyUniform_eq_ok.1 hres
      cases seen with
      | nil => exact .inl ⟨⟨huni, by simp⟩, rfl⟩
      | cons d rest =>
        by_cases hcur : d.open.currency = c.open.currency
        · refine .inl ⟨⟨huni, by simpa using hcur⟩, ?_⟩
          rw [candleLoopOf, candleMapOf_concat]
          simp [hcur]
        · refine .inr ⟨fun h => hcur (h.2 d rfl), ?_⟩
          simp [hcur]

/-- The loop over candles accepts them all, or the merge fails. -/
theorem foldlM_mergeCandle (seen : List (Candle A)) (b : Bool) (cs : List (Candle A)) :
    (AcceptsAll seen cs ∧ cs.foldlM mergeCandle (candleLoopOf seen b) =
      .ok (candleLoopOf (seen ++ cs) (b || cs.any (New seen)))) ∨
    (¬ AcceptsAll seen cs ∧
      cs.foldlM mergeCandle (candleLoopOf seen b) = .error mixedCurrencyHistory) := by
  induction cs generalizing seen b with
  | nil => exact .inl ⟨trivial, by simp [pure, Except.pure]⟩
  | cons c cs ih =>
    rw [List.foldlM_cons, AcceptsAll]
    rcases mergeCandle_candleLoopOf seen b c with ⟨hc, heq⟩ | ⟨hc, heq⟩
    · -- what `c` makes old is new through `c` itself
      have hnew : (New seen c || cs.any (New (seen ++ [c]))) = (c :: cs).any (New seen) := by
        rw [List.any_cons]
        cases hcn : New seen c with
        | true => rfl
        | false =>
          obtain ⟨d, hd, hts⟩ : ∃ d ∈ seen, d.ts = c.ts := by simpa [New] using hcn
          rw [Bool.false_or, Bool.false_or]
          congr 1
          funext e
          rw [New, New, List.all_append, Bool.and_eq_left_iff_imp.2]
          intro h
          have := List.all_eq_true.1 h d hd
          simpa [hts] using this
      rw [heq]
      rcases ih (seen ++ [c]) (b || New seen c) with ⟨hcs, heq'⟩ | ⟨hcs, heq'⟩
      · exact .inl ⟨⟨hc, hcs⟩, by
          rw [List.append_cons seen c cs, ← hnew, ← Bool.or_assoc]; exact heq'⟩
      · exact .inr ⟨fun h => hcs h.2, heq'⟩
    · exact .inr ⟨fun h => hc h.1, by rw [heq]; rfl⟩

/-! ## The loop over responses -/

/-- The candles of the responses, in the order of the pass. -/
def candlesOf (rs : List (HistoryResponse A)) : List (Candle A) := rs.flatMap (·.candles)

/-- The responses that have a candle at a new timestamp, where those of `seen` are old. -/
def contributorsAfter (seen : List (Candle A)) :
    List (HistoryResponse A) → List (HistoryResponse A)
  | [] => []
  | r :: rest =>
    if r.candles.any (New seen) then r :: contributorsAfter (seen ++ r.candles) rest
    else contributorsAfter (seen ++ r.candles) rest

/-- The responses that contribute a candle: one at a timestamp no response before has. -/
def contributors (rs : List (HistoryResponse A)) : List (HistoryResponse A) :=
  contributorsAfter [] rs

theorem contributorsAfter_concat (seen : List (Candle A)) (rs : List (HistoryResponse A))
    (r : HistoryResponse A) : contributorsAfter seen (rs ++ [r]) =
      contributorsAfter seen rs ++
        if r.candles.any (New (seen ++ candlesOf rs)) then [r] else [] := by
  induction rs generalizing seen with
  | nil => simp [contributorsAfter, candlesOf]
  | cons r' rs ih =>
    rw [List.cons_append, contributorsAfter, contributorsAfter, ih, candlesOf, candlesOf,
      List.flatMap_cons, List.append_assoc]
    split <;> rfl

theorem contributors_concat (rs : List (HistoryResponse A)) (r : HistoryResponse A) :
    contributors (rs ++ [r]) =
      contributors rs ++ if r.candles.any (New (candlesOf rs)) then [r] else [] := by
  rw [contributors, contributors, contributorsAfter_concat, List.nil_append]

/-- The accumulators after the responses `done`. -/
def mergeStateOf (done : List (HistoryResponse A)) : MergeState A where
  adjustedAll :=
    if contributors done = [] then none else some ((contributors done).all (·.adjusted))
  firstContribAdjusted := (contributors done).head?.map (·.adjusted)
  «meta» := (contributors done).findSome? (·.meta)
  fallbackMeta := done.findSome? (·.meta)
  candleMap := candleMapOf (candlesOf done)
  actions := done.flatMap (·.actions)
  seriesCurrency := (candlesOf done).head?.map (·.open.currency)

theorem candlesOf_concat (rs : List (HistoryResponse A)) (r : HistoryResponse A) :
    candlesOf (rs ++ [r]) = candlesOf rs ++ r.candles := by
  simp [candlesOf]

/-- One response is merged, or the merge fails. -/
theorem mergeResponse_mergeStateOf (done : List (HistoryResponse A)) (r : HistoryResponse A) :
    (AcceptsAll (candlesOf done) r.candles ∧
      mergeResponse (mergeStateOf done) r = .ok (mergeStateOf (done ++ [r]))) ∨
    (¬ AcceptsAll (candlesOf done) r.candles ∧
      mergeResponse (mergeStateOf done) r = .error mixedCurrencyHistory) := by
  rcases foldlM_mergeCandle (candlesOf done) false r.candles with ⟨hacc, heq⟩ | ⟨hacc, heq⟩
  · refine .inl ⟨hacc, ?_⟩
    have hloop : r.candles.foldlM mergeCandle
        ⟨(mergeStateOf done).candleMap, (mergeStateOf done).seriesCurrency, false⟩ = .ok _ := heq
    rw [mergeResponse, hloop]
    simp only [mergeStateOf, contributors_concat, candlesOf_concat, candleLoopOf, Bool.false_or]
    have hfall : (done ++ [r]).findSome? (·.meta) = (done.findSome? (·.meta)).or r.meta := by
      simp [List.findSome?_append]
    cases r.candles.any (New (candlesOf done)) with
    | false => simp [hfall, pure, Except.pure, bind, Except.bind]
    | true =>
      have hmeta : (contributors done ++ [r]).findSome? (·.meta) =
          ((contributors done).findSome? (·.meta)).or r.meta := by
        simp [List.findSome?_append]
      simp only [if_true, hmeta, hfall]
      cases contributors done <;> simp [pure, Except.pure, bind, Except.bind, Bool.and_assoc]
  · refine .inr ⟨hacc, ?_⟩
    have hloop : r.candles.foldlM mergeCandle
        ⟨(mergeStateOf done).candleMap, (mergeStateOf done).seriesCurrency, false⟩ =
          .error mixedCurrencyHistory := heq
    rw [mergeResponse, hloop]
    rfl

/-- The loop over responses merges them all, or the merge fails. -/
theorem foldlM_mergeResponse (done rs : List (HistoryResponse A)) :
    (AcceptsAll (candlesOf done) (candlesOf rs) ∧
      rs.foldlM mergeResponse (mergeStateOf done) = .ok (mergeStateOf (done ++ rs))) ∨
    (¬ AcceptsAll (candlesOf done) (candlesOf rs) ∧
      rs.foldlM mergeResponse (mergeStateOf done) = .error mixedCurrencyHistory) := by
  induction rs generalizing done with
  | nil => exact .inl ⟨trivial, by simp [pure, Except.pure]⟩
  | cons r rs ih =>
    have hcandles : candlesOf (r :: rs) = r.candles ++ candlesOf rs := rfl
    rw [List.foldlM_cons, hcandles, acceptsAll_append, ← candlesOf_concat]
    rcases mergeResponse_mergeStateOf done r with ⟨hr, heq⟩ | ⟨hr, heq⟩
    · rw [heq, List.append_cons done r rs]
      rcases ih (done ++ [r]) with ⟨hrs, heq'⟩ | ⟨hrs, heq'⟩
      · exact .inl ⟨⟨hr, hrs⟩, heq'⟩
      · exact .inr ⟨fun h => hrs h.2, heq'⟩
    · exact .inr ⟨fun h => hr h.1, by rw [heq]; rfl⟩

section
variable [LinearOrder A] [DefaultHasher A]

/-- `merge_history` in closed form: it fails exactly when the first candles are not all in one
currency. -/
theorem mergeHistory_eq (rs : List (HistoryResponse A)) :
    (Mergeable (candlesOf rs) ∧ mergeHistory rs = .ok (mergeStateOf rs).response) ∨
    (¬ Mergeable (candlesOf rs) ∧ mergeHistory rs = .error mixedCurrencyHistory) := by
  have hinit : (MergeState.init : MergeState A) = mergeStateOf [] := rfl
  rw [mergeable_iff_acceptsAll, mergeHistory, hinit]
  rcases foldlM_mergeResponse [] rs with ⟨hacc, heq⟩ | ⟨hacc, heq⟩
  · exact .inl ⟨hacc, by rw [heq]; rfl⟩
  · exact .inr ⟨hacc, by rw [heq]; rfl⟩

theorem mergeHistory_eq_ok {rs : List (HistoryResponse A)} {out : HistoryResponse A}
    (h : mergeHistory rs = .ok out) :
    Mergeable (candlesOf rs) ∧ out = (mergeStateOf rs).response := by
  rcases mergeHistory_eq rs with ⟨hm, heq⟩ | ⟨hm, heq⟩
  · exact ⟨hm, by rw [heq] at h; exact (Except.ok.inj h).symm⟩
  · rw [heq] at h
    cases h

/-- The merged candles are the first ones, cleared of their unadjusted close. -/
theorem mem_candles_mergeStateOf {rs : List (HistoryResponse A)} {c : Candle A} :
    c ∈ (mergeStateOf rs).response.candles ↔
      ∃ d, FirstOf (candlesOf rs) d ∧ c = { d with closeUnadj := none } := by
  have hcandles : (mergeStateOf rs).response.candles =
      stripUnadjusted (candleMapOf (candlesOf rs)).values := rfl
  rw [hcandles, stripUnadjusted, List.mem_map]
  simp only [mem_values_candleMapOf, eq_comm]

/-- The merged candles have the timestamps of the input. -/
theorem ts_mergeStateOf (rs : List (HistoryResponse A)) (t : DateTime) :
    (∃ c ∈ (mergeStateOf rs).response.candles, c.ts = t) ↔ ∃ d ∈ candlesOf rs, d.ts = t := by
  simp only [mem_candles_mergeStateOf]
  constructor
  · rintro ⟨_, ⟨d, hd, rfl⟩, rfl⟩
    exact ⟨d, hd.mem, rfl⟩
  · rintro ⟨d, hd, rfl⟩
    obtain ⟨e, he, hts⟩ := exists_firstOf hd
    exact ⟨_, ⟨e, he, rfl⟩, hts⟩

theorem ascending_mergeStateOf (rs : List (HistoryResponse A)) :
    Ascending (mergeStateOf rs).response.candles :=
  List.pairwise_map.2 (ascending_values_candleMapOf (candlesOf rs))

theorem adjusted_mergeStateOf (rs : List (HistoryResponse A)) :
    (mergeStateOf rs).response.adjusted = true ↔
      contributors rs ≠ [] ∧ ∀ r ∈ contributors rs, r.adjusted = true := by
  simp only [MergeState.response, mergeStateOf]
  cases contributors rs with
  | nil => simp
  | cons r rest => simp

theorem meta_mergeStateOf (rs : List (HistoryResponse A)) :
    (mergeStateOf rs).response.meta =
      if candlesOf rs = [] then rs.findSome? (·.meta)
      else (contributors rs).findSome? (·.meta) := by
  have hentries : (candleMapOf (candlesOf rs)).entries.isEmpty = decide (candlesOf rs = []) := by
    cases hcs : candlesOf rs with
    | nil => rfl
    | cons c cs =>
      have hmem : (c.ts, c) ∈ (candleMapOf (c :: cs)).entries :=
        mem_candleMapOf.2 ⟨rfl, by simp [FirstOf]⟩
      cases hl : (candleMapOf (c :: cs)).entries with
      | nil => simp [hl] at hmem
      | cons => rfl
  simp only [MergeState.response, mergeStateOf, hentries]
  by_cases hcs : candlesOf rs = []
  · -- without a candle nothing contributes
    have hcon : contributors rs = [] := by
      rw [contributors]
      generalize [] = seen
      clear hentries
      induction rs generalizing seen with
      | nil => rfl
      | cons r rs ih =>
        obtain ⟨hr, hrs⟩ := List.append_eq_nil_iff.1 hcs
        have hr' : r.candles = [] := hr
        rw [contributorsAfter, hr']
        exact ih hrs _
    simp [hcs, hcon]
  · simp [hcs]

/-- What `merge_history` does. It succeeds exactly when the first candles of all timestamps are in one
currency. The merged candles are then ascending, one for each timestamp, the first of that timestamp
without its unadjusted close. The history is adjusted when some response contributes and all that do
are adjusted, and its meta is the first among those that contribute, or of any response when there
are no candles. -/
theorem mergeHistory_spec (rs : List (HistoryResponse A)) :
    ((∃ out, mergeHistory rs = .ok out) ↔ Mergeable (candlesOf rs)) ∧
    ∀ out, mergeHistory rs = .ok out →
      Ascending out.candles ∧
      (∀ t, (∃ c ∈ out.candles, c.ts = t) ↔ ∃ d ∈ candlesOf rs, d.ts = t) ∧
      (∀ c, c ∈ out.candles ↔
        ∃ d, FirstOf (candlesOf rs) d ∧ c = { d with closeUnadj := none }) ∧
      (out.adjusted = true ↔
        contributors rs ≠ [] ∧ ∀ r ∈ contributors rs, r.adjusted = true) ∧
      out.meta =
        if candlesOf rs = [] then rs.findSome? (·.meta)
        else (contributors rs).findSome? (·.meta) := by
  constructor
  · constructor
    · intro ⟨out, h⟩
      exact (mergeHistory_eq_ok h).1
    · intro hm
      rcases mergeHistory_eq rs with ⟨-, heq⟩ | ⟨hnot, -⟩
      · exact ⟨_, heq⟩
      · exact absurd hm hnot
  · intro out h
    obtain ⟨-, rfl⟩ := mergeHistory_eq_ok h
    exact ⟨ascending_mergeStateOf rs, ts_mergeStateOf rs, fun c => mem_candles_mergeStateOf,
      adjusted_mergeStateOf rs, meta_mergeStateOf rs⟩

end

end

end Borsa
