import Borsa.Timeseries.Merge
import Borsa.Timeseries.Resample

/-!
# Merging candles alone

`merge_candles_by_priority` joins series of candles as `merge_history` joins histories, but it checks
the currencies of every candle, also of one that an earlier candle of its timestamp replaces. So the two
differ where only such a candle is in another currency (`merges_agree`).
-/

namespace Borsa

open Fallible

section
variable {A : Type} [ToString DateTime]

/-- The body of the loop over the candles of one series: the map and the series currency. -/
def priorityCandle (st : OrdMap DateTime (Candle A) × Option Currency) (c : Candle A) :
    Except BorsaError (OrdMap DateTime (Candle A) × Option Currency) :=
  match ensureCandleCurrencyUniform c with
  | .error _ => .error (.data ("Mixed currencies within candle at " ++ toString c.ts ++ ": " ++
      showCurrencies c.open c.high c.low c.close))
  | .ok () =>
    let map := st.1.orInsert c.ts { c with closeUnadj := none }
    match st.2 with
    | some cur =>
      if cur ≠ c.open.currency then
        .error (.data ("Mixed currencies across merged series at " ++ toString c.ts ++
          ": expected " ++ cur.debug ++ ", got " ++ c.open.currency.debug))
      else .ok (map, some cur)
    | none => .ok (map, if st.1.entries.isEmpty then some c.open.currency else none)

/-- `merge_candles_by_priority`. -/
def mergeCandlesByPriority (series : List (List (Candle A))) :
    Except BorsaError (List (Candle A)) := do
  let st ← series.foldlM (fun st s => s.foldlM priorityCandle st) (.empty, none)
  return st.1.values

/-! ## The loop -/

/-- The state of the loop after the candles `seen`. -/
def priorityStateOf (seen : List (Candle A)) : OrdMap DateTime (Candle A) × Option Currency :=
  (candleMapOf (stripUnadjusted seen), seen.head?.map (·.open.currency))

omit [ToString DateTime] in
/-- One more candle in the currency of those before. -/
theorem singleCurrency_concat {seen : List (Candle A)} (h : SingleCurrency seen) (c : Candle A) :
    SingleCurrency (seen ++ [c]) ↔
      c.Uniform ∧ ∀ d, seen.head? = some d → d.open.currency = c.open.currency := by
  constructor
  · rintro ⟨cur, hall⟩
    obtain ⟨hseen, hc⟩ := List.forall_mem_append.1 hall
    have hc := hc c (List.mem_singleton_self c)
    exact ⟨hc.uniform, fun d hd => ((hseen d (List.mem_of_head? hd)).1).trans hc.1.symm⟩
  · rintro ⟨huni, hhead⟩
    refine ⟨c.open.currency, List.forall_mem_append.2 ⟨fun d hd => ?_, ?_⟩⟩
    · obtain ⟨cur, hall⟩ := h
      cases seen with
      | nil => cases hd
      | cons e rest =>
        have he : e.open.currency = cur := (hall e List.mem_cons_self).1
        rw [← hhead e rfl, he]
        exact hall d hd
    · exact List.forall_mem_singleton.2 huni

/-- One candle is accepted, or the merge fails. -/
theorem priorityCandle_priorityStateOf {seen : List (Candle A)} (h : SingleCurrency seen)
    (c : Candle A) :
    (SingleCurrency (seen ++ [c]) ∧
      priorityCandle (priorityStateOf seen) c = .ok (priorityStateOf (seen ++ [c]))) ∨
    (¬ SingleCurrency (seen ++ [c]) ∧
      ∃ msg, priorityCandle (priorityStateOf seen) c = .error (.data msg)) := by
  rw [singleCurrency_concat h, priorityCandle]
  have hmap : (priorityStateOf (seen ++ [c])).1 =
      (priorityStateOf seen).1.orInsert c.ts { c with closeUnadj := none } := by
    rw [priorityStateOf, stripUnadjusted, List.map_append]
    exact candleMapOf_concat _ _
  cases hres : ensureCandleCurrencyUniform c with
  | error e =>
    refine .inr ⟨fun hacc => ?_, _, rfl⟩
    rw [ensureCandleCurrencyUniform_eq_ok.2 hacc.1] at hres
    cases hres
  | ok _ =>
    have huni := ensureCandleCurrencyUniform_eq_ok.1 hres
    cases seen with
    | nil => exact .inl ⟨⟨huni, by rintro _ ⟨⟩⟩, rfl⟩
    | cons d rest =>
      have hcurrency : (priorityStateOf (d :: rest)).2 = some d.open.currency := rfl
      simp only [hcurrency]
      by_cases hcur : d.open.currency = c.open.currency
      · refine .inl ⟨⟨huni, by rintro _ ⟨⟩; exact hcur⟩, ?_⟩
        rw [if_neg (not_not.2 hcur), ← hmap]
        rfl
      · exact .inr ⟨fun hacc => hcur (hacc.2 d rfl), _, if_pos hcur⟩

/-- The loop accepts all candles, or the merge fails. -/
theorem foldlM_priorityCandle {seen : List (Candle A)} (h : SingleCurrency seen)
    (cs : List (Candle A)) :
    (SingleCurrency (seen ++ cs) ∧
      cs.foldlM priorityCandle (priorityStateOf seen) = .ok (priorityStateOf (seen ++ cs))) ∨
    (¬ SingleCurrency (seen ++ cs) ∧
      ∃ msg, cs.foldlM priorityCandle (priorityStateOf seen) = .error (.data msg)) := by
  induction cs generalizing seen with
  | nil => exact .inl ⟨by rwa [List.append_nil], by rw [List.append_nil]; rfl⟩
  | cons c cs ih =>
    rw [List.append_cons, List.foldlM_cons]
    rcases priorityCandle_priorityStateOf h c with ⟨hc, heq⟩ | ⟨hc, msg, heq⟩ <;> rw [heq]
    · exact ih hc
    · exact .inr ⟨fun ⟨cur, hall⟩ => hc ⟨cur, (List.forall_mem_append.1 hall).1⟩, msg, rfl⟩

/-- The loops over the series and over their candles are one loop over all candles. -/
theorem foldlM_flatten (series : List (List (Candle A)))
    (st : OrdMap DateTime (Candle A) × Option Currency) :
    series.foldlM (fun st s => s.foldlM priorityCandle st) st =
      series.flatten.foldlM priorityCandle st := by
  induction series generalizing st with
  | nil => rfl
  | cons s series ih =>
    rw [List.foldlM_cons, List.flatten_cons, List.foldlM_append]
    exact congrArg _ (funext ih)

/-- `merge_candles_by_priority` in closed form: it fails exactly when the candles are not all in one
currency. -/
theorem mergeCandlesByPriority_eq (series : List (List (Candle A))) :
    (SingleCurrency series.flatten ∧ mergeCandlesByPriority series =
      .ok (stripUnadjusted (candleMapOf series.flatten).values)) ∨
    (¬ SingleCurrency series.flatten ∧
      ∃ msg, mergeCandlesByPriority series = .error (.data msg)) := by
  have hnil : SingleCurrency ([] : List (Candle A)) := ⟨⟨""⟩, List.forall_mem_nil _⟩
  have hinit : ((.empty, none) : OrdMap DateTime (Candle A) × Option Currency) =
      priorityStateOf [] := rfl
  rw [mergeCandlesByPriority, foldlM_flatten, hinit]
  rcases foldlM_priorityCandle hnil series.flatten with ⟨hsingle, heq⟩ | ⟨hsingle, msg, heq⟩ <;>
    rw [heq]
  · refine .inl ⟨hsingle, congrArg Except.ok ?_⟩
    have hvalues := OrdMap.values_ofList_map (fun c : Candle A => { c with closeUnadj := none })
      (series.flatten.map fun c => (c.ts, c))
    rw [stripUnadjusted, candleMapOf, ← hvalues, List.nil_append, priorityStateOf, candleMapOf,
      stripUnadjusted, List.map_map, List.map_map]
    rfl
  · exact .inr ⟨hsingle, msg, rfl⟩

end

/-! ## The two merges -/

section
variable {A : Type} [ToString DateTime] [LinearOrder A] [DefaultHasher A]

/-- Both merges succeed with the same candles, or both fail. -/
def MergesAgree (rs : List (HistoryResponse A)) : Prop :=
  (∃ candles out, mergeCandlesByPriority (rs.map (·.candles)) = .ok candles ∧
    mergeHistory rs = .ok out ∧ out.candles = candles) ∨
  ∃ e e', mergeCandlesByPriority (rs.map (·.candles)) = .error e ∧ mergeHistory rs = .error e'

omit [ToString DateTime] [LinearOrder A] [DefaultHasher A] in
theorem SingleCurrency.mergeable {cs : List (Candle A)} (h : SingleCurrency cs) : Mergeable cs := by
  obtain ⟨cur, hall⟩ := h
  exact ⟨fun c hc => (hall c hc.mem).uniform,
    fun c d hc hd => (hall c hc.mem).1.trans (hall d hd.mem).1.symm⟩

/-- When the two merges agree, on responses that carry the same series: whenever the first candles of
all timestamps are in one currency, all candles are. -/
theorem merges_agree (rs : List (HistoryResponse A)) :
    MergesAgree rs ↔ (Mergeable (candlesOf rs) → SingleCurrency (candlesOf rs)) := by
  have hflatten : (rs.map (·.candles)).flatten = candlesOf rs := rfl
  have hpriority := mergeCandlesByPriority_eq (rs.map (·.candles))
  rw [hflatten] at hpriority
  rcases hpriority with ⟨hsingle, hcandles⟩ | ⟨hsingle, msg, hcandles⟩ <;>
    rcases mergeHistory_eq rs with ⟨hmerge, hhistory⟩ | ⟨hmerge, hhistory⟩
  · exact iff_of_true (.inl ⟨_, _, hcandles, hhistory, rfl⟩) fun _ => hsingle
  · exact absurd hsingle.mergeable hmerge
  · refine iff_of_false ?_ fun h => hsingle (h hmerge)
    rintro (⟨candles, out, hok, -, -⟩ | ⟨e, e', -, herr⟩)
    · cases hcandles.symm.trans hok
    · cases hhistory.symm.trans herr
  · exact iff_of_true (.inr ⟨_, _, hcandles, hhistory⟩) fun h => absurd h hmerge

end

section
local instance textMerge : ToString DateTime := ⟨fun ts => toString ts.nanos⟩

/-- A second series has a candle in another currency at the timestamp of the first one's: it is
replaced, which only one of the merges accepts. -/
theorem merges_not_agree : ¬ ∀ rs : List (HistoryResponse ℕ), MergesAgree rs := by
  intro h
  let dollar : Candle ℕ := .flat (.ofTimestamp 0 (by decide)) ⟨10, ⟨"USD"⟩⟩
  let euro : Candle ℕ := .flat (.ofTimestamp 0 (by decide)) ⟨10, ⟨"EUR"⟩⟩
  rcases h [⟨[dollar], [], false, none⟩, ⟨[euro], [], false, none⟩] with
    ⟨candles, out, hok, -, -⟩ | ⟨e, e', -, herr⟩
  · cases hok
  · cases herr

end

end Borsa
