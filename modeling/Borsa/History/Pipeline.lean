import Borsa.History.Attribution
import Borsa.History.Request
import Borsa.Timeseries.Infer

/-!
# The history pipeline

`history.rs` from the answers of the providers to the result: `collect_successes` resamples each answer
by its plan, the answers are ordered and filtered by whether they are adjusted, merged, and resampled
once more as configured.

A computation fails with a `Failure`: an error that the code returns, or a panic in a resampler.
-/

namespace Borsa

/-! ## Configuration -/

/-- How the providers of a history are asked. -/
inductive MergeStrategy where
  | deep
  | fallback
  deriving DecidableEq

/-- The forced resampling of a merged history. -/
inductive Resampling where
  | none
  | daily
  | weekly
  deriving DecidableEq

/-- The settings that the history router reads. -/
structure HistoryConfig where
  preferAdjustedHistory : Bool
  resampling : Resampling
  autoResampleSubdailyToDaily : Bool
  mergeHistoryStrategy : MergeStrategy

/-! ## Answers -/

/-- `HistoryTaskResult`: the answer of the connector at a position, with the plan for it. -/
structure HistoryTaskResult (A : Type) where
  idx : ℕ
  name : String
  resp : Except BorsaError (HistoryResponse A)
  plan : Option ResamplePlan

/-- `HistoryOk`: an answer that has been resampled by its plan. -/
structure HistoryOk (A : Type) where
  idx : ℕ
  name : String
  resp : HistoryResponse A

section
variable {A : Type} [ToString DateTime] [LinearOrder A]

/-- The resampling of a plan. -/
def ResamplePlan.resample (plan : ResamplePlan) (candles : List (Candle A))
    («meta» : Option HistoryMeta) : Except Failure (List (Candle A)) :=
  match plan with
  | .minutes mins => resampleToMinutesWithMeta candles mins «meta»
  | .daily => resampleToDailyWithMeta candles «meta»
  | .weekly => resampleToWeeklyWithMeta candles «meta»

/-- The body of the loop of `collect_successes`. -/
def collectSuccess (st : List (HistoryOk A) × List BorsaError) (task : HistoryTaskResult A) :
    Except Failure (List (HistoryOk A) × List BorsaError) :=
  match task.resp with
  | .ok hr =>
    if hr.candles.isEmpty then .ok st
    else
      match task.plan with
      | some plan =>
        match plan.resample hr.candles hr.meta with
        | .ok c => .ok (st.1 ++ [⟨task.idx, task.name, { hr with candles := c }⟩], st.2)
        | .error (.err e) => .ok (st.1, st.2 ++ [tagErr task.name e])
        | .error .panic => .error .panic
      | none => .ok (st.1 ++ [⟨task.idx, task.name, hr⟩], st.2)
  | .error (.notFound _) => .ok st
  | .error e => .ok (st.1, st.2 ++ [tagErr task.name e])

/-- `collect_successes`. -/
def collectSuccesses (joined : List (HistoryTaskResult A)) :
    Except Failure (List (HistoryOk A) × List BorsaError) :=
  joined.foldlM collectSuccess ([], [])

end

section
variable {A : Type}

/-- `order_results`: adjusted answers first, if they are preferred, then by position. -/
def orderResults (cfg : HistoryConfig) (resultsOrd : List (HistoryOk A)) : List (HistoryOk A) :=
  if cfg.preferAdjustedHistory then
    SortKey.sortByKey (fun r => toLex (!r.resp.adjusted, r.idx)) resultsOrd
  else SortKey.sortByKey (·.idx) resultsOrd

/-- `filter_adjustedness`. -/
def filterAdjustedness (cfg : HistoryConfig) (resultsOrd : List (HistoryOk A)) :
    List (HistoryOk A) :=
  if cfg.preferAdjustedHistory && resultsOrd.any (·.resp.adjusted) then
    resultsOrd.filter (·.resp.adjusted)
  else
    let targetAdjusted := resultsOrd.head?.any (·.resp.adjusted)
    resultsOrd.filter fun r => r.resp.adjusted == targetAdjusted

/-! ## Blame for mixed currencies -/

/-- What a provider's candles say of its currency. -/
inductive CurrencyState where
  | noData
  | consistent (cur : Currency)
  | inconsistent
  deriving DecidableEq

/-- The loop over a provider's candles, given the currency of those before. -/
def currencyStateFrom (cur : Option Currency) : List (Candle A) → CurrencyState
  | [] => cur.elim .noData .consistent
  | c :: rest =>
    match ensureCandleCurrencyUniform c with
    | .error _ => .inconsistent
    | .ok () =>
      let oc := c.open.currency
      if cur.any (· ≠ oc) then .inconsistent else currencyStateFrom (some (cur.getD oc)) rest

/-- `per_provider_currency`: later results of a name replace earlier ones. -/
def perProviderCurrency (results : List (String × HistoryResponse A)) :
    List (String × CurrencyState) :=
  results.foldl (fun entries (name, hr) =>
    (entries.filter fun x => x.1 ≠ name) ++ [(name, currencyStateFrom none hr.candles)]) []

/-- `identify_faulty_provider`. -/
def identifyFaultyProvider (order : HashOrder) (results : List (String × HistoryResponse A)) :
    BorsaError :=
  let entries := perProviderCurrency results
  match (order.iter entries).find? fun x => x.2 = .inconsistent with
  | some (badName, _) => .connector badName .inconsistentCurrencyData
  | none =>
    let referenceCurrency := results.findSome? fun (name, _) =>
      match entries.lookup name with
      | some (.consistent cur) => some cur
      | _ => none
    let badName := referenceCurrency.bind fun refCur => results.findSome? fun (name, _) =>
      match entries.lookup name with
      | some (.consistent cur) => if cur ≠ refCur then some name else none
      | _ => none
    match badName with
    | some badName => .connector badName .inconsistentCurrencyData
    | none =>
      .connector ((results.getLast?.map Prod.fst).getD "unknown") .inconsistentCurrencyData

/-! ## The result -/

/-- `merge_history_or_tag_connector_error`: a single answer is the result as it is. -/
def mergeHistoryOrTagConnectorError [DefaultHasher A] [LinearOrder A] (order : HashOrder)
    (results : List (String × HistoryResponse A)) : Except BorsaError (HistoryResponse A) :=
  match results with
  | [(_, hr)] => .ok hr
  | _ =>
    match mergeHistory (results.map Prod.snd) with
    | .ok m => .ok { m with candles := stripUnadjusted m.candles }
    | .error (.data msg) =>
      if msg = "Connector provided mixed-currency history" then
        .error (identifyFaultyProvider order results)
      else .error (.data msg)
    | .error e => .error e

variable [ToString DateTime] [LinearOrder A]

/-- `apply_final_resample`. -/
def applyFinalResample (cfg : HistoryConfig) (merged : HistoryResponse A) :
    Except Failure (HistoryResponse A) := do
  let willResample :=
    if cfg.resampling ≠ .none then true
    else if cfg.autoResampleSubdailyToDaily then isSubdaily merged.candles
    else false
  let candles ←
    if cfg.resampling = .weekly then resampleToWeeklyWithMeta merged.candles merged.meta
    else if cfg.resampling = .daily ∨
        cfg.autoResampleSubdailyToDaily ∧ isSubdaily merged.candles then
      resampleToDailyWithMeta merged.candles merged.meta
    else pure merged.candles
  return { merged with candles := if willResample then stripUnadjusted candles else candles }

/-- The error of a history to which no provider contributes. -/
def noHistoryError (attempts : ℕ) (errors : List BorsaError) (symbol : String) : BorsaError :=
  if errors.isEmpty then .notFound ("history for " ++ symbol)
  else if errors.length = attempts ∧ errors.all BorsaError.isProviderTimeout then
    .allProvidersTimedOut Capability.history.asStr
  else .allProvidersFailed errors

/-- `finalize_history_results`. -/
def finalizeHistoryResults [DefaultHasher A] (cfg : HistoryConfig) (order : HashOrder)
    (joined : List (HistoryTaskResult A)) (symbol : String) :
    Except Failure (HistoryResponse A × Attribution) := do
  let (resultsOrd, errors) ← collectSuccesses joined
  if resultsOrd.isEmpty then throw (.err (noHistoryError joined.length errors symbol))
  let filteredOrd := filterAdjustedness cfg (orderResults cfg resultsOrd)
  let results := filteredOrd.map fun r => (r.name, r.resp)
  let attr := buildAttribution results symbol
  let merged ← ofResult (mergeHistoryOrTagConnectorError order results)
  let merged ← applyFinalResample cfg merged
  return (merged, attr)

end

/-! ## Answers and plans -/

section
variable {A : Type} [ToString DateTime] [LinearOrder A]

/-- An answer, resampled by its plan. -/
def planned (plan : Option ResamplePlan) (hr : HistoryResponse A) :
    Except Failure (HistoryResponse A) :=
  match plan with
  | some plan => do
    let c ← plan.resample hr.candles hr.meta
    return { hr with candles := c }
  | none => .ok hr

/-- An answer that is not empty is resampled by its plan. -/
theorem collectSuccess_of_ok {task : HistoryTaskResult A} {hr : HistoryResponse A}
    (hresp : task.resp = .ok hr) (hne : hr.candles.isEmpty = false)
    (st : List (HistoryOk A) × List BorsaError) :
    collectSuccess st task =
      match planned task.plan hr with
      | .ok hr' => .ok (st.1 ++ [⟨task.idx, task.name, hr'⟩], st.2)
      | .error (.err e) => .ok (st.1, st.2 ++ [tagErr task.name e])
      | .error .panic => .error .panic := by
  rw [collectSuccess, hresp]
  simp only [hne, Bool.false_eq_true, if_false, planned]
  cases task.plan with
  | none => rfl
  | some plan =>
    cases hres : plan.resample hr.candles hr.meta with
    | ok c => simp [hres]
    | error f => cases f <;> simp [hres]

end

end Borsa
