import Borsa.History.WellFormed

/-!
# Classified histories

What `finalize_history_results` makes of the answers before it merges them. Without a success it
classifies the failure: nothing was found, every attempt timed out, or the errors are passed on.
Otherwise it merges the successes that are adjusted, or those that are not, in the order of the
providers. `historyClassified` says which, for every list of answers that there can be
(`fetchJoinedHistory_ne_nil`). It counts attempts and errors; that these counts mean what they should is
the spec of one answer (`HistoryTaskResult.kind`). Where a resampling panics there is no classification
(`classifyHistory_eq_panic_iff`).
-/

namespace Borsa

open Fallible

section
variable {A : Type} [ToString DateTime] [LinearOrder A]

/-! ## One answer -/

/-- The answer has no candles, or says that there is nothing. -/
def HistoryTaskResult.Empty (task : HistoryTaskResult A) : Prop :=
  (∃ hr, task.resp = .ok hr ∧ hr.candles = []) ∨ ∃ what, task.resp = .error (.notFound what)

/-- The attempt ended in a `ProviderTimeout`. -/
def HistoryTaskResult.TimedOut (task : HistoryTaskResult A) : Prop :=
  ∃ connector capability, task.resp = .error (.providerTimeout connector capability)

/-- The error that an answer ends in: that of its provider, or of the resampling by its plan. -/
def HistoryTaskResult.failure (task : HistoryTaskResult A) : Option BorsaError :=
  match task.resp with
  | .ok hr =>
    if hr.candles.isEmpty then none
    else
      match planned task.plan hr with
      | .error (.err e) => some e
      | _ => none
  | .error (.notFound _) => none
  | .error e => some e

/-- The resampling of the answer by its plan panics. -/
def HistoryTaskResult.Panics (task : HistoryTaskResult A) : Prop :=
  ∃ hr, task.resp = .ok hr ∧ hr.candles ≠ [] ∧ planned task.plan hr = .error .panic

/-- A resampling returns no errors but those about the data. -/
theorem planned_eq_error {plan : Option ResamplePlan} {hr : HistoryResponse A} {f : Failure}
    (h : planned plan hr = .error f) : f = .panic ∨ ∃ msg, f = .err (.data msg) := by
  cases plan with
  | none => cases h
  | some plan =>
    rw [planned, plan.resample_eq] at h
    rcases bind_eq_error.1 h with hres | ⟨c, -, h⟩
    · by_cases hpos : 0 < plan.cadence.length
      · rw [Cadence.resampleWithMeta_eq hpos] at hres
        exact resampleBy_eq_error (fun _ _ h => Cadence.bucketOf_eq_error h) hres
      · rw [Cadence.resampleWithMeta_eq_self hpos] at hres
        cases hres
    · cases h

/-- The kinds of answers: empty ones, successes, failures and those that panic. -/
inductive HistoryTaskResult.Kind (task : HistoryTaskResult A) : Prop where
  | empty : task.Empty → task.success = none → task.failure = none → ¬ task.Panics → task.Kind
  | success (r : HistoryOk A) : ¬ task.Empty → task.success = some r → task.failure = none →
      ¬ task.Panics → task.Kind
  | failure (e : BorsaError) : ¬ task.Empty → task.success = none → task.failure = some e →
      ¬ task.Panics → (e.isProviderTimeout ↔ task.TimedOut) → task.Kind
  | panics : ¬ task.Empty → task.success = none → task.failure = none → task.Panics → task.Kind

namespace HistoryTaskResult

variable {task : HistoryTaskResult A}

omit [LinearOrder A] [ToString DateTime] in
theorem not_empty_of_candles {hr : HistoryResponse A} (hresp : task.resp = .ok hr)
    (hne : hr.candles ≠ []) : ¬ task.Empty := by
  rintro (⟨hr', h, hnil⟩ | ⟨what, h⟩)
  · cases hresp.symm.trans h
    exact hne hnil
  · cases hresp.symm.trans h

/-- An answer with candles panics exactly when their resampling does. -/
theorem panics_iff {hr : HistoryResponse A} (hresp : task.resp = .ok hr) (hne : hr.candles ≠ []) :
    task.Panics ↔ planned task.plan hr = .error .panic := by
  constructor
  · rintro ⟨hr', h, -, hp⟩
    cases hresp.symm.trans h
    exact hp
  · exact fun hp => ⟨hr, hresp, hne, hp⟩

/-- An error is a failure, unless it says that there is nothing. -/
theorem kind_of_error {e : BorsaError} (hresp : task.resp = .error e) : task.Kind := by
  have hpanics : ¬ task.Panics := by
    rintro ⟨hr, h, -⟩
    cases hresp.symm.trans h
  have hsuccess : task.success = none := by rw [success, hresp]
  by_cases hfound : ∃ what, e = .notFound what
  · obtain ⟨what, rfl⟩ := hfound
    exact .empty (.inr ⟨what, hresp⟩) hsuccess (by rw [failure, hresp]) hpanics
  · have hempty : ¬ task.Empty := by
      rintro (⟨hr, h, -⟩ | ⟨what, h⟩)
      · cases hresp.symm.trans h
      · exact hfound ⟨what, Except.error.inj (hresp.symm.trans h)⟩
    have hfailure : task.failure = some e := by
      rw [failure, hresp]
      cases e <;> first | rfl | exact absurd ⟨_, rfl⟩ hfound
    refine .failure e hempty hsuccess hfailure hpanics ?_
    rw [TimedOut, hresp]
    cases e <;> simp [BorsaError.isProviderTimeout]

/-- An answer with candles is what its resampling comes to. -/
theorem kind_of_candles {hr : HistoryResponse A} (hresp : task.resp = .ok hr)
    (hne : hr.candles ≠ []) : task.Kind := by
  have hempty : ¬ task.Empty := not_empty_of_candles hresp hne
  have hpanics := panics_iff hresp hne
  cases hplan : planned task.plan hr with
  | ok hr' =>
    rw [hplan] at hpanics
    refine .success ⟨task.idx, task.name, hr'⟩ hempty ?_ ?_ (fun h => by cases hpanics.1 h)
    · rw [success, hresp]
      simp [hne, hplan]
    · rw [failure, hresp]
      simp [hne, hplan]
  | error f =>
    rw [hplan] at hpanics
    have hsuccess : task.success = none := by
      rw [success, hresp]
      simp [hne, hplan]
    rcases planned_eq_error hplan with rfl | ⟨msg, rfl⟩
    · refine .panics hempty hsuccess ?_ (hpanics.2 rfl)
      rw [failure, hresp]
      simp [hne, hplan]
    · have htimedOut : ¬ task.TimedOut := by
        rintro ⟨_, _, h⟩
        cases hresp.symm.trans h
      refine .failure (.data msg) hempty hsuccess ?_ (fun h => by cases hpanics.1 h)
        (iff_of_false Bool.false_ne_true htimedOut)
      rw [failure, hresp]
      simp [hne, hplan]

theorem kind (task : HistoryTaskResult A) : task.Kind := by
  cases hresp : task.resp with
  | error e => exact kind_of_error hresp
  | ok hr =>
    by_cases hne : hr.candles = []
    · have hpanics : ¬ task.Panics := by
        rintro ⟨hr', h, hne', -⟩
        cases hresp.symm.trans h
        exact hne' hne
      refine .empty (.inl ⟨hr, hresp, hne⟩) ?_ ?_ hpanics
      · rw [success, hresp]
        simp [hne]
      · rw [failure, hresp]
        simp [hne]
    · exact kind_of_candles hresp hne

end HistoryTaskResult

/-! ## All answers -/

/-- What `collect_successes` does with an answer that does not panic. -/
theorem collectSuccess_eq {task : HistoryTaskResult A} (h : ¬ task.Panics)
    (st : List (HistoryOk A) × List BorsaError) :
    collectSuccess st task = .ok (st.1 ++ task.success.toList,
      st.2 ++ (task.failure.map (tagErr task.name)).toList) := by
  cases hresp : task.resp with
  | error e =>
    rw [collectSuccess, HistoryTaskResult.success, HistoryTaskResult.failure, hresp]
    cases e <;> simp
  | ok hr =>
    rw [HistoryTaskResult.success, HistoryTaskResult.failure, hresp]
    cases hne : hr.candles.isEmpty with
    | true =>
      rw [collectSuccess, hresp]
      simp [hne]
    | false =>
      rw [collectSuccess_of_ok hresp hne]
      cases hplan : planned task.plan hr with
      | ok hr' => simp [hne, hplan]
      | error f =>
        cases f with
        | err e => simp [hne, hplan]
        | panic => exact absurd ⟨hr, hresp, by simpa using hne, hplan⟩ h

theorem collectSuccess_of_panics {task : HistoryTaskResult A} (h : task.Panics)
    (st : List (HistoryOk A) × List BorsaError) : collectSuccess st task = .error .panic := by
  obtain ⟨hr, hresp, hne, hplan⟩ := h
  rw [collectSuccess_of_ok hresp (by simpa using hne), hplan]

/-- The errors of the answers, in their order, each tagged with its connector. -/
def taggedFailures (joined : List (HistoryTaskResult A)) : List BorsaError :=
  joined.filterMap fun task => task.failure.map (tagErr task.name)

/-- The loop collects the successes and the tagged errors. -/
theorem collectSuccesses_eq {joined : List (HistoryTaskResult A)}
    (h : ∀ task ∈ joined, ¬ task.Panics) :
    collectSuccesses joined = .ok (joined.filterMap (·.success), taggedFailures joined) := by
  have hloop : ∀ st, joined.foldlM collectSuccess st =
      .ok (st.1 ++ joined.filterMap (·.success), st.2 ++ taggedFailures joined) := by
    induction joined with
    | nil => exact fun st => by simp [taggedFailures]
    | cons task joined ih =>
      obtain ⟨htask, hjoined⟩ := List.forall_mem_cons.1 h
      intro st
      rw [List.foldlM_cons, collectSuccess_eq htask, ok_bind, ih hjoined, taggedFailures,
        taggedFailures, List.filterMap_cons, List.filterMap_cons]
      cases task.success <;> cases task.failure <;> simp
  rw [collectSuccesses, hloop]
  rfl

theorem collectSuccesses_of_panics {joined : List (HistoryTaskResult A)}
    (h : ∃ task ∈ joined, task.Panics) : collectSuccesses joined = .error .panic := by
  have hloop : ∀ st, joined.foldlM collectSuccess st = .error .panic := by
    induction joined with
    | nil => obtain ⟨task, htask, -⟩ := h; cases htask
    | cons task joined ih =>
      intro st
      rw [List.foldlM_cons]
      by_cases htask : task.Panics
      · rw [collectSuccess_of_panics htask]
        rfl
      · rw [collectSuccess_eq htask, ok_bind]
        refine ih ?_ _
        obtain ⟨task', hmem, hpanics⟩ := h
        exact ⟨task', (List.mem_cons.1 hmem).resolve_left fun heq => htask (heq ▸ hpanics), hpanics⟩
  exact hloop _

/-! ## Classification -/

/-- `finalize_history_results` up to its classification: the successes, or the error where there are
none. -/
def classifyHistory (joined : List (HistoryTaskResult A)) (symbol : String) :
    Except Failure (List (HistoryOk A)) := do
  let (resultsOrd, errors) ← collectSuccesses joined
  if resultsOrd.isEmpty then throw (.err (noHistoryError joined.length errors symbol))
  return resultsOrd

/-- `finalize_history_results` after its classification, for the responses it merges. -/
def mergeProviders [DefaultHasher A] (cfg : HistoryConfig) (order : HashOrder) (symbol : String)
    (merged : List (HistoryOk A)) : Except Failure (HistoryResponse A × Attribution) := do
  let results := merged.map fun r => (r.name, r.resp)
  let attr := buildAttribution results symbol
  let out ← ofResult (mergeHistoryOrTagConnectorError order results)
  let out ← applyFinalResample cfg out
  return (out, attr)

theorem finalizeHistoryResults_eq [DefaultHasher A] (cfg : HistoryConfig) (order : HashOrder)
    (joined : List (HistoryTaskResult A)) (symbol : String) :
    finalizeHistoryResults cfg order joined symbol =
      (classifyHistory joined symbol >>= fun resultsOrd =>
        mergeProviders cfg order symbol (filterAdjustedness cfg (orderResults cfg resultsOrd))) := by
  rw [finalizeHistoryResults, classifyHistory]
  cases collectSuccesses joined with
  | error f => rfl
  | ok st =>
    simp only [ok_bind]
    split <;> rfl

theorem classifyHistory_of_panics {joined : List (HistoryTaskResult A)} {symbol : String}
    (h : ∃ task ∈ joined, task.Panics) : classifyHistory joined symbol = .error .panic := by
  rw [classifyHistory, collectSuccesses_of_panics h]
  rfl

theorem classifyHistory_eq {joined : List (HistoryTaskResult A)} {symbol : String}
    (h : ∀ task ∈ joined, ¬ task.Panics) :
    classifyHistory joined symbol =
      if joined.filterMap (·.success) = [] then
        .error (.err (noHistoryError joined.length (taggedFailures joined) symbol))
      else .ok (joined.filterMap (·.success)) := by
  rw [classifyHistory, collectSuccesses_eq h, ok_bind]
  simp only [List.isEmpty_iff]
  split <;> rfl

omit [ToString DateTime] [LinearOrder A] in
theorem isProviderTimeout_tagErr (name : String) (e : BorsaError) :
    (tagErr name e).isProviderTimeout = e.isProviderTimeout := by
  cases e <;> rfl

/-- No answer is a success, or panics. -/
def NoneSucceeds (joined : List (HistoryTaskResult A)) : Prop :=
  ∀ task ∈ joined, task.success = none ∧ ¬ task.Panics

section
variable {joined : List (HistoryTaskResult A)} (hnone : NoneSucceeds joined)
include hnone

/-- There are no errors exactly when all answers are empty. -/
theorem taggedFailures_eq_nil : taggedFailures joined = [] ↔ ∀ task ∈ joined, task.Empty := by
  rw [taggedFailures, List.filterMap_eq_nil_iff]
  refine forall₂_congr fun task htask => ?_
  obtain ⟨hsuccess, hpanics⟩ := hnone task htask
  cases task.kind with
  | empty hempty _ hfailure _ => simp [hempty, hfailure]
  | success r _ hr _ _ => cases hsuccess.symm.trans hr
  | failure e hempty _ hfailure _ _ => simp [hempty, hfailure]
  | panics _ _ _ h => exact absurd h hpanics

/-- As many errors as attempts, all of them timeouts: every attempt timed out. -/
theorem allTimedOut_iff :
    (taggedFailures joined).length = joined.length ∧
        (taggedFailures joined).all BorsaError.isProviderTimeout ↔
      ∀ task ∈ joined, task.TimedOut := by
  have hkind : ∀ task ∈ joined, (task.failure.map (tagErr task.name)).isSome ∧
      (∀ e, task.failure.map (tagErr task.name) = some e → e.isProviderTimeout) ↔
        task.TimedOut := by
    intro task htask
    obtain ⟨hsuccess, hpanics⟩ := hnone task htask
    cases task.kind with
    | empty hempty _ hfailure _ =>
      refine iff_of_false (by simp [hfailure]) ?_
      rintro ⟨connector, capability, htimeout⟩
      rcases hempty with ⟨hr, hresp, -⟩ | ⟨what, hresp⟩ <;> cases hresp.symm.trans htimeout
    | success r _ hr _ _ => cases hsuccess.symm.trans hr
    | failure e _ _ hfailure _ htimeout =>
      simp [hfailure, isProviderTimeout_tagErr, htimeout]
    | panics _ _ _ h => exact absurd h hpanics
  rw [taggedFailures, List.filterMap_length_eq_length, List.all_eq_true]
  simp only [List.mem_filterMap]
  constructor
  · rintro ⟨hsome, hall⟩ task htask
    exact (hkind task htask).1 ⟨hsome task htask, fun e he => hall e ⟨task, htask, he⟩⟩
  · intro h
    refine ⟨fun task htask => ((hkind task htask).2 (h task htask)).1, ?_⟩
    rintro e ⟨task, htask, he⟩
    exact ((hkind task htask).2 (h task htask)).2 e he

end

/-- An answer that is empty or timed out is no success, and does not panic. -/
theorem noneSucceeds_of_empty {joined : List (HistoryTaskResult A)}
    (h : ∀ task ∈ joined, task.Empty ∨ task.TimedOut) : NoneSucceeds joined := by
  intro task htask
  cases task.kind with
  | empty _ hsuccess _ hpanics => exact ⟨hsuccess, hpanics⟩
  | success r hempty hr _ _ =>
    obtain ⟨_, _, hresp⟩ := (h task htask).resolve_left hempty
    rw [HistoryTaskResult.success, hresp] at hr
    cases hr
  | failure e _ hsuccess _ hpanics _ => exact ⟨hsuccess, hpanics⟩
  | panics hempty hsuccess _ hpanics =>
    obtain ⟨_, _, hresp⟩ := (h task htask).resolve_left hempty
    obtain ⟨hr, hok, -⟩ := hpanics
    cases hresp.symm.trans hok

/-! ## The merged responses -/

/-- The successes in the order of the providers. -/
def successesInOrder (joined : List (HistoryTaskResult A)) : List (HistoryOk A) :=
  SortKey.sortByKey (·.idx) (joined.filterMap (·.success))

/-- Whether the merged responses are adjusted: if that is preferred and there are any, and else as
that of the first successful provider is. -/
def mergedAdjusted (cfg : HistoryConfig) (joined : List (HistoryTaskResult A)) : Bool :=
  if cfg.preferAdjustedHistory ∧ ∃ r ∈ joined.filterMap (·.success), r.resp.adjusted then true
  else (successesInOrder joined).head?.any (·.resp.adjusted)

/-- The responses that are merged: the successes with the flag, in the order of the providers. -/
theorem contributing_eq (cfg : HistoryConfig) (joined : List (HistoryTaskResult A)) :
    contributing cfg joined =
      (successesInOrder joined).filter fun r => r.resp.adjusted == mergedAdjusted cfg joined := by
  rw [contributing, mergedAdjusted, successesInOrder]
  generalize joined.filterMap (·.success) = results
  cases hprefer : cfg.preferAdjustedHistory with
  | false => simp [filterAdjustedness, orderResults, hprefer]
  | true =>
    rw [orderResults, if_pos hprefer, filterAdjustedness]
    by_cases hany : ∃ r ∈ results, r.resp.adjusted
    · -- the adjusted successes compare by their positions
      have hany' : ((SortKey.sortByKey (fun r => toLex (!r.resp.adjusted, r.idx)) results).any
          (·.resp.adjusted)) = true := by
        rw [(SortKey.sortByKey_perm _ _).any_eq]
        simpa using hany
      rw [hprefer, hany', Bool.and_self, if_pos rfl, if_pos ⟨rfl, hany⟩, SortKey.filter_sortByKey]
      simp only [beq_true]
      rw [SortKey.filter_sortByKey]
      refine SortKey.sortByKey_congr fun r hr s hs => ?_
      have hr : r.resp.adjusted = true := (List.mem_filter.1 hr).2
      have hs : s.resp.adjusted = true := (List.mem_filter.1 hs).2
      rw [Prod.Lex.toLex_le_toLex, hr, hs]
      simp
    · have hnone : ∀ r ∈ results, r.resp.adjusted = false := by simpa using hany
      have hany' : ((SortKey.sortByKey (fun r => toLex (!r.resp.adjusted, r.idx)) results).any
          (·.resp.adjusted)) = false := by
        rw [(SortKey.sortByKey_perm _ _).any_eq]
        simpa using hany
      have hsort : SortKey.sortByKey (fun r => toLex (!r.resp.adjusted, r.idx)) results =
          SortKey.sortByKey (·.idx) results := by
        refine SortKey.sortByKey_congr fun r hr s hs => ?_
        rw [Prod.Lex.toLex_le_toLex, hnone r hr, hnone s hs]
        simp
      rw [hany', Bool.and_false, if_neg Bool.false_ne_true, if_neg fun h => hany h.2, hsort]

/-- Where there is a success, some response is merged. -/
theorem contributing_ne_nil (cfg : HistoryConfig) {joined : List (HistoryTaskResult A)}
    (h : joined.filterMap (·.success) ≠ []) : contributing cfg joined ≠ [] := by
  obtain ⟨r, hr, hflag⟩ : ∃ r ∈ successesInOrder joined,
      r.resp.adjusted = mergedAdjusted cfg joined := by
    rw [mergedAdjusted]
    split
    · next hadj =>
      obtain ⟨-, r, hr, hadj⟩ := hadj
      exact ⟨r, SortKey.mem_sortByKey.2 hr, hadj⟩
    · cases hs : successesInOrder joined with
      | nil =>
        have hperm := SortKey.sortByKey_perm (·.idx) (joined.filterMap (·.success))
        rw [← successesInOrder, hs] at hperm
        exact absurd hperm.nil_eq.symm h
      | cons r rest => exact ⟨r, List.mem_cons_self, rfl⟩
  rw [contributing_eq]
  exact List.ne_nil_of_mem (List.mem_filter.2 ⟨hr, beq_iff_eq.2 hflag⟩)

/-- How the answers are classified, and what is merged. -/
structure HistoryClassified [DefaultHasher A] (cfg : HistoryConfig) (order : HashOrder)
    (joined : List (HistoryTaskResult A)) (symbol : String) : Prop where
  err_iff : (∃ f, classifyHistory joined symbol = .error f) ↔ ∀ task ∈ joined, task.success = none
  notFound_iff : (∃ what, classifyHistory joined symbol = .error (.err (.notFound what))) ↔
    ∀ task ∈ joined, task.Empty
  timedOut_iff :
    (∃ capability, classifyHistory joined symbol =
      .error (.err (.allProvidersTimedOut capability))) ↔ ∀ task ∈ joined, task.TimedOut
  failed_iff : ∀ errors,
    classifyHistory joined symbol = .error (.err (.allProvidersFailed errors)) ↔
      (∀ task ∈ joined, task.success = none) ∧ (∃ task ∈ joined, ¬ task.Empty) ∧
        (∃ task ∈ joined, ¬ task.TimedOut) ∧ errors = taggedFailures joined
  error_eq : ∀ f, classifyHistory joined symbol = .error f →
    finalizeHistoryResults cfg order joined symbol = .error f
  merges : ∀ resultsOrd, classifyHistory joined symbol = .ok resultsOrd →
    contributing cfg joined ≠ [] ∧ finalizeHistoryResults cfg order joined symbol =
      mergeProviders cfg order symbol (contributing cfg joined)
  adjusted : ∀ r ∈ contributing cfg joined, r.resp.adjusted = mergedAdjusted cfg joined
  ordered : (contributing cfg joined).Pairwise fun r s => r.idx ≤ s.idx
  complete : (contributing cfg joined).Perm
    ((joined.filterMap (·.success)).filter fun r => r.resp.adjusted == mergedAdjusted cfg joined)

/-- The error of a classification, without a success. -/
theorem noHistoryError_spec {joined : List (HistoryTaskResult A)} (hnone : NoneSucceeds joined)
    (symbol : String) :
    ((∀ task ∈ joined, task.Empty) ∧ noHistoryError joined.length (taggedFailures joined) symbol =
      .notFound ("history for " ++ symbol)) ∨
    ((joined ≠ [] ∧ ∀ task ∈ joined, task.TimedOut) ∧
      noHistoryError joined.length (taggedFailures joined) symbol =
        .allProvidersTimedOut Capability.history.asStr) ∨
    ((∃ task ∈ joined, ¬ task.Empty) ∧ (∃ task ∈ joined, ¬ task.TimedOut) ∧
      noHistoryError joined.length (taggedFailures joined) symbol =
        .allProvidersFailed (taggedFailures joined)) := by
  have hempty := taggedFailures_eq_nil hnone
  have htimedOut := allTimedOut_iff hnone
  rw [noHistoryError]
  by_cases hall : ∀ task ∈ joined, task.Empty
  · exact .inl ⟨hall, if_pos (List.isEmpty_iff.2 (hempty.2 hall))⟩
  · have hne : ¬ (taggedFailures joined).isEmpty := fun h => hall (hempty.1 (List.isEmpty_iff.1 h))
    obtain ⟨task, htask, hnot⟩ : ∃ task ∈ joined, ¬ task.Empty := by
      simpa only [not_forall, exists_prop] using hall
    rw [if_neg hne]
    by_cases htimeouts : ∀ task ∈ joined, task.TimedOut
    · exact .inr (.inl ⟨⟨List.ne_nil_of_mem htask, htimeouts⟩, if_pos (htimedOut.2 htimeouts)⟩)
    · refine .inr (.inr ⟨⟨task, htask, hnot⟩, ?_, if_neg fun h => htimeouts (htimedOut.1 h)⟩)
      simpa only [not_forall, exists_prop] using htimeouts

omit [ToString DateTime] [LinearOrder A] in
/-- An answer that timed out is not empty. -/
theorem HistoryTaskResult.TimedOut.not_empty {task : HistoryTaskResult A} (h : task.TimedOut) :
    ¬ task.Empty := by
  obtain ⟨_, _, hresp⟩ := h
  rintro (⟨hr, hok, -⟩ | ⟨what, hfound⟩)
  · cases hresp.symm.trans hok
  · cases hresp.symm.trans hfound

/-- The three outcomes of the classification. -/
theorem classifyHistory_cases (joined : List (HistoryTaskResult A)) (symbol : String) :
    ((∃ task ∈ joined, task.Panics) ∧ classifyHistory joined symbol = .error .panic) ∨
    (NoneSucceeds joined ∧ classifyHistory joined symbol =
      .error (.err (noHistoryError joined.length (taggedFailures joined) symbol))) ∨
    ((∀ task ∈ joined, ¬ task.Panics) ∧ joined.filterMap (·.success) ≠ [] ∧
      classifyHistory joined symbol = .ok (joined.filterMap (·.success))) := by
  by_cases hpanics : ∃ task ∈ joined, task.Panics
  · exact .inl ⟨hpanics, classifyHistory_of_panics hpanics⟩
  · have hcalm : ∀ task ∈ joined, ¬ task.Panics := by
      simpa only [not_exists, not_and] using hpanics
    have heq : classifyHistory joined symbol = _ := classifyHistory_eq hcalm
    by_cases hnil : joined.filterMap (·.success) = []
    · rw [if_pos hnil] at heq
      refine .inr (.inl ⟨fun task htask => ⟨?_, hcalm task htask⟩, heq⟩)
      exact List.filterMap_eq_nil_iff.1 hnil task htask
    · rw [if_neg hnil] at heq
      exact .inr (.inr ⟨hcalm, hnil, heq⟩)

theorem classifyHistory_eq_err_iff {joined : List (HistoryTaskResult A)} {symbol : String}
    {e : BorsaError} : classifyHistory joined symbol = .error (.err e) ↔
      NoneSucceeds joined ∧
        e = noHistoryError joined.length (taggedFailures joined) symbol := by
  rcases classifyHistory_cases joined symbol with
    ⟨⟨task, htask, hpanics⟩, heq⟩ | ⟨hnone, heq⟩ | ⟨hcalm, hne, heq⟩
  · exact iff_of_false (fun h => by cases heq.symm.trans h) fun h => (h.1 task htask).2 hpanics
  · rw [heq]
    constructor
    · intro h
      cases h
      exact ⟨hnone, rfl⟩
    · rintro ⟨-, rfl⟩
      rfl
  · refine iff_of_false (fun h => by cases heq.symm.trans h) fun h => hne ?_
    exact List.filterMap_eq_nil_iff.2 fun task htask => (h.1 task htask).1

/-- The classification panics exactly when a resampling does. -/
theorem classifyHistory_eq_panic_iff {joined : List (HistoryTaskResult A)} {symbol : String} :
    classifyHistory joined symbol = .error .panic ↔ ∃ task ∈ joined, task.Panics := by
  rcases classifyHistory_cases joined symbol with
    ⟨hpanics, heq⟩ | ⟨hnone, heq⟩ | ⟨hcalm, -, heq⟩
  · exact iff_of_true heq hpanics
  · refine iff_of_false (fun h => by cases heq.symm.trans h) ?_
    rintro ⟨task, htask, hpanics⟩
    exact (hnone task htask).2 hpanics
  · refine iff_of_false (fun h => by cases heq.symm.trans h) ?_
    rintro ⟨task, htask, hpanics⟩
    exact hcalm task htask hpanics

/-- Nothing is found exactly when all answers are empty. -/
theorem classifyHistory_eq_notFound_iff {joined : List (HistoryTaskResult A)} {symbol : String} :
    (∃ what, classifyHistory joined symbol = .error (.err (.notFound what))) ↔
      ∀ task ∈ joined, task.Empty := by
  simp only [classifyHistory_eq_err_iff]
  constructor
  · rintro ⟨what, hnone, he⟩
    rcases noHistoryError_spec hnone symbol with ⟨hall, -⟩ | ⟨-, heq⟩ | ⟨-, -, heq⟩
    · exact hall
    · cases he.trans heq
    · cases he.trans heq
  · intro hall
    have hnone := noneSucceeds_of_empty fun task htask => .inl (hall task htask)
    rcases noHistoryError_spec hnone symbol with ⟨-, heq⟩ | ⟨⟨hne, htimeouts⟩, -⟩ |
      ⟨⟨task, htask, hnot⟩, -⟩
    · exact ⟨_, hnone, heq.symm⟩
    · obtain ⟨task, htask⟩ := List.exists_mem_of_ne_nil joined hne
      exact absurd (hall task htask) (htimeouts task htask).not_empty
    · exact absurd (hall task htask) hnot

/-- All providers timed out exactly when there was an attempt and each ended so. -/
theorem classifyHistory_eq_timedOut_iff {joined : List (HistoryTaskResult A)} {symbol : String} :
    (∃ capability, classifyHistory joined symbol =
        .error (.err (.allProvidersTimedOut capability))) ↔
      joined ≠ [] ∧ ∀ task ∈ joined, task.TimedOut := by
  simp only [classifyHistory_eq_err_iff]
  constructor
  · rintro ⟨capability, hnone, he⟩
    rcases noHistoryError_spec hnone symbol with ⟨-, heq⟩ | ⟨htimeouts, -⟩ | ⟨-, -, heq⟩
    · cases he.trans heq
    · exact htimeouts
    · cases he.trans heq
  · rintro ⟨hne, htimeouts⟩
    have hnone := noneSucceeds_of_empty fun task htask => .inr (htimeouts task htask)
    rcases noHistoryError_spec hnone symbol with ⟨hall, -⟩ | ⟨-, heq⟩ |
      ⟨-, ⟨task, htask, hnot⟩, -⟩
    · obtain ⟨task, htask⟩ := List.exists_mem_of_ne_nil joined hne
      exact absurd (hall task htask) (htimeouts task htask).not_empty
    · exact ⟨_, hnone, heq.symm⟩
    · exact absurd (htimeouts task htask) hnot

/-- In every other failure the errors are passed on. -/
theorem classifyHistory_eq_failed_iff {joined : List (HistoryTaskResult A)} {symbol : String}
    {errors : List BorsaError} :
    classifyHistory joined symbol = .error (.err (.allProvidersFailed errors)) ↔
      NoneSucceeds joined ∧ (∃ task ∈ joined, ¬ task.Empty) ∧ (∃ task ∈ joined, ¬ task.TimedOut) ∧
        errors = taggedFailures joined := by
  rw [classifyHistory_eq_err_iff]
  refine and_congr_right fun hnone => ?_
  rcases noHistoryError_spec hnone symbol with ⟨hall, heq⟩ | ⟨⟨-, htimeouts⟩, heq⟩ |
    ⟨hempty, htimeouts, heq⟩ <;> rw [heq]
  · refine iff_of_false nofun ?_
    rintro ⟨⟨task, htask, hnot⟩, -⟩
    exact hnot (hall task htask)
  · refine iff_of_false nofun ?_
    rintro ⟨-, ⟨task, htask, hnot⟩, -⟩
    exact hnot (htimeouts task htask)
  · rw [BorsaError.allProvidersFailed.injEq]
    exact ⟨fun h => ⟨hempty, htimeouts, h⟩, fun h => h.2.2⟩

theorem noneSucceeds_iff {joined : List (HistoryTaskResult A)}
    (hcalm : ∀ task ∈ joined, ¬ task.Panics) :
    NoneSucceeds joined ↔ ∀ task ∈ joined, task.success = none :=
  forall₂_congr fun task htask => and_iff_left (hcalm task htask)

end

section
local instance textClassification : ToString DateTime := ⟨fun ts => toString ts.nanos⟩

/-- A provider gives adjusted candles, which are resampled, and one others; one has candles in two
currencies, which are not resampled; one has nothing, and one is too slow. -/
def mixedAnswers : List (HistoryTaskResult ℕ) :=
  [⟨0, "yf", .ok ⟨[dollarCandle 10800 (by decide) 10], [], false, none⟩, none⟩,
    ⟨1, "av", .ok ⟨[dollarCandle 14400 (by decide) 9], [], true, none⟩, some .daily⟩,
    ⟨2, "td", .ok ⟨[epochCandle ⟨"USD"⟩, epochCandle ⟨"EUR"⟩], [], true, none⟩, some .daily⟩,
    ⟨3, "fh", .error (.notFound "history"), none⟩,
    ⟨4, "ti", .error (.providerTimeout "ti" "history"), none⟩]

end

end Borsa
