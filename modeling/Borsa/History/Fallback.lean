import Borsa.History.Router

/-!
# Fallback

The sequential search ends at the first answer that is not empty, or at the deadline of the request. But
that answer must still survive the resampling of its plan and the configured one, and where it does
not, nobody asks the connectors after it. Nor does anybody after the deadline. `fallback_failure_iff`
says that these are the only ways in which a failure can come too early.
-/

namespace Borsa

open Fallible

section
variable {A : Type} [ToString DateTime] [LinearOrder A]

/-! ## One answer -/

/-- The answer comes to a history by the resampling of its plan and the configured one. -/
def HistoryTaskResult.ComesTo (cfg : HistoryConfig) (task : HistoryTaskResult A)
    (out : HistoryResponse A) : Prop :=
  ∃ hr hr', task.resp = .ok hr ∧ planned task.plan hr = .ok hr' ∧ applyFinalResample cfg hr' = .ok out

/-- The answer survives its resampling. -/
def HistoryTaskResult.Survives (cfg : HistoryConfig) (task : HistoryTaskResult A) : Prop :=
  ∃ out, task.ComesTo cfg out

/-- An answer that does not end the search contributes no success. -/
theorem collectSuccess_of_not_endsSearch {task : HistoryTaskResult A}
    (h : ¬ task.endsSearch) : ∃ errs, ∀ st, collectSuccess st task = .ok (st.1, st.2 ++ errs) := by
  obtain ⟨idx, name, resp, plan⟩ := task
  cases resp with
  | ok hr =>
    have hempty : hr.candles.isEmpty = true := by simpa [HistoryTaskResult.endsSearch] using h
    exact ⟨[], fun st => by simp [collectSuccess, hempty]⟩
  | error e =>
    cases e with
    | notFound what => exact ⟨[], fun st => by simp [collectSuccess]⟩
    | _ => exact ⟨[tagErr name _], fun st => rfl⟩

/-- Nor do several. -/
theorem foldlM_collectSuccess_of_not_endsSearch {tasks : List (HistoryTaskResult A)}
    (h : ∀ task ∈ tasks, ¬ task.endsSearch) (st : List (HistoryOk A) × List BorsaError) :
    ∃ errs, tasks.foldlM collectSuccess st = .ok (st.1, errs) := by
  induction tasks generalizing st with
  | nil => exact ⟨st.2, rfl⟩
  | cons task tasks ih =>
    obtain ⟨htask, htasks⟩ := List.forall_mem_cons.1 h
    obtain ⟨errs, heq⟩ := collectSuccess_of_not_endsSearch htask
    rw [List.foldlM_cons, heq st]
    exact ih htasks _

variable [DefaultHasher A]

/-- Without a success there is no result. -/
theorem finalizeHistoryResults_of_no_success {cfg : HistoryConfig} {order : HashOrder}
    {joined : List (HistoryTaskResult A)} {symbol : String} {errors : List BorsaError}
    (h : collectSuccesses joined = .ok ([], errors)) (out : HistoryResponse A × Attribution) :
    finalizeHistoryResults cfg order joined symbol ≠ .ok out := by
  rw [finalizeHistoryResults, h]
  nofun

/-- A single success is the result, once it is resampled. -/
theorem finalizeHistoryResults_of_single {cfg : HistoryConfig} {order : HashOrder}
    {joined : List (HistoryTaskResult A)} {symbol : String} {r : HistoryOk A}
    {errors : List BorsaError} (h : collectSuccesses joined = .ok ([r], errors)) :
    finalizeHistoryResults cfg order joined symbol =
      (applyFinalResample cfg r.resp >>= fun merged =>
        .ok (merged, buildAttribution [(r.name, r.resp)] symbol)) := by
  have horder : orderResults cfg [r] = [r] := by
    rw [orderResults]
    split <;> rfl
  have hfilter : filterAdjustedness cfg [r] = [r] := by
    rw [filterAdjustedness]
    split <;> simp_all
  rw [finalizeHistoryResults, h, ok_bind]
  simp only [List.isEmpty_cons, Bool.false_eq_true, if_false, horder, hfilter]
  rfl

/-- After answers that do not end the search, one that does gives the history that it comes to. -/
theorem finalizeHistoryResults_concat {cfg : HistoryConfig} {order : HashOrder}
    {pre : List (HistoryTaskResult A)} {task : HistoryTaskResult A} {symbol : String}
    (hpre : ∀ t ∈ pre, ¬ t.endsSearch) (htask : task.endsSearch) (out : HistoryResponse A) :
    (∃ attr, finalizeHistoryResults cfg order (pre ++ [task]) symbol = .ok (out, attr)) ↔
      task.ComesTo cfg out := by
  obtain ⟨hr, hresp, hne⟩ : ∃ hr, task.resp = .ok hr ∧ hr.candles.isEmpty = false := by
    rw [HistoryTaskResult.endsSearch] at htask
    cases hresp : task.resp with
    | ok hr => exact ⟨hr, rfl, by simpa [hresp] using htask⟩
    | error e => simp [hresp] at htask
  obtain ⟨errs, hfold⟩ := foldlM_collectSuccess_of_not_endsSearch hpre ([], [])
  have hcollect : collectSuccesses (pre ++ [task]) = collectSuccess ([], errs) task := by
    rw [collectSuccesses, List.foldlM_append, hfold, ok_bind, List.foldlM_cons]
    exact bind_pure _
  rw [collectSuccess_of_ok hresp hne] at hcollect
  have hcomes : task.ComesTo cfg out ↔
      ∃ hr', planned task.plan hr = .ok hr' ∧ applyFinalResample cfg hr' = .ok out := by
    constructor
    · rintro ⟨hr₁, hr', hresp₁, hplan, hfinal⟩
      obtain rfl : hr = hr₁ := Except.ok.inj (hresp.symm.trans hresp₁)
      exact ⟨hr', hplan, hfinal⟩
    · rintro ⟨hr', hplan, hfinal⟩
      exact ⟨hr, hr', hresp, hplan, hfinal⟩
  rw [hcomes]
  cases hplan : planned task.plan hr with
  | ok hr' =>
    rw [hplan] at hcollect
    rw [finalizeHistoryResults_of_single hcollect]
    cases hfinal : applyFinalResample cfg hr' with
    | ok merged => simp [hfinal]
    | error f => simp [hfinal]
  | error f =>
    rw [hplan] at hcollect
    refine iff_of_false ?_ (by simp)
    rintro ⟨attr, hout⟩
    cases f with
    | err e => exact finalizeHistoryResults_of_no_success hcollect _ hout
    | panic =>
      rw [finalizeHistoryResults, hcollect] at hout
      cases hout

/-- Where no answer ends the search there is no result. -/
theorem finalizeHistoryResults_of_not_endsSearch {cfg : HistoryConfig} {order : HashOrder}
    {joined : List (HistoryTaskResult A)} {symbol : String}
    (h : ∀ t ∈ joined, ¬ t.endsSearch) (out : HistoryResponse A × Attribution) :
    finalizeHistoryResults cfg order joined symbol ≠ .ok out := by
  obtain ⟨errs, hfold⟩ := foldlM_collectSuccess_of_not_endsSearch h ([], [])
  exact finalizeHistoryResults_of_no_success hfold out

end

/-! ## The search -/

section
variable {K E I R A : Type} [Interval I] [DecidableEq I]
  {build : RequestBuild I R} {inst : Instrument K E} {req : HistoryRequest I R}

/-- The answers are those of the connectors that are asked. -/
theorem sequentialHistory_eq (eligible : List (EligibleConnector K E I R A)) :
    sequentialHistory build inst req eligible =
      parallelHistory build (searched build inst req eligible) inst req := by
  induction eligible with
  | nil => rfl
  | cons x rest ih =>
    rw [sequentialHistory, searched]
    split_ifs
    · rfl
    · rw [ih]
      rfl

/-- Where no answer ends the search, every connector is asked. -/
theorem searched_of_not_endsSearch {eligible : List (EligibleConnector K E I R A)}
    (h : ∀ x ∈ eligible, ¬ (spawnHistoryTask build x inst req).endsSearch) :
    searched build inst req eligible = eligible := by
  induction eligible with
  | nil => rfl
  | cons x rest ih =>
    obtain ⟨hx, hrest⟩ := List.forall_mem_cons.1 h
    rw [searched, if_neg hx, ih hrest]

/-- The search asks the connectors up to the first whose answer ends it. -/
theorem searched_of_endsSearch {pre post : List (EligibleConnector K E I R A)}
    {x : EligibleConnector K E I R A}
    (hpre : ∀ y ∈ pre, ¬ (spawnHistoryTask build y inst req).endsSearch)
    (hx : (spawnHistoryTask build x inst req).endsSearch) :
    searched build inst req (pre ++ x :: post) = pre ++ [x] := by
  induction pre with
  | nil => rw [List.nil_append, searched, if_pos hx, List.nil_append]
  | cons y pre ih =>
    obtain ⟨hy, hpre⟩ := List.forall_mem_cons.1 hpre
    rw [List.cons_append, searched, if_neg hy, ih hpre, List.cons_append]

theorem InTime.mono {deadline : Option ℕ} {t t' : ℕ} (h : InTime deadline t) (hle : t' ≤ t) :
    InTime deadline t' := fun d hd => hle.trans (h d hd)

omit [Interval I] [DecidableEq I] in
theorem Timing.total_cons (timing : Timing K E I R A) (x : EligibleConnector K E I R A)
    (rest : List (EligibleConnector K E I R A)) :
    timing.total (x :: rest) = timing.callTime x + timing.total rest := List.sum_cons

/-- A search that ends in time has asked the connectors that it asks. -/
theorem askedInTime_eq_searched {timing : Timing K E I R A} {time : ℕ}
    {eligible : List (EligibleConnector K E I R A)}
    (h : InTime timing.requestTimeout (time + timing.total (searched build inst req eligible))) :
    askedInTime timing build inst req time eligible = searched build inst req eligible := by
  induction eligible generalizing time with
  | nil => rfl
  | cons x rest ih =>
    rw [searched] at h ⊢
    rw [askedInTime]
    by_cases hx : (spawnHistoryTask build x inst req).endsSearch
    · rw [if_neg fun hgoes => hgoes.2 hx, if_pos hx]
    · rw [if_neg hx, timing.total_cons, ← add_assoc] at h
      rw [if_pos ⟨h.mono (Nat.le_add_right _ _), hx⟩, if_neg hx, ih h]

/-- A property of the ways to split a list, at its first item. -/
theorem forall_split_cons {α : Type} {P : List α → α → List α → Prop} {a : α} {l : List α} :
    (∀ pre x post, a :: l = pre ++ x :: post → P pre x post) ↔
      P [] a l ∧ ∀ pre x post, l = pre ++ x :: post → P (a :: pre) x post := by
  constructor
  · intro h
    exact ⟨h [] a l rfl, fun pre x post heq => h (a :: pre) x post (congrArg (a :: ·) heq)⟩
  · rintro ⟨hhead, htail⟩ pre x post heq
    cases pre with
    | nil =>
      obtain ⟨rfl, rfl⟩ := List.cons.inj heq
      exact hhead
    | cons b pre =>
      obtain ⟨rfl, hl⟩ := List.cons.inj heq
      exact htail pre x post hl

/-- Every connector is asked before the deadline exactly when those with one after them answer in time,
and none of these answers ends the search. -/
theorem askedInTime_eq_self_iff (timing : Timing K E I R A) (time : ℕ)
    (eligible : List (EligibleConnector K E I R A)) :
    askedInTime timing build inst req time eligible = eligible ↔
      ∀ pre x post, eligible = pre ++ x :: post → post ≠ [] →
        InTime timing.requestTimeout (time + timing.total (pre ++ [x])) ∧
          ¬ (spawnHistoryTask build x inst req).endsSearch := by
  induction eligible generalizing time with
  | nil => exact iff_of_true rfl fun pre x post heq => by simp at heq
  | cons x rest ih =>
    have hsplit := forall_split_cons (a := x) (l := rest) (P := fun pre x post => post ≠ [] →
      InTime timing.requestTimeout (time + timing.total (pre ++ [x])) ∧
        ¬ (spawnHistoryTask build x inst req).endsSearch)
    have htotal : ∀ pre y, time + timing.total (x :: pre ++ [y]) =
        time + timing.callTime x + timing.total (pre ++ [y]) := fun pre y => by
      rw [List.cons_append, timing.total_cons, add_assoc]
    have hone : timing.total ([] ++ [x]) = timing.callTime x := List.sum_singleton
    simp only [htotal, hone, ← ih] at hsplit
    rw [hsplit, askedInTime]
    by_cases hgoes : InTime timing.requestTimeout (time + timing.callTime x) ∧
        ¬ (spawnHistoryTask build x inst req).endsSearch
    · rw [if_pos hgoes, List.cons_inj_right, and_iff_right fun _ => hgoes]
    · rw [if_neg hgoes, List.cons_inj_right]
      cases rest with
      | nil => exact iff_of_true rfl ⟨fun h => absurd rfl h, rfl⟩
      | cons y rest => exact iff_of_false (by simp) fun h => hgoes (h.1 (by simp))

/-- The first item of a list with a property is at one place. -/
theorem first_unique {α : Type} {p : α → Prop} {pre pre' post post' : List α} {x x' : α}
    (hpre : ∀ y ∈ pre, ¬ p y) (hx : p x) (hpre' : ∀ y ∈ pre', ¬ p y) (hx' : p x')
    (heq : pre ++ x :: post = pre' ++ x' :: post') : x = x' ∧ post = post' := by
  induction pre generalizing pre' with
  | nil =>
    cases pre' with
    | nil => simpa using heq
    | cons y pre' =>
      obtain ⟨rfl, -⟩ := List.cons.inj heq
      exact absurd hx (hpre' x List.mem_cons_self)
  | cons y pre ih =>
    obtain ⟨hy, hpre⟩ := List.forall_mem_cons.1 hpre
    cases pre' with
    | nil =>
      obtain ⟨rfl, -⟩ := List.cons.inj heq
      exact absurd hx' hy
    | cons y' pre' =>
      obtain ⟨-, heq⟩ := List.cons.inj heq
      exact ih hpre (List.forall_mem_cons.1 hpre').2 heq

variable [ToString DateTime] [LinearOrder A] [DefaultHasher A]

/-- The configuration asks the connectors one after the other. -/
def HistoryConfig.asFallback (cfg : HistoryConfig) : HistoryConfig :=
  { cfg with mergeHistoryStrategy := .fallback }

/-- A failure of the connectors together means that each has been asked, and none alone has a history
that is not empty. -/
def FailsLast (cfg : HistoryConfig) (timing : Timing K E I R A) (order : HashOrder)
    (build : RequestBuild I R) (inst : Instrument K E) (req : HistoryRequest I R)
    (eligible : List (EligibleConnector K E I R A)) : Prop :=
  (∀ out, historyOf cfg timing order build inst req eligible ≠ .ok out) →
    askedInTime timing build inst req 0 eligible = eligible ∧
      ∀ x ∈ eligible, ∀ hist attr,
        historyOf cfg timing order build inst req [x] = .ok (hist, attr) → hist.candles = []

/-- The search is over before the deadline of the request. -/
def OverInTime (timing : Timing K E I R A) (build : RequestBuild I R) (inst : Instrument K E)
    (req : HistoryRequest I R) (eligible : List (EligibleConnector K E I R A)) : Prop :=
  InTime timing.requestTimeout (timing.total (searched build inst req eligible))

/-- The search ends well: before the deadline, or with the last connector. -/
structure EndsWell (cfg : HistoryConfig) (timing : Timing K E I R A) (build : RequestBuild I R)
    (inst : Instrument K E) (req : HistoryRequest I R)
    (eligible : List (EligibleConnector K E I R A)) : Prop where
  /-- Before the deadline, the answer that ends the search survives, or no connector is left to be
  asked. -/
  survives : OverInTime timing build inst req eligible → ∀ pre x post, eligible = pre ++ x :: post →
    (∀ y ∈ pre, ¬ (spawnHistoryTask build y inst req).endsSearch) →
    (spawnHistoryTask build x inst req).endsSearch →
    (spawnHistoryTask build x inst req).Survives cfg ∨ post = []
  /-- A search that is cut off has come to the last connector. -/
  reachesLast : ¬ OverInTime timing build inst req eligible → ∀ pre x post,
    eligible = pre ++ x :: post → post ≠ [] →
    InTime timing.requestTimeout (timing.total (pre ++ [x])) ∧
      ¬ (spawnHistoryTask build x inst req).endsSearch
  /-- It has lost no answer that is in time by itself and comes to candles. -/
  losesNone : ¬ OverInTime timing build inst req eligible → ∀ x ∈ eligible,
    (spawnHistoryTask build x inst req).endsSearch →
    InTime timing.requestTimeout (timing.callTime x) → ∀ hist,
    (spawnHistoryTask build x inst req).ComesTo cfg hist → hist.candles = []

/-- In fallback mode a search that is over in time gives the result of its answers. -/
theorem historyOf_of_overInTime {cfg : HistoryConfig} {timing : Timing K E I R A} (order : HashOrder)
    {eligible : List (EligibleConnector K E I R A)} (h : OverInTime timing build inst req eligible) :
    historyOf cfg.asFallback timing order build inst req eligible =
      finalizeHistoryResults cfg.asFallback order
        (parallelHistory build (searched build inst req eligible) inst req) (symbolLabel inst) := by
  have hjoined : withRequestDeadline timing.requestTimeout
      (timing.total (searched build inst req eligible)) (sequentialHistory build inst req eligible) =
        .ok (sequentialHistory build inst req eligible) := if_pos h
  have hfetch : fetchJoinedHistory cfg.asFallback timing build eligible inst req =
      .ok (sequentialHistory build inst req eligible) := congrArg (Except.mapError _) hjoined
  rw [historyOf, hfetch, ← sequentialHistory_eq]
  rfl

/-- One that is not gives the timeout of the request. -/
theorem historyOf_of_not_overInTime {cfg : HistoryConfig} {timing : Timing K E I R A}
    (order : HashOrder) {eligible : List (EligibleConnector K E I R A)}
    (h : ¬ OverInTime timing build inst req eligible) :
    historyOf cfg.asFallback timing order build inst req eligible =
      .error (.err (.requestTimeout Capability.history.asStr)) := by
  have hjoined : withRequestDeadline timing.requestTimeout
      (timing.total (searched build inst req eligible)) (sequentialHistory build inst req eligible) =
        .error (.requestTimeout "request") := if_neg h
  have hfetch : fetchJoinedHistory cfg.asFallback timing build eligible inst req =
      .error (.requestTimeout Capability.history.asStr) := congrArg (Except.mapError _) hjoined
  rw [historyOf, hfetch]
  rfl

/-- Where no answer ends the search there is no history. -/
theorem historyOf_of_not_endsSearch {cfg : HistoryConfig} {timing : Timing K E I R A}
    {order : HashOrder} {eligible : List (EligibleConnector K E I R A)}
    (h : ∀ x ∈ eligible, ¬ (spawnHistoryTask build x inst req).endsSearch)
    (out : HistoryResponse A × Attribution) :
    historyOf cfg.asFallback timing order build inst req eligible ≠ .ok out := by
  by_cases hin : OverInTime timing build inst req eligible
  · rw [historyOf_of_overInTime order hin, searched_of_not_endsSearch h]
    exact finalizeHistoryResults_of_not_endsSearch (List.forall_mem_map.2 h) out
  · rw [historyOf_of_not_overInTime order hin]
    exact fun hout => by cases hout

/-- Connectors after the one whose answer ends the search make no difference: in time, the history is
the one to which that answer comes. -/
theorem historyOf_eq_ok_iff {cfg : HistoryConfig} {timing : Timing K E I R A} (order : HashOrder)
    {pre : List (EligibleConnector K E I R A)} {x : EligibleConnector K E I R A}
    (post : List (EligibleConnector K E I R A))
    (hpre : ∀ y ∈ pre, ¬ (spawnHistoryTask build y inst req).endsSearch)
    (hx : (spawnHistoryTask build x inst req).endsSearch) (hist : HistoryResponse A) :
    (∃ attr, historyOf cfg.asFallback timing order build inst req (pre ++ x :: post) =
        .ok (hist, attr)) ↔
      InTime timing.requestTimeout (timing.total (pre ++ [x])) ∧
        (spawnHistoryTask build x inst req).ComesTo cfg.asFallback hist := by
  have hsearched : searched build inst req (pre ++ x :: post) = pre ++ [x] :=
    searched_of_endsSearch hpre hx
  have hover : OverInTime timing build inst req (pre ++ x :: post) ↔
      InTime timing.requestTimeout (timing.total (pre ++ [x])) := by
    rw [OverInTime, hsearched]
  rw [← hover]
  by_cases hin : OverInTime timing build inst req (pre ++ x :: post)
  · rw [and_iff_right hin, historyOf_of_overInTime order hin, hsearched, parallelHistory,
      List.map_append]
    exact finalizeHistoryResults_concat (List.forall_mem_map.2 hpre) hx hist
  · rw [historyOf_of_not_overInTime order hin]
    refine iff_of_false ?_ fun h => hin h.1
    rintro ⟨_, h⟩
    cases h

/-- A connector alone has the history to which its answer comes, if it is in time and not empty. -/
theorem historyOf_singleton_eq_ok_iff {cfg : HistoryConfig} {timing : Timing K E I R A}
    (order : HashOrder) (x : EligibleConnector K E I R A) (hist : HistoryResponse A) :
    (∃ attr, historyOf cfg.asFallback timing order build inst req [x] = .ok (hist, attr)) ↔
      (spawnHistoryTask build x inst req).endsSearch ∧
        InTime timing.requestTimeout (timing.callTime x) ∧
        (spawnHistoryTask build x inst req).ComesTo cfg.asFallback hist := by
  by_cases hx : (spawnHistoryTask build x inst req).endsSearch
  · have hone : timing.total ([] ++ [x]) = timing.callTime x := List.sum_singleton
    rw [and_iff_right hx, ← hone]
    exact historyOf_eq_ok_iff order [] (List.forall_mem_nil _) hx hist
  · refine iff_of_false ?_ fun h => hx h.1
    rintro ⟨attr, h⟩
    exact historyOf_of_not_endsSearch (List.forall_mem_singleton.2 hx) _ h

omit [DefaultHasher A] in
/-- In time, the answer that ends the search is the only one that matters. -/
theorem endsWell_append_cons_iff (cfg : HistoryConfig) {timing : Timing K E I R A}
    {pre post : List (EligibleConnector K E I R A)} {x : EligibleConnector K E I R A}
    (hin : OverInTime timing build inst req (pre ++ x :: post))
    (hpre : ∀ y ∈ pre, ¬ (spawnHistoryTask build y inst req).endsSearch)
    (hx : (spawnHistoryTask build x inst req).endsSearch) :
    EndsWell cfg timing build inst req (pre ++ x :: post) ↔
      (spawnHistoryTask build x inst req).Survives cfg ∨ post = [] := by
  constructor
  · intro h
    exact h.survives hin pre x post rfl hpre hx
  · intro h
    refine ⟨fun _ pre' x' post' heq hpre' hx' => ?_, fun hnot => absurd hin hnot,
      fun hnot => absurd hin hnot⟩
    obtain ⟨rfl, rfl⟩ := first_unique hpre hx hpre' hx' heq
    exact h

/-- A search that is cut off fails last exactly when it has come to the last connector and loses no
answer that comes to candles. -/
theorem failsLast_iff_of_not_overInTime (cfg : HistoryConfig) {timing : Timing K E I R A}
    (order : HashOrder) {eligible : List (EligibleConnector K E I R A)}
    (hnot : ¬ OverInTime timing build inst req eligible) :
    FailsLast cfg.asFallback timing order build inst req eligible ↔
      EndsWell cfg.asFallback timing build inst req eligible := by
  have hfail : ∀ out, historyOf cfg.asFallback timing order build inst req eligible ≠ .ok out := by
    intro out hout
    rw [historyOf_of_not_overInTime order hnot] at hout
    cases hout
  have hasked : askedInTime timing build inst req 0 eligible = eligible ↔ _ :=
    askedInTime_eq_self_iff timing 0 eligible
  simp only [zero_add] at hasked
  constructor
  · intro h
    obtain ⟨hall, hnone⟩ := h hfail
    refine ⟨fun hin => absurd hin hnot, fun _ => hasked.1 hall, fun _ x hx hends hin hist hcomes => ?_⟩
    obtain ⟨attr, hout⟩ := (historyOf_singleton_eq_ok_iff order x hist).2 ⟨hends, hin, hcomes⟩
    exact hnone x hx hist attr hout
  · intro h _
    refine ⟨hasked.2 (h.reachesLast hnot), fun x hx hist attr hout => ?_⟩
    obtain ⟨hends, hin, hcomes⟩ := (historyOf_singleton_eq_ok_iff order x hist).1 ⟨attr, hout⟩
    exact h.losesNone hnot x hx hends hin hist hcomes

/-- In fallback mode a failure means that every connector was asked in vain exactly when the answer
that ends the search survives its resampling or is the last, or the search is cut off by the deadline
at the last connector and loses no answer that comes to candles. -/
theorem fallback_failure_iff (cfg : HistoryConfig) (timing : Timing K E I R A) (order : HashOrder)
    (build : RequestBuild I R) (inst : Instrument K E) (req : HistoryRequest I R)
    (eligible : List (EligibleConnector K E I R A)) :
    FailsLast cfg.asFallback timing order build inst req eligible ↔
      EndsWell cfg.asFallback timing build inst req eligible := by
  by_cases hin : OverInTime timing build inst req eligible
  swap
  · exact failsLast_iff_of_not_overInTime cfg order hin
  have hasked : askedInTime timing build inst req 0 eligible = searched build inst req eligible :=
    askedInTime_eq_searched (by rwa [zero_add])
  cases hfind : eligible.find? fun x => (spawnHistoryTask build x inst req).endsSearch with
  | none =>
    have hnone : ∀ x ∈ eligible, ¬ (spawnHistoryTask build x inst req).endsSearch := by
      simpa using hfind
    refine iff_of_true (fun _ => ⟨?_, fun x hx hist attr hout => ?_⟩)
      ⟨fun _ pre x post heq _ hx => ?_, fun hnot => absurd hin hnot, fun hnot => absurd hin hnot⟩
    · rw [hasked, searched_of_not_endsSearch hnone]
    · exact absurd ((historyOf_singleton_eq_ok_iff order x hist).1 ⟨attr, hout⟩).1 (hnone x hx)
    · exact absurd hx (hnone x (heq ▸ List.mem_append_cons_self))
  | some x =>
    obtain ⟨hx, pre, post, rfl, hpre⟩ := List.find?_eq_some_iff_append.1 hfind
    replace hpre : ∀ y ∈ pre, ¬ (spawnHistoryTask build y inst req).endsSearch := by
      simpa using hpre
    have hsearched : searched build inst req (pre ++ x :: post) = pre ++ [x] :=
      searched_of_endsSearch hpre hx
    have htime : InTime timing.requestTimeout (timing.total (pre ++ [x])) := by
      rwa [OverInTime, hsearched] at hin
    rw [endsWell_append_cons_iff cfg.asFallback hin hpre hx]
    rw [hsearched] at hasked
    by_cases hsurvives : (spawnHistoryTask build x inst req).Survives cfg.asFallback
    · obtain ⟨hist, hcomes⟩ := hsurvives
      obtain ⟨attr, hout⟩ : ∃ attr, historyOf cfg.asFallback timing order build inst req
          (pre ++ x :: post) = .ok (hist, attr) :=
        (historyOf_eq_ok_iff order post hpre hx hist).2 ⟨htime, hcomes⟩
      exact iff_of_true (fun hfail => absurd hout (hfail _)) (.inl ⟨hist, hcomes⟩)
    · have hfail : ∀ out, historyOf cfg.asFallback timing order build inst req (pre ++ x :: post) ≠
          .ok out := fun out hout =>
        hsurvives ⟨out.1, ((historyOf_eq_ok_iff order post hpre hx out.1).1 ⟨out.2, hout⟩).2⟩
      constructor
      · intro h
        have hall := (h hfail).1
        rw [hasked] at hall
        exact .inr (List.cons.inj (List.append_cancel_left hall)).2.symm
      · rintro (h | rfl) -
        · exact absurd h hsurvives
        · refine ⟨hasked, fun y hy hist attr hout => ?_⟩
          obtain ⟨hends, -, hcomes⟩ :=
            (historyOf_singleton_eq_ok_iff order y hist).1 ⟨attr, hout⟩
          rcases List.mem_append.1 hy with hy | hy
          · exact absurd hends (hpre y hy)
          · obtain rfl := List.mem_singleton.1 hy
            exact absurd ⟨hist, hcomes⟩ hsurvives

end

section
local instance textFallback : ToString DateTime := ⟨fun ts => toString ts.nanos⟩

/-- Daily and weekly intervals. -/
local instance intervalFallback : Interval Bool := ⟨fun _ => none, fun _ => none, true, false⟩

/-- A connector with a daily history. -/
def dailyConnector (idx : ℕ) (name : String) (candles : List (Candle ℕ)) :
    EligibleConnector Unit Unit Bool Unit ℕ where
  idx := idx
  connector := ⟨name, fun _ => true, false, false, false⟩
  provider := ⟨fun _ => [true], fun _ _ => some (.ok ⟨candles, [], false, none⟩)⟩

/-- The first connector's candle has its high in another currency, which the daily resampling refuses.
The second connector has a history, but it is not asked. -/
theorem not_failsLast :
    ¬ ∀ (cfg : HistoryConfig)
        (eligible : List (EligibleConnector Unit Unit Bool Unit ℕ)),
      FailsLast cfg.asFallback ⟨none, fun _ => 0⟩ .insertion .ok ⟨.prediction, ()⟩
        ⟨none, none, true, false, false, false, false⟩ eligible := by
  intro h
  let candle : Candle ℕ := .flat (.ofTimestamp 0 (by decide)) ⟨10, ⟨"USD"⟩⟩
  let mixed : Candle ℕ := { candle with high := ⟨10, ⟨"EUR"⟩⟩ }
  let cfg : HistoryConfig := ⟨false, .daily, false, .fallback⟩
  let eligible := [dailyConnector 0 "av" [mixed], dailyConnector 1 "yf" [candle]]
  have hfail : historyOf cfg.asFallback ⟨none, fun _ => 0⟩ .insertion .ok ⟨.prediction, ()⟩
      ⟨none, none, true, false, false, false, false⟩ eligible = .error (.err (.data _)) := rfl
  have hlast := h cfg eligible fun out hout => nomatch hfail.symm.trans hout
  have hone := hlast.2 (dailyConnector 1 "yf" [candle]) (by simp [eligible]) ⟨[candle], [], false, none⟩
    _ rfl
  cases hone

end

end Borsa
