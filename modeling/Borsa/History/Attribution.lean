import Borsa.Lib.Runs
import Borsa.Timeseries.Merge

/-!
# Attribution

`build_attribution` tells which provider supplied which part of a merged history. It fills a map from
timestamps to provider names with the same first-wins rule as `merge_history` fills its map of
candles, and groups the names into runs. `buildAttribution_attributes` says that the two agree.
-/

namespace Borsa

/-- The whole seconds from `start` to `end`, both inclusive. -/
structure Span where
  start : ℤ
  «end» : ℤ
  deriving DecidableEq

/-- The instant lies in the span, to the second. -/
def Span.Contains (s : Span) (t : DateTime) : Prop := s.start ≤ t.timestamp ∧ t.timestamp ≤ s.end

/-- The connectors that supplied a history, each with a span of it. -/
structure Attribution where
  symbol : String
  spans : List (String × Span)

/-- The variables of the loop that groups names into runs. -/
structure RunState where
  spans : List (String × Span)
  currentProvider : String
  runStart : ℤ
  lastTs : ℤ

/-- The spans once the current run is closed. -/
def RunState.close (st : RunState) : List (String × Span) :=
  st.spans ++ [(st.currentProvider, ⟨st.runStart, st.lastTs⟩)]

/-- The body of the loop that groups names into runs. -/
def RunState.next (st : RunState) (x : DateTime × String) : RunState :=
  let tsSec := x.1.timestamp
  if x.2 = st.currentProvider then { st with lastTs := tsSec }
  else ⟨st.close, x.2, tsSec, tsSec⟩

section
variable {A : Type}

/-- The names that `build_attribution` meets, each with a timestamp. -/
def namedTimestamps (results : List (String × HistoryResponse A)) : List (DateTime × String) :=
  results.flatMap fun (name, hr) => hr.candles.map fun c => (c.ts, name)

/-- `ts_to_provider`: the first provider of each timestamp. -/
def tsToProvider (results : List (String × HistoryResponse A)) : OrdMap DateTime String :=
  .ofList (namedTimestamps results)

/-- `build_attribution`. -/
def buildAttribution (results : List (String × HistoryResponse A)) (symbol : String) :
    Attribution :=
  match (tsToProvider results).entries with
  | [] => ⟨symbol, []⟩
  | (firstTs, provider) :: iter =>
    ⟨symbol, (iter.foldl RunState.next
      ⟨[], provider, firstTs.timestamp, firstTs.timestamp⟩).close⟩

end

/-! ## Spans of runs -/

/-- The span of a run of timestamps under one name. -/
def spanOf : List (DateTime × String) → String × Span
  | [] => ("", ⟨0, 0⟩)
  | x :: rest =>
    (x.2, ⟨x.1.timestamp, ((x :: rest).getLast (List.cons_ne_nil _ _)).1.timestamp⟩)

/-- The variables of the loop while `run` is open. -/
def runStateOf (spans : List (String × Span)) (run : List (DateTime × String)) : RunState :=
  ⟨spans, (spanOf run).1, (spanOf run).2.start, (spanOf run).2.end⟩

theorem next_runStateOf_of_eq {spans : List (String × Span)} {x y : DateTime × String}
    {g : List (DateTime × String)} (h : y.2 = x.2) :
    (runStateOf spans (x :: g)).next y = runStateOf spans (x :: (g ++ [y])) := by
  simp [runStateOf, RunState.next, spanOf, h]

theorem next_runStateOf_of_ne {spans : List (String × Span)} {x y : DateTime × String}
    {g : List (DateTime × String)} (h : y.2 ≠ x.2) :
    (runStateOf spans (x :: g)).next y = runStateOf (spans ++ [spanOf (x :: g)]) [y] := by
  simp [runStateOf, RunState.next, RunState.close, spanOf, h]

/-- The loop closes one span for each run, the open one with the names still to come. -/
theorem close_foldl_next (spans : List (String × Span)) (x : DateTime × String)
    (g l : List (DateTime × String)) (hsame : Runs.SameKey Prod.snd (x :: g)) :
    (l.foldl RunState.next (runStateOf spans (x :: g))).close =
      spans ++ (Runs.runs Prod.snd ((x :: g) ++ l)).map spanOf := by
  induction l generalizing spans x g with
  | nil =>
    rw [List.append_nil, Runs.runs_of_sameKey (List.cons_ne_nil _ _) hsame]
    rfl
  | cons y l ih =>
    rw [List.foldl_cons]
    by_cases hy : y.2 = x.2
    · -- the name continues the run
      rw [next_runStateOf_of_eq hy, List.append_cons (x :: g) y l]
      exact ih spans x (g ++ [y]) (hsame.concat hy)
    · -- the name closes the run
      have hne : ∀ z ∈ x :: g, z.2 ≠ y.2 := fun z hz h =>
        hy (h.symm.trans (hsame z hz x List.mem_cons_self))
      rw [next_runStateOf_of_ne hy, Runs.runs_append_cons (List.cons_ne_nil _ _) hsame hne,
        ih _ y [] (.singleton y), List.append_assoc]
      rfl

/-- `build_attribution` lists the spans of the runs of names. -/
theorem spans_buildAttribution {A : Type} (results : List (String × HistoryResponse A))
    (symbol : String) : (buildAttribution results symbol).spans =
      (Runs.runs Prod.snd (tsToProvider results).entries).map spanOf := by
  rw [buildAttribution]
  split
  · next h => simp [h]
  · next firstTs provider iter h =>
    rw [h]
    exact close_foldl_next [] (firstTs, provider) [] iter (.singleton _)

section
variable {run : List (DateTime × String)}

theorem exists_mem_start (hne : run ≠ []) : ∃ x ∈ run, (spanOf run).2.start = x.1.timestamp := by
  cases run with
  | nil => exact absurd rfl hne
  | cons x rest => exact ⟨x, List.mem_cons_self, rfl⟩

theorem exists_mem_end (hne : run ≠ []) : ∃ x ∈ run, (spanOf run).2.end = x.1.timestamp := by
  cases run with
  | nil => exact absurd rfl hne
  | cons x rest => exact ⟨_, List.getLast_mem _, rfl⟩

/-- The span of a run in the order of time contains the run. -/
theorem contains_spanOf (hlt : run.Pairwise fun x y => x.1.timestamp < y.1.timestamp)
    {x : DateTime × String} (hx : x ∈ run) : (spanOf run).2.Contains x.1 := by
  cases run with
  | nil => simp at hx
  | cons y rest =>
    constructor
    · rcases List.mem_cons.1 hx with rfl | hx
      · exact le_rfl
      · exact ((List.pairwise_cons.1 hlt).1 x hx).le
    · have hle := hlt.imp fun {a b : DateTime × String} h => h.le
      have hlast : y :: rest = (y :: rest).dropLast ++ [(y :: rest).getLast (by simp)] :=
        (List.dropLast_append_getLast _).symm
      rw [hlast] at hx hle
      rcases List.mem_append.1 hx with hx | hx
      · exact (List.pairwise_append.1 hle).2.2 x hx _ (by simp)
      · rw [List.mem_singleton.1 hx]
        exact le_rfl

theorem fst_spanOf (hsame : Runs.SameKey Prod.snd run) {x : DateTime × String} (hx : x ∈ run) :
    (spanOf run).1 = x.2 := by
  cases run with
  | nil => simp at hx
  | cons y rest => exact hsame y List.mem_cons_self x hx

end

section
variable {l : List (DateTime × String)}

/-- The timestamps of each run are in order. -/
theorem pairwise_of_mem_runs (hlt : l.Pairwise fun x y => x.1.timestamp < y.1.timestamp)
    {run : List (DateTime × String)} (hrun : run ∈ Runs.runs Prod.snd l) :
    run.Pairwise fun x y => x.1.timestamp < y.1.timestamp := by
  rw [← Runs.flatten_runs Prod.snd l, List.pairwise_flatten] at hlt
  exact hlt.1 run hrun

/-- A span ends before the next starts. -/
theorem pairwise_map_spanOf (hlt : l.Pairwise fun x y => x.1.timestamp < y.1.timestamp) :
    ((Runs.runs Prod.snd l).map spanOf).Pairwise fun s t => s.2.end < t.2.start := by
  rw [← Runs.flatten_runs Prod.snd l, List.pairwise_flatten] at hlt
  refine List.pairwise_map.2 (hlt.2.imp_of_mem fun {r s} hr hs h => ?_)
  obtain ⟨x, hx, hend⟩ := exists_mem_end (Runs.ne_nil_of_mem_runs hr)
  obtain ⟨y, hy, hstart⟩ := exists_mem_start (Runs.ne_nil_of_mem_runs hs)
  rw [hend, hstart]
  exact h x hx y hy

/-- Consecutive spans have different names. -/
theorem isChain_map_spanOf (l : List (DateTime × String)) :
    ((Runs.runs Prod.snd l).map spanOf).IsChain fun s t => s.1 ≠ t.1 := by
  refine (List.isChain_map spanOf).2 ((Runs.isChain_runs _).imp_of_mem_imp ?_)
  intro r s hr hs h
  obtain ⟨x, hx⟩ := List.exists_mem_of_ne_nil r (Runs.ne_nil_of_mem_runs hr)
  obtain ⟨y, hy⟩ := List.exists_mem_of_ne_nil s (Runs.ne_nil_of_mem_runs hs)
  rw [fst_spanOf (Runs.sameKey_of_mem_runs hr) hx, fst_spanOf (Runs.sameKey_of_mem_runs hs) hy]
  exact h x hx y hy

end

/-- An instant lies in at most one of spans that follow each other. -/
theorem eq_of_contains {spans : List (String × Span)}
    (hascending : spans.Pairwise fun s t => s.2.end < t.2.start) {t : DateTime}
    {s s' : String × Span} (hs : s ∈ spans) (hs' : s' ∈ spans) (hst : s.2.Contains t)
    (hst' : s'.2.Contains t) : s = s' := by
  by_contra hne
  have happart : spans.Pairwise fun s t => s.2.end < t.2.start ∨ t.2.end < s.2.start :=
    hascending.imp fun h => .inl h
  have hsymm : Std.Symm fun s t : String × Span =>
      s.2.end < t.2.start ∨ t.2.end < s.2.start := ⟨fun _ _ => Or.symm⟩
  have := happart.forall hs hs' hne
  simp only [Span.Contains] at hst hst'
  omega

/-! ## Agreement with the merge -/

section
variable {A : Type}

/-- The candle is the one of provider `name`: the first candle of its timestamp in the first response
that has one. -/
def KeptFrom (results : List (String × HistoryResponse A)) (name : String) (c : Candle A) : Prop :=
  ∃ pre r post d, results = pre ++ (name, r) :: post ∧
    (∀ x ∈ pre, ∀ e ∈ x.2.candles, e.ts ≠ c.ts) ∧
    FirstOf r.candles d ∧ c = { d with closeUnadj := none }

/-- The spans attribute the candles to the results. -/
structure Attributes (results : List (String × HistoryResponse A)) (spans : List (String × Span))
    (candles : List (Candle A)) : Prop where
  /-- A span does not end before it starts. -/
  start_le : ∀ s ∈ spans, s.2.start ≤ s.2.end
  /-- A span ends before the next starts. -/
  ascending : spans.Pairwise fun s t => s.2.end < t.2.start
  /-- Consecutive spans name different providers. -/
  alternate : spans.IsChain fun s t => s.1 ≠ t.1
  /-- A candle lies in exactly one span. -/
  covers : ∀ c ∈ candles, ∃! s, s ∈ spans ∧ s.2.Contains c.ts
  /-- The span of a candle names the provider of the candle. -/
  kept : ∀ c ∈ candles, ∀ s ∈ spans, s.2.Contains c.ts → KeptFrom results s.1 c

/-- Different timestamps differ in their whole seconds. -/
def SecondsDistinct (candles : List (Candle A)) : Prop :=
  ∀ c ∈ candles, ∀ d ∈ candles, c.ts ≠ d.ts → c.ts.timestamp ≠ d.ts.timestamp

/-- The two first-wins maps are filled in step: the first candle of a timestamp comes from the
provider the timestamp is attributed to. -/
theorem firstOf_candlesOf {results : List (String × HistoryResponse A)} {d : Candle A}
    (h : FirstOf (candlesOf (results.map Prod.snd)) d) :
    ∃ name, (d.ts, name) ∈ (tsToProvider results).entries ∧
      KeptFrom results name { d with closeUnadj := none } := by
  suffices hfind : ∃ name, (namedTimestamps results).find? (fun x => x.1 = d.ts) = some (d.ts, name) ∧
      KeptFrom results name { d with closeUnadj := none } by
    obtain ⟨name, hfind, hkept⟩ := hfind
    exact ⟨name, OrdMap.mem_ofList.2 hfind, hkept⟩
  induction results with
  | nil => simp [FirstOf, candlesOf] at h
  | cons x rest ih =>
    obtain ⟨name, r⟩ := x
    have hnamed : namedTimestamps ((name, r) :: rest) =
        (r.candles.map fun c => (c.ts, name)) ++ namedTimestamps rest := rfl
    have hfind : (r.candles.map fun c => (c.ts, name)).find? (fun x => x.1 = d.ts) =
        (r.candles.find? fun c => c.ts = d.ts).map fun c => (c.ts, name) := List.find?_map
    have hcandles : candlesOf (((name, r) :: rest).map Prod.snd) =
        r.candles ++ candlesOf (rest.map Prod.snd) := rfl
    rw [FirstOf, hcandles, List.find?_append, Option.or_eq_some_iff] at h
    rw [hnamed, List.find?_append, hfind]
    rcases h with h | ⟨hnone, h⟩
    · exact ⟨name, by rw [h]; rfl, [], r, rest, d, rfl, by simp, h, rfl⟩
    · obtain ⟨name', hfind', pre, r', post, d', rfl, hpre, hd', heq⟩ := ih h
      refine ⟨name', by rw [hnone]; exact hfind', (name, r) :: pre, r', post, d', rfl, ?_, hd', heq⟩
      refine List.forall_mem_cons.2 ⟨fun e he => ?_, hpre⟩
      simpa using List.find?_eq_none.1 hnone e he

/-- The timestamps of the attribution are those of the candles. -/
theorem exists_ts_of_mem_tsToProvider {results : List (String × HistoryResponse A)}
    {x : DateTime × String} (h : x ∈ (tsToProvider results).entries) :
    ∃ c ∈ candlesOf (results.map Prod.snd), c.ts = x.1 := by
  have hmem := List.mem_of_find?_eq_some (OrdMap.mem_ofList.1 h)
  obtain ⟨⟨name, r⟩, hr, hx⟩ := List.mem_flatMap.1 hmem
  obtain ⟨c, hc, rfl⟩ := List.mem_map.1 hx
  exact ⟨c, List.mem_flatMap.2 ⟨r, List.mem_map.2 ⟨_, hr, rfl⟩, hc⟩, rfl⟩

/-- Where the merge succeeds and timestamps differ in whole seconds, the attribution agrees with the
merge. -/
theorem buildAttribution_attributes [LinearOrder A] [DefaultHasher A]
    {results : List (String × HistoryResponse A)} {out : HistoryResponse A} (symbol : String)
    (hmerge : mergeHistory (results.map Prod.snd) = .ok out)
    (hsecs : SecondsDistinct (candlesOf (results.map Prod.snd))) :
    Attributes results (buildAttribution results symbol).spans out.candles := by
  rw [spans_buildAttribution]
  have hlt : (tsToProvider results).entries.Pairwise
      fun x y => x.1.timestamp < y.1.timestamp := by
    refine (tsToProvider results).sorted.imp_of_mem fun {x y} hx hy h => ?_
    obtain ⟨c, hc, hcx⟩ := exists_ts_of_mem_tsToProvider hx
    obtain ⟨d, hd, hdy⟩ := exists_ts_of_mem_tsToProvider hy
    refine lt_of_le_of_ne (DateTime.timestamp_mono h.le) ?_
    rw [← hcx, ← hdy]
    exact hsecs c hc d hd (by rw [hcx, hdy]; exact h.ne)
  -- a candle lies in the span of the run of its timestamp
  have hcover : ∀ c ∈ out.candles, ∃ run ∈ Runs.runs Prod.snd (tsToProvider results).entries,
      (spanOf run).2.Contains c.ts ∧ KeptFrom results (spanOf run).1 c := by
    intro c hc
    obtain ⟨-, rfl⟩ := mergeHistory_eq_ok hmerge
    obtain ⟨d, hd, rfl⟩ := mem_candles_mergeStateOf.1 hc
    obtain ⟨name, hentry, hkept⟩ := firstOf_candlesOf hd
    obtain ⟨run, hrun, hmem⟩ := Runs.exists_mem_runs Prod.snd hentry
    refine ⟨run, hrun, contains_spanOf (pairwise_of_mem_runs hlt hrun) hmem, ?_⟩
    rw [fst_spanOf (Runs.sameKey_of_mem_runs hrun) hmem]
    exact hkept
  have hascending := pairwise_map_spanOf hlt
  refine ⟨?_, hascending, isChain_map_spanOf _, ?_, ?_⟩
  · intro s hs
    obtain ⟨run, hrun, rfl⟩ := List.mem_map.1 hs
    obtain ⟨x, hx⟩ := List.exists_mem_of_ne_nil run (Runs.ne_nil_of_mem_runs hrun)
    have hx' := contains_spanOf (pairwise_of_mem_runs hlt hrun) hx
    exact hx'.1.trans hx'.2
  · intro c hc
    obtain ⟨run, hrun, hin, -⟩ := hcover c hc
    refine ⟨spanOf run, ⟨List.mem_map_of_mem hrun, hin⟩, fun s' ⟨hs', hin'⟩ => ?_⟩
    exact eq_of_contains hascending hs' (List.mem_map_of_mem hrun) hin' hin
  · intro c hc s hs hin
    obtain ⟨run, hrun, hin', hkept⟩ := hcover c hc
    rw [eq_of_contains hascending hs (List.mem_map_of_mem hrun) hin hin']
    exact hkept

end

/-- The second provider fills a gap of the first. -/
theorem buildAttribution_attributes_gap :
    let price : Money ℕ := ⟨1, ⟨"USD"⟩⟩
    let at0 := Candle.flat (.ofTimestamp 0 (by decide)) price
    let at60 := Candle.flat (.ofTimestamp 60 (by decide)) price
    let at120 := Candle.flat (.ofTimestamp 120 (by decide)) price
    let results : List (String × HistoryResponse ℕ) :=
      [("av", ⟨[at120, at0], [], false, none⟩), ("yf", ⟨[at0, at60], [], false, none⟩)]
    Attributes results (buildAttribution results "X").spans [at0, at60, at120] := by
  intro price at0 at60 at120 results
  have hmerge : mergeHistory (results.map Prod.snd) =
      .ok ⟨[at0, at60, at120], [], false, none⟩ := rfl
  have hsecs : SecondsDistinct (candlesOf (results.map Prod.snd)) := by
    unfold SecondsDistinct
    decide
  exact buildAttribution_attributes "X" hmerge hsecs

end Borsa
