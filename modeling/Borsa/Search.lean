import Borsa.Lib.Keyed
import Borsa.Lib.Picks
import Borsa.Fetch

/-!
# Search

`search` asks the providers of a kind all at once, merges what they find in routing order, and keeps
of the listings of each symbol the one whose exchange the routing policy prefers
(`dedup_search_results_by_exchange`). The listings are grouped in a hash map, whose order makes no
difference (`search_picks`).
-/

set_option linter.dupNamespace false

namespace Borsa

open SortKey

/-- A listing that a provider has found. -/
structure SearchResult (K E : Type) where
  instrument : Instrument K E
  name : Option String
  exchange : Option E
  kind : K

/-- The listings of a provider, or of the router. -/
structure SearchResponse (K E : Type) where
  results : List (SearchResult K E)

/-- What a search comes to. -/
structure SearchReport (K E : Type) where
  response : Option (SearchResponse K E)
  warnings : List BorsaError

section
variable {K E : Type}

/-- The symbol of a listing's instrument. -/
def SearchResult.symbol (r : SearchResult K E) : Option Symbol := symbolOpt r.instrument

/-! ## Groups of listings -/

/-- The first position in a group, or `usize::MAX`. -/
def groupFirstIndex (group : List (SearchResult K E × ℕ)) : Rank :=
  unwrapOrMax (group.map Prod.snd).min?

/-- The members of a group. -/
theorem mem_group {merged : List (SearchResult K E)} {sym : Symbol} {x : SearchResult K E × ℕ} :
    x ∈ merged.zipIdx.filter (fun x => x.1.symbol = some sym) ↔
      merged[x.2]? = some x.1 ∧ x.1.symbol = some sym := by
  rw [List.mem_filter, List.mem_zipIdx_iff_getElem?, decide_eq_true_iff]

/-- The first position in a group is where its symbol first appears. -/
theorem groupFirstIndex_eq {merged : List (SearchResult K E)} {sym : Symbol}
    {group : List (SearchResult K E × ℕ)} (hne : group ≠ [])
    (h : ∀ x, x ∈ group ↔ merged[x.2]? = some x.1 ∧ x.1.symbol = some sym) :
    groupFirstIndex group =
      WithTop.some (firstIndex SearchResult.symbol merged (some sym)) := by
  obtain ⟨x, hx⟩ := List.exists_mem_of_ne_nil group hne
  obtain ⟨hget, hsym⟩ := (h x).1 hx
  have hmin : (group.map Prod.snd).min? =
      some (firstIndex SearchResult.symbol merged (some sym)) := by
    rw [List.min?_eq_some_iff, ← hsym]
    constructor
    · obtain ⟨r, hr, hcls⟩ :=
        exists_getElem?_firstIndex SearchResult.symbol (List.mem_of_getElem? hget)
      exact List.mem_map.2 ⟨(r, _), (h _).2 ⟨hr, hcls.trans hsym⟩, rfl⟩
    · refine List.forall_mem_map.2 fun y hy => ?_
      obtain ⟨hy, hysym⟩ := (h y).1 hy
      rw [hsym, ← hysym]
      exact firstIndex_le hy
  rw [groupFirstIndex, hmin, unwrapOrMax]

/-! ## Answers of connectors -/

/-- What the loop over the answers has collected. -/
structure SearchState (K E : Type) where
  merged : List (SearchResult K E)
  errors : List BorsaError
  attemptedAny : Bool

/-- The answer of a connector: its name, whether it was asked, and what it came to. -/
abbrev SearchAnswer (K E : Type) := String × Bool × Except BorsaError (SearchResponse K E)

/-- One answer. -/
def SearchState.collect (st : SearchState K E) (answer : SearchAnswer K E) : SearchState K E :=
  let (name, attempted, res) := answer
  let st := if attempted then { st with attemptedAny := true } else st
  match res with
  | .ok sr => if attempted then { st with merged := st.merged ++ sr.results } else st
  | .error e =>
    if attempted then
      { st with errors := st.errors ++
          ((e.flatten.filter BorsaError.isActionable).map (tagErr name)) }
    else st

/-- The task of a connector. A connector that supports the kind and provides search is asked, and
`call` is its future. -/
def searchTask (req : SearchRequest K)
    (call : Connector K → SearchRequest K → Option (Fut (SearchResponse K E)))
    (c : Connector K) :
    SearchAnswer K E :=
  if req.kind.any fun k => !c.supportsKind k then (c.name, false, .ok ⟨[]⟩)
  else
    match call c req with
    | some fut => (c.name, true, providerCallWithTimeout c.name .search fut)
    | none => (c.name, false, .ok ⟨[]⟩)

/-- The listings in an answer. -/
def foundBy : SearchAnswer K E → List (SearchResult K E)
  | (_, true, .ok sr) => sr.results
  | _ => []

/-- The loop over the answers merges the listings found, and some connector was asked if there are
any. -/
theorem foldl_collect (answers : List (SearchAnswer K E)) :
    (answers.foldl SearchState.collect ⟨[], [], false⟩).merged = answers.flatMap foundBy ∧
      (answers.flatMap foundBy ≠ [] →
        (answers.foldl SearchState.collect ⟨[], [], false⟩).attemptedAny = true) := by
  induction answers using List.reverseRecOn with
  | nil => exact ⟨rfl, fun h => absurd rfl h⟩
  | append_singleton answers answer ih =>
    obtain ⟨name, attempted, res⟩ := answer
    rw [List.foldl_append, List.foldl_cons, List.foldl_nil, List.flatMap_append,
      List.flatMap_singleton]
    generalize answers.foldl SearchState.collect ⟨[], [], false⟩ = st at ih
    cases attempted with
    | false =>
      have hcollect : st.collect (name, false, res) = st := by cases res <;> rfl
      have hfound : foundBy (name, false, res) = [] := by cases res <;> rfl
      rwa [hcollect, hfound, List.append_nil]
    | true =>
      refine ⟨?_, fun _ => by cases res <;> rfl⟩
      rw [← ih.1]
      cases res with
      | error e => exact (List.append_nil _).symm
      | ok sr => rfl

/-- Truncates the results to the limit of a request. -/
def truncate (limit : Option ℕ) (merged : List (SearchResult K E)) : List (SearchResult K E) :=
  match limit with
  | some limit => if limit < merged.length then merged.take limit else merged
  | none => merged

/-- The first results, as many as the limit allows. -/
def limited (limit : Option ℕ) (results : List (SearchResult K E)) : List (SearchResult K E) :=
  match limit with
  | some limit => results.take limit
  | none => results

@[simp] theorem limited_nil (limit : Option ℕ) :
    limited limit ([] : List (SearchResult K E)) = [] := by
  cases limit with
  | none => rfl
  | some limit => exact List.take_nil

theorem truncate_eq (limit : Option ℕ) (results : List (SearchResult K E)) :
    truncate limit results = limited limit results := by
  cases limit with
  | none => rfl
  | some limit =>
    rw [truncate, limited]
    split
    · rfl
    · next h => exact (List.take_of_length_le (not_lt.1 h)).symm

/-! ## One listing for each symbol -/

variable [DecidableEq K] [DecidableEq E]

/-- The body of the loop over the groups: the first position in a group, and its best listing. -/
def selectBest (policy : RoutingPolicy K E) (kind : Option K)
    (entry : Symbol × List (SearchResult K E × ℕ)) : Option (Rank × SearchResult K E) :=
  let (sym, group) := entry
  let group := sortByKey (fun x =>
    let ctxKind := kind.or (some x.1.kind)
    policy.exchangeSortKey ⟨some sym, ctxKind, none⟩ x.1.exchange x.2) group
  let firstIndex := groupFirstIndex group
  -- no group is empty
  group.head?.map fun best => (firstIndex, best.1)

/-- `dedup_search_results_by_exchange`. -/
def Borsa.dedupSearchResultsByExchange (self : Borsa K E) (order : HashOrder) (kind : Option K)
    (merged : List (SearchResult K E)) : List (SearchResult K E) :=
  let grouped := Keyed.groupBy (fun x => x.1.symbol) merged.zipIdx
  let selected := (order.iter grouped).filterMap (selectBest self.cfg.routingPolicy kind)
  (sortByKey Prod.fst selected).map Prod.snd

/-! ## The search -/

/-- The answers of the connectors, in routing order. -/
def Borsa.searchAnswers (self : Borsa K E) (req : SearchRequest K)
    (call : Connector K → SearchRequest K → Option (Fut (SearchResponse K E))) :
    List (SearchAnswer K E) :=
  (self.orderedForKind req.kind).map (searchTask req call)

/-- `search`. The answers are all there before the deadline of the request, or not. -/
def Borsa.search (self : Borsa K E) (order : HashOrder) (inTime : Bool) (req : SearchRequest K)
    (call : Connector K → SearchRequest K → Option (Fut (SearchResponse K E))) :
    Except BorsaError (SearchReport K E) :=
  if !inTime then .error (.requestTimeout Capability.search.asStr)
  else
    let st := (self.searchAnswers req call).foldl SearchState.collect ⟨[], [], false⟩
    let merged := self.dedupSearchResultsByExchange order req.kind st.merged
    if !st.attemptedAny then .error (.unsupported Capability.search.asStr)
    else
      let merged := truncate req.limit merged
      if merged.isEmpty && !st.errors.isEmpty then
        .error (collapseErrors .search st.attemptedAny st.errors none)
      else .ok ⟨some ⟨merged⟩, st.errors⟩

/-! ## Preferred listings -/

/-- The list that ranks exchanges for a symbol and a kind: the symbol's, or else the kind's, or else
the global one. -/
def Preference.listFor {T : Type} (self : Preference K T) (symbol : Symbol) (kind : K) :
    Option (RankedList T) :=
  (self.bySymbol.lookup symbol).or ((self.byKind.lookup kind).or self.global)

/-- The position of a value in the list for a symbol and a kind; one that is not listed comes last. -/
def Preference.rankFor {T : Type} [DecidableEq T] (self : Preference K T) (symbol : Symbol)
    (kind : K) (value : T) : Rank :=
  unwrapOrMax ((self.listFor symbol kind).bind fun list => list.values.idxOf? value)

/-- The rank of a listing's exchange, where none comes last. Where the request has no kind, the
listing's own kind counts. -/
def listingRank (preferences : Preference K E) (kind : Option K) (r : SearchResult K E) : Rank :=
  match r.symbol, r.exchange with
  | some sym, some ex => preferences.rankFor sym (kind.getD r.kind) ex
  | _, _ => ⊤

/-- How the listings of a symbol compare: by the rank of the exchange, then those that name an
exchange first, then by position. -/
def listingKey (preferences : Preference K E) (kind : Option K) (x : SearchResult K E × ℕ) :
    Rank ×ₗ Bool ×ₗ ℕ :=
  toLex (listingRank preferences kind x.1, toLex (x.1.exchange.isNone, x.2))

/-- The result of a search of the listings found, without a limit: of each security's symbol the
preferred listing, in the order in which the symbols first appear. -/
abbrev PicksListings (preferences : Preference K E) (kind : Option K)
    (merged out : List (SearchResult K E)) : Prop :=
  Picks SearchResult.symbol (listingKey preferences kind) merged out

theorem resolveRankMap_eq_listFor {T : Type} (p : Preference K T) (symbol : Symbol) (kind : K) :
    p.resolveRankMap (some symbol) (some kind) = (p.listFor symbol kind).map RankedList.ranks := by
  rw [Preference.resolveRankMap, Preference.listFor, Option.bind_some, Option.bind_some]
  cases p.bySymbol.lookup symbol with
  | some list => rfl
  | none => cases p.byKind.lookup kind <;> rfl

/-- The key that the code sorts by, for the listings of a symbol. -/
theorem exchangeSortKey_eq (policy : RoutingPolicy K E) (kind : Option K) {r : SearchResult K E}
    {sym : Symbol} (h : r.symbol = some sym) (i : ℕ) :
    policy.exchangeSortKey ⟨some sym, kind.or (some r.kind), none⟩ r.exchange i =
      toLex (listingRank policy.exchanges kind r,
        toLex (if r.exchange.isSome then 0 else ⊤, toLex (⊤, i))) := by
  have hkind : kind.or (some r.kind) = some (kind.getD r.kind) := by cases kind <;> rfl
  have hrank : ∀ ex, (((policy.exchanges.listFor sym (kind.getD r.kind)).map RankedList.ranks).bind
      fun m => m ex) = (policy.exchanges.listFor sym (kind.getD r.kind)).bind
        fun list => list.values.idxOf? ex := by
    intro ex
    rw [Option.bind_map]
    exact congrArg _ (funext fun list => list.ranks_eq_idxOf? ex)
  rw [RoutingPolicy.exchangeSortKey, listingRank, h, hkind, resolveRankMap_eq_listFor]
  cases r.exchange with
  | none => rfl
  | some ex => simp [hrank, Preference.rankFor]

/-- The code compares the listings of a symbol by `listingKey`. -/
theorem exchangeSortKey_le_iff (policy : RoutingPolicy K E) (kind : Option K)
    {x y : SearchResult K E × ℕ} {sym : Symbol} (hx : x.1.symbol = some sym)
    (hy : y.1.symbol = some sym) :
    policy.exchangeSortKey ⟨some sym, kind.or (some x.1.kind), none⟩ x.1.exchange x.2 ≤
        policy.exchangeSortKey ⟨some sym, kind.or (some y.1.kind), none⟩ y.1.exchange y.2 ↔
      listingKey policy.exchanges kind x ≤ listingKey policy.exchanges kind y := by
  rw [exchangeSortKey_eq policy kind hx, exchangeSortKey_eq policy kind hy, listingKey, listingKey]
  simp only [Prod.Lex.toLex_le_toLex]
  cases x.1.exchange <;> cases y.1.exchange <;> simp

theorem listingKey_snd (preferences : Preference K E) (kind : Option K)
    (x y : SearchResult K E × ℕ)
    (h : listingKey preferences kind x = listingKey preferences kind y) : x.2 = y.2 := by
  have h := congrArg ofLex h
  simp only [listingKey, ofLex_toLex, Prod.mk.injEq, EmbeddingLike.apply_eq_iff_eq] at h
  exact h.2.2

/-! ## What the search picks -/

/-- Of a group the first position and the best listing are selected. -/
theorem exists_selectBest (policy : RoutingPolicy K E) (kind : Option K)
    {merged : List (SearchResult K E)} {entry : Symbol × List (SearchResult K E × ℕ)}
    (h : entry ∈ Keyed.groupBy (fun x => x.1.symbol) merged.zipIdx) :
    ∃ r i, selectBest policy kind entry =
        some (WithTop.some (firstIndex SearchResult.symbol merged (some entry.1)), r) ∧
      r.symbol = some entry.1 ∧
      IsLeastAt SearchResult.symbol (listingKey policy.exchanges kind) merged (r, i) := by
  obtain ⟨sym, group⟩ := entry
  obtain ⟨hgroup, hne⟩ := (Keyed.mem_groupBy _ _).1 h
  have hmem : ∀ x, x ∈ group ↔ merged[x.2]? = some x.1 ∧ x.1.symbol = some sym :=
    fun x => hgroup ▸ mem_group
  let key (x : SearchResult K E × ℕ) : Rank ×ₗ Rank ×ₗ Rank ×ₗ ℕ :=
    policy.exchangeSortKey ⟨some sym, kind.or (some x.1.kind), none⟩ x.1.exchange x.2
  have hsorted : ∀ x, x ∈ sortByKey key group ↔ x ∈ group := fun x => mem_sortByKey
  have hne : sortByKey key group ≠ [] := fun hnil =>
    hne ((sortByKey_perm key group).symm.trans (.of_eq hnil)).eq_nil
  obtain ⟨best, hbest⟩ := Option.isSome_iff_exists.1 (List.isSome_head?.2 hne)
  obtain ⟨hget, hsym⟩ := (hmem best).1 ((hsorted best).1 (List.mem_of_head? hbest))
  have hfirst := groupFirstIndex_eq hne fun x => (hsorted x).trans (hmem x)
  refine ⟨best.1, best.2, ?_, hsym, hget, fun y hy hysym => ?_⟩
  · show (sortByKey key group).head?.map _ = _
    rw [hbest, Option.map_some, hfirst]
  · have hysym : y.1.symbol = some sym := hysym.trans hsym
    exact (exchangeSortKey_le_iff policy kind hsym hysym).1
      (key_head_le hbest ((hmem y).2 ⟨hy, hysym⟩))

/-- Whatever the order of the hash map, the listings that remain are the preferred ones. -/
theorem dedup_picksListings (self : Borsa K E) (order : HashOrder) (kind : Option K)
    (merged : List (SearchResult K E)) :
    PicksListings self.cfg.routingPolicy.exchanges kind merged
      (self.dedupSearchResultsByExchange order kind merged) := by
  have hperm := order.perm (Keyed.groupBy (fun x => x.1.symbol) merged.zipIdx)
  refine picks_of_groups Prod.fst ?_ (fun sym => ⟨?_, ?_⟩) fun entry hentry => ?_
  · exact (hperm.map Prod.fst).nodup_iff.2 (Keyed.nodup_keys_groupBy _ _)
  · rintro ⟨⟨sym, group⟩, hgroup, rfl⟩
    obtain ⟨rfl, hne⟩ := (Keyed.mem_groupBy _ _).1 (hperm.mem_iff.1 hgroup)
    obtain ⟨x, hx⟩ := List.exists_mem_of_ne_nil _ hne
    obtain ⟨hget, hsym⟩ := mem_group.1 hx
    exact ⟨x.1, List.mem_of_getElem? hget, hsym⟩
  · rintro ⟨r, hr, hsym⟩
    obtain ⟨i, hi⟩ := List.mem_iff_getElem?.1 hr
    have hmem : (r, i) ∈ merged.zipIdx.filter fun x => x.1.symbol = some sym :=
      mem_group.2 ⟨hi, hsym⟩
    have hgroup := (Keyed.mem_groupBy (fun x : SearchResult K E × ℕ => x.1.symbol) _).2
      ⟨rfl, List.ne_nil_of_mem hmem⟩
    exact ⟨_, hperm.mem_iff.2 hgroup, rfl⟩
  · exact exists_selectBest self.cfg.routingPolicy kind (hperm.mem_iff.1 hentry)

/-- The listings that the providers found, in routing order. -/
def Borsa.found (self : Borsa K E) (req : SearchRequest K)
    (call : Connector K → SearchRequest K → Option (Fut (SearchResponse K E))) :
    List (SearchResult K E) :=
  (self.searchAnswers req call).flatMap foundBy

/-- A search that returns gives the first of the listings that remain. -/
theorem response_of_search {self : Borsa K E} {order : HashOrder} {inTime : Bool}
    {req : SearchRequest K} {call : Connector K → SearchRequest K → Option (Fut (SearchResponse K E))}
    {report : SearchReport K E} (h : self.search order inTime req call = .ok report) :
    report.response = some ⟨limited req.limit
      (self.dedupSearchResultsByExchange order req.kind (self.found req call))⟩ := by
  rw [Borsa.found, ← (foldl_collect (self.searchAnswers req call)).1, ← truncate_eq]
  simp only [Borsa.search] at h
  split at h
  · cases h
  · split at h
    · cases h
    · split at h
      · cases h
      · obtain rfl := Except.ok.inj h
        rfl

/-- A search that has found something returns. -/
theorem exists_search_eq_ok {self : Borsa K E} {order : HashOrder} {req : SearchRequest K}
    {call : Connector K → SearchRequest K → Option (Fut (SearchResponse K E))}
    (hfound : self.found req call ≠ [])
    (hne : limited req.limit
      (self.dedupSearchResultsByExchange order req.kind (self.found req call)) ≠ []) :
    ∃ report, self.search order true req call = .ok report := by
  obtain ⟨hmerged, hattempted⟩ := foldl_collect (self.searchAnswers req call)
  rw [Borsa.found, ← hmerged, ← truncate_eq] at hne
  have hempty := List.isEmpty_eq_false_iff.2 hne
  exact ⟨_, by simp [Borsa.search, hattempted hfound, hempty]; rfl⟩

/-- For every list of listings found there is one list of the preferred listings, each symbol's, in
the order in which the symbols first appear. Whatever the order of the hash map, the duplicates are
removed so, and the search returns the first of these listings, as many as its limit allows; it does
return when there are any. -/
theorem search_picks (self : Borsa K E) (kind : Option K) (merged : List (SearchResult K E)) :
    ∃ picks, (∀ out, PicksListings self.cfg.routingPolicy.exchanges kind merged out ↔ out = picks) ∧
      (∀ order, self.dedupSearchResultsByExchange order kind merged = picks) ∧
      ∀ req call, req.kind = kind → self.found req call = merged → ∀ order,
        (∀ inTime report, self.search order inTime req call = .ok report →
          report.response = some ⟨limited req.limit picks⟩) ∧
        (limited req.limit picks ≠ [] → ∃ report, self.search order true req call = .ok report) := by
  have hpicks := fun order => dedup_picksListings self order kind merged
  have hkey := listingKey_snd self.cfg.routingPolicy.exchanges kind
  have hdedup : ∀ order, self.dedupSearchResultsByExchange order kind merged =
      self.dedupSearchResultsByExchange .insertion kind merged :=
    fun order => (hpicks order).unique hkey (hpicks .insertion)
  refine ⟨self.dedupSearchResultsByExchange .insertion kind merged, fun out => ⟨fun h => ?_, ?_⟩,
    hdedup, fun req call hkind hfound order => ⟨fun inTime report h => ?_, fun hne => ?_⟩⟩
  · exact h.unique hkey (hpicks .insertion)
  · rintro rfl
    exact hpicks .insertion
  · rw [response_of_search h, hkind, hfound, hdedup]
  · have hsome : self.found req call ≠ [] := by
      intro hnil
      have hdedupNil : self.dedupSearchResultsByExchange .insertion kind [] = [] := rfl
      rw [← hfound, hnil, hdedupNil] at hne
      exact hne (limited_nil req.limit)
    refine exists_search_eq_ok hsome ?_
    rwa [hkind, hfound, hdedup]

end

end Borsa
