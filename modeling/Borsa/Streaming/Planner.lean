import Borsa.Core
import Borsa.Error

/-!
# The stream planner

`planner.rs`: which connectors may stream a group of instruments of one asset kind and one exchange,
in which order, and which symbols each of them may stream. The source has the scoring and the check
that follows an empty score three times, once for each kind of update; here both have the kind of
update as a parameter.
-/

set_option linter.dupNamespace false

namespace Borsa

variable {K E : Type} [DecidableEq K] [DecidableEq E]

/-- The providers of a group in the order of their scores. -/
structure EligibleStreamProviders (K : Type) where
  providers : List (Connector K)
  /-- Allowed symbols, aligned with `providers`. -/
  providerSymbols : List (Finset Symbol)
  unionSymbols : Finset Symbol

/-- What `eligible_*` records of a connector that may stream some symbol. -/
structure StreamProviderScore (K : Type) where
  minRank : Rank
  origIdx : ℕ
  connector : Connector K
  allowedSyms : Finset Symbol

/-- `sort` and then `dedup`. -/
def sortDedup (symbols : List Symbol) : List Symbol :=
  (SortKey.sortByKey Symbol.asStr symbols).eraseDups

theorem mem_sortDedup {symbols : List Symbol} {sym : Symbol} :
    sym ∈ sortDedup symbols ↔ sym ∈ symbols := by
  simp [sortDedup]

theorem nodup_sortDedup (symbols : List Symbol) : (sortDedup symbols).Nodup :=
  nodup_eraseDups _

/-- The context in which an instrument of a group is routed. -/
def instrumentContext (kind : K) (exchange : Option E) (inst : Instrument K E) :
    RoutingContext K E :=
  ⟨symbolOpt inst, some kind, (exchangeOpt inst).or exchange⟩

namespace Borsa

/-- The connectors that can stream the kind of update for the asset kind. -/
def streamCandidates (self : Borsa K E) (stream : StreamKind) (kind : K) : List (Connector K) :=
  self.connectors.filter fun c => c.canStream stream && c.supportsKind kind

/-- Whether the policy allows one of the connectors in a context. -/
def anyAllowed (self : Borsa K E) (candidates : List (Connector K)) (ctx : RoutingContext K E) :
    Bool :=
  candidates.any fun c => (self.cfg.routingPolicy.providers.providerRank ctx c.key).isSome

/-- `check_no_scored_*`: the error for a group that no connector may stream. -/
def checkNoScored (self : Borsa K E) (stream : StreamKind) (kind : K) (exchange : Option E)
    (instruments : List (Instrument K E)) : Except BorsaError (EligibleStreamProviders K) :=
  let candidates := self.streamCandidates stream kind
  let strictRejected :=
    if candidates.isEmpty then []
    else instruments.filterMap fun inst =>
      if self.anyAllowed candidates (instrumentContext kind exchange inst) then none
      else symbolOpt inst
  if strictRejected.isEmpty then .error (.unsupported stream.capability.asStr)
  else .error (.strictSymbolsRejected (sortDedup strictRejected))

/-- `check_no_scored_stream_providers`. -/
def checkNoScoredStreamProviders (self : Borsa K E) (kind : K) (exchange : Option E)
    (instruments : List (Instrument K E)) : Except BorsaError (EligibleStreamProviders K) :=
  self.checkNoScored .quotes kind exchange instruments

/-- `check_no_scored_candle_stream_providers`. -/
def checkNoScoredCandleStreamProviders (self : Borsa K E) (kind : K) (exchange : Option E)
    (instruments : List (Instrument K E)) : Except BorsaError (EligibleStreamProviders K) :=
  self.checkNoScored .candles kind exchange instruments

/-- `check_no_scored_option_stream_providers`. -/
def checkNoScoredOptionStreamProviders (self : Borsa K E) (kind : K) (exchange : Option E)
    (instruments : List (Instrument K E)) : Except BorsaError (EligibleStreamProviders K) :=
  self.checkNoScored .options kind exchange instruments

/-- One instrument in the score of a connector: its symbol is allowed and its rank counts towards the
minimum, unless the policy excludes the connector for it. -/
def scoreInstrument (self : Borsa K E) (kind : K) (exchange : Option E) (key : ConnectorKey)
    (score : Finset Symbol × Rank) (inst : Instrument K E) : Finset Symbol × Rank :=
  match self.cfg.routingPolicy.providers.providerRank (instrumentContext kind exchange inst) key with
  | some (rank, _) =>
    (match symbolOpt inst with
      | some sym => insert sym score.1
      | none => score.1,
      if rank < score.2 then rank else score.2)
  | none => score

/-- The score of one connector. -/
def scoreProvider (self : Borsa K E) (kind : K) (exchange : Option E)
    (instruments : List (Instrument K E)) (origIdx : ℕ) (connector : Connector K) :
    StreamProviderScore K :=
  let (allowedSyms, minRank) :=
    instruments.foldl (self.scoreInstrument kind exchange connector.key) (∅, ⊤)
  ⟨minRank, origIdx, connector, allowedSyms⟩

/-- The loop of `eligible_*` over the registered connectors. -/
def scored (self : Borsa K E) (stream : StreamKind) (kind : K) (exchange : Option E)
    (instruments : List (Instrument K E)) : List (StreamProviderScore K) :=
  self.connectors.zipIdx.filterMap fun (connector, origIdx) =>
    if !connector.canStream stream then none
    else if !connector.supportsKind kind then none
    else
      let score := self.scoreProvider kind exchange instruments origIdx connector
      if score.allowedSyms = ∅ then none else some score

/-- `eligible_*_for_context`: the connectors that may stream some symbol of the group, sorted by their
least rank and then by registration. -/
def eligibleForContext (self : Borsa K E) (stream : StreamKind) (kind : K) (exchange : Option E)
    (instruments : List (Instrument K E)) : Except BorsaError (EligibleStreamProviders K) :=
  let scored := self.scored stream kind exchange instruments
  if scored.isEmpty then self.checkNoScored stream kind exchange instruments
  else
    let scored := SortKey.sortByKey (fun s => toLex (s.minRank, s.origIdx)) scored
    .ok
      { providers := scored.map (·.connector)
        providerSymbols := scored.map (·.allowedSyms)
        unionSymbols := scored.foldl (fun union s => union ∪ s.allowedSyms) ∅ }

/-- `eligible_stream_providers_for_context`. -/
def eligibleStreamProvidersForContext (self : Borsa K E) (kind : K) (exchange : Option E)
    (instruments : List (Instrument K E)) : Except BorsaError (EligibleStreamProviders K) :=
  self.eligibleForContext .quotes kind exchange instruments

/-- `eligible_candle_stream_providers_for_context`. -/
def eligibleCandleStreamProvidersForContext (self : Borsa K E) (kind : K) (exchange : Option E)
    (instruments : List (Instrument K E)) : Except BorsaError (EligibleStreamProviders K) :=
  self.eligibleForContext .candles kind exchange instruments

/-- `eligible_option_stream_providers_for_context`. -/
def eligibleOptionStreamProvidersForContext (self : Borsa K E) (kind : K) (exchange : Option E)
    (instruments : List (Instrument K E)) : Except BorsaError (EligibleStreamProviders K) :=
  self.eligibleForContext .options kind exchange instruments

/-! ## Scores in closed form -/

section
variable (self : Borsa K E) (stream : StreamKind) (kind : K) (exchange : Option E)

/-- A connector's rank for a symbol of a group. -/
def symbolRank (sym : Symbol) (c : Connector K) : Option Rank :=
  (self.cfg.routingPolicy.providers.providerRank ⟨some sym, some kind, exchange⟩ c.key).map (·.1)

/-- The symbols that the policy lets a connector stream. -/
def allowedOf (syms : List Symbol) (c : Connector K) : Finset Symbol :=
  (syms.filter fun sym => (self.symbolRank kind exchange sym c).isSome).toFinset

/-- A connector's least rank over the symbols of a group. -/
def groupRank (syms : List Symbol) (c : Connector K) : Rank :=
  (syms.filterMap fun sym => self.symbolRank kind exchange sym c).foldl min ⊤

/-- Whether a connector may stream some symbol of the group. -/
def scorable (syms : List Symbol) (c : Connector K) : Bool :=
  c.canStream stream && c.supportsKind kind && decide (self.allowedOf kind exchange syms c ≠ ∅)

/-- The score of a connector at a position. -/
def scoreOf (syms : List Symbol) (x : Connector K × ℕ) : StreamProviderScore K :=
  ⟨self.groupRank kind exchange syms x.1, x.2, x.1, self.allowedOf kind exchange syms x.1⟩

/-- The connectors that may stream some symbol of the group, by least rank and then by
registration. -/
def scoredProviders (syms : List Symbol) : List (Connector K) :=
  (SortKey.sortByKey (SortKey.ranked (self.groupRank kind exchange syms))
    (self.connectors.zipIdx.filter fun x =>
      self.scorable stream kind exchange syms x.1)).map Prod.fst

/-- Whether the policy allows some capable connector to stream a symbol. -/
def routable (sym : Symbol) : Bool :=
  self.anyAllowed (self.streamCandidates stream kind) ⟨some sym, some kind, exchange⟩

variable {self stream kind exchange} {list : List (Instrument K E)}

theorem routable_iff {sym : Symbol} :
    self.routable stream kind exchange sym ↔
      ∃ c ∈ self.streamCandidates stream kind, (self.symbolRank kind exchange sym c).isSome := by
  simp [routable, anyAllowed, symbolRank]

theorem mem_allowedOf {syms : List Symbol} {c : Connector K} {sym : Symbol} :
    sym ∈ self.allowedOf kind exchange syms c ↔
      sym ∈ syms ∧ (self.symbolRank kind exchange sym c).isSome := by
  simp [allowedOf]

theorem scorable_iff {syms : List Symbol} {c : Connector K} :
    self.scorable stream kind exchange syms c ↔ (c.canStream stream ∧ c.supportsKind kind) ∧
      ∃ sym ∈ syms, (self.symbolRank kind exchange sym c).isSome := by
  simp only [scorable, Bool.and_eq_true, decide_eq_true_eq, ← Finset.nonempty_iff_ne_empty,
    Finset.Nonempty, mem_allowedOf]

theorem mem_scoredProviders {syms : List Symbol} {c : Connector K} :
    c ∈ self.scoredProviders stream kind exchange syms ↔
      c ∈ self.streamCandidates stream kind ∧
        ∃ sym ∈ syms, (self.symbolRank kind exchange sym c).isSome := by
  rw [scoredProviders, ((SortKey.sortByKey_perm _ _).map _).mem_iff,
    SortKey.map_fst_filter_zipIdx (self.scorable stream kind exchange syms), List.mem_filter,
    scorable_iff, streamCandidates, List.mem_filter, Bool.and_eq_true, and_assoc, and_assoc,
    and_assoc]

/-- The scoring loop over the instruments of a group. -/
theorem foldl_scoreInstrument {c : Connector K}
    (hsec : ∀ inst ∈ list, (symbolOpt inst).isSome) (hex : ∀ inst ∈ list, exchangeOpt inst = exchange)
    (score : Finset Symbol × Rank) :
    list.foldl (self.scoreInstrument kind exchange c.key) score =
      (score.1 ∪ self.allowedOf kind exchange (symbolsOf list) c,
        ((symbolsOf list).filterMap fun sym => self.symbolRank kind exchange sym c).foldl min
          score.2) := by
  induction list generalizing score with
  | nil => simp [symbolsOf, allowedOf]
  | cons inst list ih =>
    obtain ⟨sym, hsym⟩ := Option.isSome_iff_exists.1 (hsec inst (by simp))
    have hctx : instrumentContext kind exchange inst = ⟨some sym, some kind, exchange⟩ := by
      rw [instrumentContext, hsym, hex inst (by simp), Option.or_self]
    have hsyms : symbolsOf (inst :: list) = sym :: symbolsOf list := by
      simp [symbolsOf, hsym]
    rw [List.foldl_cons, ih (fun i hi => hsec i (by simp [hi])) (fun i hi => hex i (by simp [hi])),
      hsyms, scoreInstrument, hctx, hsym]
    cases hrank : self.cfg.routingPolicy.providers.providerRank ⟨some sym, some kind, exchange⟩
        c.key with
    | none =>
      have hnone : self.symbolRank kind exchange sym c = none := by rw [symbolRank, hrank]; rfl
      simp [allowedOf, hnone]
    | some rank =>
      have hsome : self.symbolRank kind exchange sym c = some rank.1 := by
        rw [symbolRank, hrank]; rfl
      have hmin : (if rank.1 < score.2 then rank.1 else score.2) = min score.2 rank.1 := by
        rw [min_comm, min_def_lt]
      simp [allowedOf, hsome, hmin, Finset.insert_union,
        Finset.union_insert]

/-- No connector is scored exactly when no symbol of the group can be routed. -/
theorem scoredProviders_eq_nil {syms : List Symbol} :
    self.scoredProviders stream kind exchange syms = [] ↔
      ∀ sym ∈ syms, self.routable stream kind exchange sym = false := by
  simp only [List.eq_nil_iff_forall_not_mem, mem_scoredProviders, ← Bool.not_eq_true, routable_iff]
  exact ⟨fun h sym hsym ⟨c, hc, hrank⟩ => h c ⟨hc, sym, hsym, hrank⟩,
    fun h c ⟨hc, sym, hsym, hrank⟩ => h sym hsym ⟨c, hc, hrank⟩⟩

omit [DecidableEq K] [DecidableEq E] in
theorem mem_foldl_union {scores : List (StreamProviderScore K)} {union : Finset Symbol}
    {sym : Symbol} :
    sym ∈ scores.foldl (fun union s => union ∪ s.allowedSyms) union ↔
      sym ∈ union ∨ ∃ s ∈ scores, sym ∈ s.allowedSyms := by
  induction scores generalizing union with
  | nil => simp
  | cons s scores ih => simp [ih, or_assoc]

/-- The symbols that some scored connector may stream are those that can be routed. -/
theorem exists_mem_allowedOf {syms : List Symbol} {sym : Symbol} :
    (∃ c ∈ self.scoredProviders stream kind exchange syms,
      sym ∈ self.allowedOf kind exchange syms c) ↔
        sym ∈ syms ∧ self.routable stream kind exchange sym := by
  simp only [mem_scoredProviders, mem_allowedOf, routable_iff]
  constructor
  · intro ⟨c, ⟨hc, _⟩, hsym, hrank⟩
    exact ⟨hsym, c, hc, hrank⟩
  · intro ⟨hsym, c, hc, hrank⟩
    exact ⟨c, ⟨hc, sym, hsym, hrank⟩, hsym, hrank⟩

variable (hsec : ∀ inst ∈ list, (symbolOpt inst).isSome)
  (hex : ∀ inst ∈ list, exchangeOpt inst = exchange)

include hsec hex

theorem scoreProvider_eq (origIdx : ℕ) (c : Connector K) :
    self.scoreProvider kind exchange list origIdx c =
      self.scoreOf kind exchange (symbolsOf list) (c, origIdx) := by
  rw [scoreProvider, foldl_scoreInstrument hsec hex, Finset.empty_union]
  rfl

/-- The connectors scored, with their scores. -/
theorem scored_eq :
    self.scored stream kind exchange list =
      (self.connectors.zipIdx.filter fun x =>
        self.scorable stream kind exchange (symbolsOf list) x.1).map
          (self.scoreOf kind exchange (symbolsOf list)) := by
  rw [scored, ← List.filterMap_eq_map, List.filterMap_filter]
  refine List.filterMap_congr fun ⟨c, origIdx⟩ _ => ?_
  dsimp only
  rw [scoreProvider_eq hsec hex]
  cases hc : c.canStream stream <;> cases hk : c.supportsKind kind <;>
    rcases eq_or_ne (self.allowedOf kind exchange (symbolsOf list) c) ∅ with hnil | hne <;>
    simp [scorable, scoreOf, *]

/-- The scores in order. -/
theorem sorted_scored :
    SortKey.sortByKey (fun s : StreamProviderScore K => toLex (s.minRank, s.origIdx))
      (self.scored stream kind exchange list) =
      (SortKey.sortByKey (SortKey.ranked (self.groupRank kind exchange (symbolsOf list)))
        (self.connectors.zipIdx.filter fun x =>
          self.scorable stream kind exchange (symbolsOf list) x.1)).map
            (self.scoreOf kind exchange (symbolsOf list)) := by
  rw [scored_eq hsec hex, SortKey.sortByKey_map]
  rfl

/-- The eligible providers of a group, if there are any. -/
theorem eligibleForContext_eq_ok
    (h : self.scoredProviders stream kind exchange (symbolsOf list) ≠ []) :
    self.eligibleForContext stream kind exchange list =
      .ok
        { providers := self.scoredProviders stream kind exchange (symbolsOf list)
          providerSymbols := (self.scoredProviders stream kind exchange (symbolsOf list)).map
            (self.allowedOf kind exchange (symbolsOf list))
          unionSymbols := ((symbolsOf list).filter (self.routable stream kind exchange)).toFinset } := by
  have hne : self.scored stream kind exchange list ≠ [] := by
    intro hnil
    rw [scored_eq hsec hex, List.map_eq_nil_iff] at hnil
    refine h ?_
    rw [scoredProviders, hnil]
    rfl
  rw [eligibleForContext, if_neg (by simpa using hne), sorted_scored hsec hex]
  dsimp only
  congr 2
  · rw [List.map_map]
    rfl
  · rw [List.map_map, scoredProviders, List.map_map]
    rfl
  · ext sym
    rw [mem_foldl_union, List.mem_toFinset, List.mem_filter, ← exists_mem_allowedOf, scoredProviders]
    simp [scoreOf]

/-- The symbols of a group that no capable connector may stream. -/
theorem filterMap_not_allowed :
    (list.filterMap fun inst =>
      if self.anyAllowed (self.streamCandidates stream kind) (instrumentContext kind exchange inst)
      then none else symbolOpt inst) =
      (symbolsOf list).filter fun sym => !self.routable stream kind exchange sym := by
  rw [symbolsOf, List.filter_filterMap]
  refine List.filterMap_congr fun inst hinst => ?_
  obtain ⟨sym, hsym⟩ := Option.isSome_iff_exists.1 (hsec inst hinst)
  have hctx : instrumentContext kind exchange inst = ⟨some sym, some kind, exchange⟩ := by
    rw [instrumentContext, hsym, hex inst hinst, Option.or_self]
  rw [hctx, hsym, ← routable]
  cases hroute : self.routable stream kind exchange sym <;> simp [Option.filter, hroute]

/-- Without a scored connector, planning fails: for want of a capable connector, or else because the
policy excludes every symbol. -/
theorem eligibleForContext_eq_error (hlist : list ≠ [])
    (h : self.scoredProviders stream kind exchange (symbolsOf list) = []) :
    self.eligibleForContext stream kind exchange list =
      if self.streamCandidates stream kind = [] then .error (.unsupported stream.capability.asStr)
      else .error (.strictSymbolsRejected (sortDedup (symbolsOf list))) := by
  have hscored : self.scored stream kind exchange list = [] := by
    rw [scoredProviders, List.map_eq_nil_iff] at h
    have hperm := SortKey.sortByKey_perm
      (fun s : StreamProviderScore K => toLex (s.minRank, s.origIdx))
      (self.scored stream kind exchange list)
    rw [sorted_scored hsec hex, h] at hperm
    exact hperm.symm.eq_nil
  have hall : (symbolsOf list).filter (fun sym => !self.routable stream kind exchange sym) =
      symbolsOf list := by
    refine List.filter_eq_self.2 fun sym hsym => ?_
    rw [scoredProviders_eq_nil.1 h sym hsym, Bool.not_false]
  have hsyms := symbolsOf_ne_nil hlist hsec
  rw [eligibleForContext, hscored, if_pos List.isEmpty_nil, checkNoScored]
  simp only [filterMap_not_allowed hsec hex, hall, List.isEmpty_iff]
  split
  · rfl
  · rfl

end

end Borsa

end Borsa
