import Borsa.Lib.Keyed
import Borsa.Streaming.Controller
import Borsa.Streaming.Planner

/-!
# The stream plan

`stream_updates_with_backoff` up to the point where its supervisors run: the instruments are grouped
by asset kind and exchange, each group's providers are scored, and one supervisor is planned for each
primary provider of the group, or one for the whole group when the policy ranks no provider
explicitly.

The source fills hash maps and hash sets and iterates over them. Their iteration orders are
parameters here. The supervisors planned so far are the running list of the loop over the groups;
each gets a fresh channel for its initial notification.
-/

set_option linter.dupNamespace false

namespace Borsa

variable {K E : Type} [DecidableEq K] [DecidableEq E]

/-- The group of an instrument. -/
def groupKey (inst : Instrument K E) : K × Option E := (inst.kind, exchangeOpt inst)

/-- `by_group`: the instruments of each kind and exchange. -/
def byGroup (instruments : List (Instrument K E)) :
    List ((K × Option E) × List (Instrument K E)) :=
  Keyed.groupBy (fun inst => some (groupKey inst)) instruments

/-- The groups hold the instruments of one kind and exchange, and none is empty. -/
theorem mem_byGroup {instruments : List (Instrument K E)} {key : K × Option E}
    {list : List (Instrument K E)} : (key, list) ∈ byGroup instruments ↔
      list = instruments.filter (fun inst => groupKey inst = key) ∧ list ≠ [] := by
  rw [byGroup, Keyed.mem_groupBy]
  simp only [Option.some_inj]

theorem exchangeOpt_of_byGroup {instruments : List (Instrument K E)} {kind : K} {ex : Option E}
    {list : List (Instrument K E)} (h : ((kind, ex), list) ∈ byGroup instruments) :
    ∀ inst ∈ list, exchangeOpt inst = ex := by
  intro inst hinst
  rw [(mem_byGroup.1 h).1, List.mem_filter, decide_eq_true_eq] at hinst
  exact congrArg Prod.snd hinst.2

/-- `list_pairs`: each instrument with its symbol. Only securities can be streamed. -/
def listPairs : List (Instrument K E) → Except BorsaError (List (Instrument K E × Symbol))
  | [] => .ok []
  | inst :: rest =>
    match symbolOpt inst with
    | none => .error (.unsupported "instrument scheme (stream/security-only)")
    | some sym =>
      match listPairs rest with
      | .error e => .error e
      | .ok pairs => .ok ((inst, sym) :: pairs)

/-- `chain_indices`: the primary, then the other providers in order. -/
def chainIndices (providers primaryIdx : ℕ) : List ℕ :=
  primaryIdx :: (List.range providers).filter fun j => j != primaryIdx

/-- The parameters of one supervisor, with the instruments each provider of the chain is assigned. -/
def supervisorParams (stream : StreamKind) (resolvedBackoff : BackoffConfig) (channel : ℕ)
    (pairs : List (Instrument K E × Symbol)) (providers : List (Connector K))
    (providerAllow : List (Finset Symbol)) (requiredSymbols : Finset Symbol) :
    KindSupervisorParams K E where
  providers := providers
  providerInstruments := providerAllow.map fun allow =>
    (pairs.filter fun x => decide (x.2 ∈ allow)).map (·.1)
  providerAllow := providerAllow
  requiredSymbols := requiredSymbols
  minBackoffMs := resolvedBackoff.minBackoffMs
  maxBackoffMs := resolvedBackoff.maxBackoffMs
  factor := max resolvedBackoff.factor 1
  initialNotify := some ⟨channel⟩
  kind := stream

namespace Borsa

/-- The `eligible_fn` that each `stream_*` entry point passes. -/
def eligibleFn (self : Borsa K E) (stream : StreamKind) (kind : K) (exchange : Option E)
    (list : List (Instrument K E)) : Except BorsaError (EligibleStreamProviders K) :=
  match stream with
  | .quotes => self.eligibleStreamProvidersForContext kind exchange list
  | .candles => self.eligibleCandleStreamProvidersForContext kind exchange list
  | .options => self.eligibleOptionStreamProvidersForContext kind exchange list

/-- `group_has_explicit`: whether a rule lists some provider for some symbol of the group. -/
def groupHasExplicit (self : Borsa K E) (kind : K) (ex : Option E)
    (pairs : List (Instrument K E × Symbol)) (providers : List (Connector K)) : Bool :=
  pairs.any fun x => providers.any fun p =>
    match self.cfg.routingPolicy.providers.providerRank ⟨some x.2, some kind, ex⟩ p.key with
    | some (rank, _) => decide (rank ≠ ⊤)
    | none => false

/-- `ranked`: the ranks of the providers allowed for a symbol, with their positions. -/
def ranked (self : Borsa K E) (kind : K) (ex : Option E) (eligible : EligibleStreamProviders K)
    (sym : Symbol) : List (Rank × ℕ) :=
  eligible.providers.zipIdx.filterMap fun (p, idx) =>
    if !(eligible.providerSymbols[idx]?).any fun set => decide (sym ∈ set) then none
    else
      (self.cfg.routingPolicy.providers.providerRank ⟨some sym, some kind, ex⟩ p.key).map
        fun (rank, _) => (rank, idx)

/-- `best_idx`: the provider that `primary_groups` files a symbol under. -/
def bestIdx (self : Borsa K E) (kind : K) (ex : Option E) (eligible : EligibleStreamProviders K)
    (sym : Symbol) : Option ℕ :=
  if sym ∉ eligible.unionSymbols then none
  else (SortKey.sortByKey toLex (self.ranked kind ex eligible sym)).head?.map (·.2)

/-- The supervisors of a group with explicit preferences: one for each primary provider, with the
other providers as its fallbacks. -/
def planPrimaries (self : Borsa K E) (stream : StreamKind) (resolvedBackoff : BackoffConfig)
    (order : HashOrder) (channels : ℕ) (kind : K) (ex : Option E)
    (eligible : EligibleStreamProviders K) (pairs : List (Instrument K E × Symbol))
    (requested : List Symbol) : List (KindSupervisorParams K E) :=
  let primaryGroups := Keyed.groupBy (self.bestIdx kind ex eligible) requested
  (order.iter primaryGroups).mapIdx fun i (primaryIdx, groupSyms) =>
    let chain := chainIndices eligible.providers.length primaryIdx
    supervisorParams stream resolvedBackoff (channels + i) pairs
      (chain.filterMap fun origIdx => eligible.providers[origIdx]?)
      (chain.map fun origIdx =>
        ((eligible.providerSymbols[origIdx]?).getD ∅).filter fun s => s ∈ groupSyms.toFinset)
      groupSyms.toFinset

/-- The supervisor of a group without explicit preferences. -/
def planFallback (stream : StreamKind) (resolvedBackoff : BackoffConfig) (channels : ℕ)
    (eligible : EligibleStreamProviders K) (pairs : List (Instrument K E × Symbol)) :
    List (KindSupervisorParams K E) :=
  [supervisorParams stream resolvedBackoff channels pairs eligible.providers
    eligible.providerSymbols
    ((pairs.filter fun x => decide (x.2 ∈ eligible.unionSymbols)).map (·.2)).toFinset]

/-- `strict_filtered`: the symbols that no provider may stream although some provider is capable. -/
def strictFiltered (self : Borsa K E) (stream : StreamKind) (kind : K) (ex : Option E)
    (eligible : EligibleStreamProviders K) (requested : List Symbol) : List Symbol :=
  let rejected := requested.filter fun sym => decide (sym ∉ eligible.unionSymbols)
  let candidates := self.streamCandidates stream kind
  rejected.filter fun sym =>
    !candidates.isEmpty && !self.anyAllowed candidates ⟨some sym, some kind, ex⟩

/-- The body of the loop over the groups. -/
def planGroup (self : Borsa K E) (stream : StreamKind) (resolvedBackoff : BackoffConfig)
    (order : HashOrder) (channels : ℕ) (kind : K) (ex : Option E) (list : List (Instrument K E)) :
    Except BorsaError (List (KindSupervisorParams K E)) :=
  match self.eligibleFn stream kind ex list with
  | .error e => .error e
  | .ok eligible =>
    if eligible.unionSymbols = ∅ then .ok []
    else
      match listPairs list with
      | .error e => .error e
      | .ok pairs =>
        let requested := order.iter (pairs.map (·.2)).eraseDups
        let strictFiltered := self.strictFiltered stream kind ex eligible requested
        if !strictFiltered.isEmpty then .error (.strictSymbolsRejected strictFiltered)
        else if self.groupHasExplicit kind ex pairs eligible.providers then
          .ok (self.planPrimaries stream resolvedBackoff order channels kind ex eligible pairs
            requested)
        else .ok (planFallback stream resolvedBackoff channels eligible pairs)

/-- The loop over the groups. -/
def planGroups (self : Borsa K E) (stream : StreamKind) (resolvedBackoff : BackoffConfig)
    (orders : K × Option E → HashOrder) :
    List ((K × Option E) × List (Instrument K E)) → List (KindSupervisorParams K E) →
      Except BorsaError (List (KindSupervisorParams K E))
  | [], joins => .ok joins
  | ((kind, ex), list) :: rest, joins =>
    match self.planGroup stream resolvedBackoff (orders (kind, ex)) joins.length kind ex list with
    | .error e => .error e
    | .ok plan => self.planGroups stream resolvedBackoff orders rest (joins ++ plan)

/-- `stream_updates_with_backoff`, up to the supervisors it spawns. -/
def planStreams (self : Borsa K E) (stream : StreamKind) (backoffOverride : Option BackoffConfig)
    (order : HashOrder) (orders : K × Option E → HashOrder) (instruments : List (Instrument K E)) :
    Except BorsaError (List (KindSupervisorParams K E)) :=
  if instruments.isEmpty then .error (.invalidArg "instruments list cannot be empty")
  else
    let resolvedBackoff := (backoffOverride.or self.cfg.backoff).getD .default
    self.planGroups stream resolvedBackoff orders (order.iter (byGroup instruments)) []

end Borsa

end Borsa
