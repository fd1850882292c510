import Borsa.Streaming.Plan

/-!
# The stream plan and the routing policy

What the plan of a group is (`Planned`): each supervisor's chain starts at the provider that the
policy ranks best for every symbol the supervisor requires, and continues with the group's other
providers in the order of their scores. A group is planned exactly when each of its symbols can be
routed (`planGroup_ok`, `planGroup_rejected`, `planGroup_unsupported`).
-/

set_option linter.dupNamespace false

namespace Borsa

variable {K E : Type}

/-! ## Chains -/

theorem filterMap_getElem?_range {α : Type} (l : List α) :
    (List.range l.length).filterMap (fun i => l[i]?) = l := by
  induction l with
  | nil => rfl
  | cons a l ih =>
    rw [List.length_cons, List.range_succ_eq_map, List.filterMap_cons]
    simpa [List.filterMap_map, Function.comp_def] using ih

/-- The chain of a primary provider: the primary, then the others in order. -/
theorem filterMap_chainIndices {α : Type} {l : List α} {p : ℕ} {a : α} (h : l[p]? = some a) :
    (chainIndices l.length p).filterMap (fun i => l[i]?) = a :: l.eraseIdx p := by
  have htail : ((List.range l.length).filter fun j => j != p).filterMap (fun i => l[i]?) =
      l.eraseIdx p := by
    clear h
    induction l generalizing p with
    | nil => rfl
    | cons b l ih =>
      rw [List.length_cons, List.range_succ_eq_map, List.filter_cons]
      cases p with
      | zero =>
        simpa [List.filter_map, List.filterMap_map, Function.comp_def] using
          filterMap_getElem?_range l
      | succ p =>
        simpa [List.filter_map, List.filterMap_map, Function.comp_def] using ih
  rw [chainIndices, List.filterMap_cons, h, htail]

theorem lt_of_mem_chainIndices {n p i : ℕ} (hp : p < n) (hi : i ∈ chainIndices n p) : i < n := by
  rcases List.mem_cons.1 hi with rfl | hi
  · exact hp
  · exact List.mem_range.1 (List.mem_of_mem_filter hi)

/-- Reading two aligned lists at positions in range keeps them aligned. -/
theorem map_getElem?_map {α β γ : Type} {l : List α} {f : α → β} {g : Option β → γ} {is : List ℕ}
    (h : ∀ i ∈ is, i < l.length) :
    (is.map fun i => g (l.map f)[i]?) = (is.filterMap fun i => l[i]?).map fun a => g (some (f a)) := by
  induction is with
  | nil => rfl
  | cons i is ih =>
    obtain ⟨a, ha⟩ : ∃ a, l[i]? = some a := ⟨_, List.getElem?_eq_getElem (h i (by simp))⟩
    rw [List.map_cons, List.filterMap_cons, ha, ih fun j hj => h j (by simp [hj])]
    simp [ha]

/-! ## Pairs -/

theorem listPairs_eq {list : List (Instrument K E)} (h : ∀ inst ∈ list, (symbolOpt inst).isSome) :
    ∃ pairs, listPairs list = .ok pairs ∧ pairs.map (·.2) = symbolsOf list := by
  induction list with
  | nil => exact ⟨[], rfl, rfl⟩
  | cons inst list ih =>
    obtain ⟨sym, hsym⟩ := Option.isSome_iff_exists.1 (h inst (by simp))
    obtain ⟨pairs, hpairs, hmap⟩ := ih fun i hi => h i (by simp [hi])
    refine ⟨(inst, sym) :: pairs, by rw [listPairs, hsym, hpairs], ?_⟩
    rw [List.map_cons, hmap, symbolsOf, symbolsOf, List.filterMap_cons, hsym]

theorem isSome_of_listPairs {list : List (Instrument K E)}
    {pairs : List (Instrument K E × Symbol)} (h : listPairs list = .ok pairs) :
    ∀ inst ∈ list, (symbolOpt inst).isSome := by
  induction list generalizing pairs with
  | nil => simp
  | cons inst list ih =>
    rw [listPairs] at h
    cases hsym : symbolOpt inst with
    | none =>
      rw [hsym] at h
      cases h
    | some sym =>
      rw [hsym] at h
      cases hrest : listPairs list with
      | error e =>
        rw [hrest] at h
        cases h
      | ok rest =>
        intro i hi
        rcases List.mem_cons.1 hi with rfl | hi
        · rw [hsym, Option.isSome_some]
        · exact ih hrest i hi

variable [DecidableEq K] [DecidableEq E]

namespace Borsa

section
variable (self : Borsa K E) (stream : StreamKind) (kind : K) (ex : Option E)

/-- What `eligible_*` returns for a group of these symbols that has a scored connector. -/
def eligibleOf (syms : List Symbol) : EligibleStreamProviders K where
  providers := self.scoredProviders stream kind ex syms
  providerSymbols := (self.scoredProviders stream kind ex syms).map (self.allowedOf kind ex syms)
  unionSymbols := (syms.filter (self.routable stream kind ex)).toFinset

/-- The provider at position `p` ranks best for a symbol: by its rank first, then by its score. -/
def Leads (providers : List (Connector K)) (sym : Symbol) (p : ℕ) : Prop :=
  ∃ c rank, providers[p]? = some c ∧ self.symbolRank kind ex sym c = some rank ∧
    ∀ q c' rank', providers[q]? = some c' → self.symbolRank kind ex sym c' = some rank' →
      toLex (rank, p) ≤ toLex (rank', q)

/-- A supervisor planned for a group of these symbols. -/
structure Planned (borsa : Borsa K E) (stream : StreamKind) (kind : K) (ex : Option E)
    (syms : List Symbol) (params : KindSupervisorParams K E) : Prop where
  required : ∀ sym ∈ params.requiredSymbols, sym ∈ syms
  allow : params.providerAllow = params.providers.map fun c =>
    (borsa.allowedOf kind ex syms c).filter fun sym => sym ∈ params.requiredSymbols
  chain : ∃ p c, (borsa.scoredProviders stream kind ex syms)[p]? = some c ∧
    params.providers = c :: (borsa.scoredProviders stream kind ex syms).eraseIdx p ∧
    ∀ sym ∈ params.requiredSymbols,
      borsa.Leads kind ex (borsa.scoredProviders stream kind ex syms) sym p

variable {self stream kind ex} {syms : List Symbol} {list : List (Instrument K E)}

/-- The supervisor at position `i` of a plan requires the symbol. -/
def Requires (plan : List (KindSupervisorParams K E)) (sym : Symbol) (i : ℕ) : Prop :=
  ∃ params, plan[i]? = some params ∧ sym ∈ params.requiredSymbols

theorem eligibleFn_eq : self.eligibleFn stream = self.eligibleForContext stream := by
  cases stream <;> rfl

/-! ## The primary of a symbol -/

theorem mem_ranked {sym : Symbol} (hsym : sym ∈ syms) {rank : Rank} {p : ℕ} :
    (rank, p) ∈ self.ranked kind ex (self.eligibleOf stream kind ex syms) sym ↔
      ∃ c, (self.scoredProviders stream kind ex syms)[p]? = some c ∧
        self.symbolRank kind ex sym c = some rank := by
  rw [ranked, List.mem_filterMap, eligibleOf]
  dsimp only
  constructor
  · rintro ⟨⟨c, q⟩, hmem, hc⟩
    have hq := List.mem_zipIdx_iff_getElem?.1 hmem
    dsimp only at hq hc
    rw [List.getElem?_map, hq] at hc
    split at hc
    · cases hc
    · obtain ⟨r, hr, heq⟩ := Option.map_eq_some_iff.1 hc
      cases heq
      exact ⟨c, hq, by rw [symbolRank, hr, Option.map_some]⟩
  · rintro ⟨c, hp, hc⟩
    refine ⟨(c, p), List.mem_zipIdx_iff_getElem?.2 hp, ?_⟩
    have hallow : sym ∈ self.allowedOf kind ex syms c :=
      mem_allowedOf.2 ⟨hsym, by rw [hc, Option.isSome_some]⟩
    rw [symbolRank, Option.map_eq_some_iff] at hc
    obtain ⟨r, hr, rfl⟩ := hc
    simp [List.getElem?_map, hp, hallow, hr]

/-- A symbol's primary ranks best for it. -/
theorem leads_of_bestIdx {sym : Symbol} (hsym : sym ∈ syms) {p : ℕ}
    (h : self.bestIdx kind ex (self.eligibleOf stream kind ex syms) sym = some p) :
    self.Leads kind ex (self.scoredProviders stream kind ex syms) sym p := by
  rw [bestIdx] at h
  split at h
  · cases h
  · obtain ⟨⟨rank, q⟩, hhead, rfl⟩ := Option.map_eq_some_iff.1 h
    have hmem := SortKey.mem_sortByKey.1 (List.mem_of_head? hhead)
    obtain ⟨c, hc, hrank⟩ := (mem_ranked hsym).1 hmem
    refine ⟨c, rank, hc, hrank, fun q' c' rank' hc' hrank' => ?_⟩
    exact SortKey.key_head_le hhead ((mem_ranked hsym).2 ⟨c', hc', hrank'⟩)

/-- Every symbol that can be routed has a primary. -/
theorem exists_bestIdx {sym : Symbol} (hsym : sym ∈ syms)
    (hroute : self.routable stream kind ex sym) :
    ∃ p, self.bestIdx kind ex (self.eligibleOf stream kind ex syms) sym = some p := by
  have hunion : sym ∈ (self.eligibleOf stream kind ex syms).unionSymbols :=
    List.mem_toFinset.2 (List.mem_filter.2 ⟨hsym, hroute⟩)
  obtain ⟨c, hc, hrank⟩ := routable_iff.1 hroute
  obtain ⟨rank, hrank⟩ := Option.isSome_iff_exists.1 hrank
  have hmem : c ∈ self.scoredProviders stream kind ex syms :=
    mem_scoredProviders.2 ⟨hc, sym, hsym, by rw [hrank, Option.isSome_some]⟩
  obtain ⟨p, hp⟩ := List.mem_iff_getElem?.1 hmem
  have hne : SortKey.sortByKey toLex
      (self.ranked kind ex (self.eligibleOf stream kind ex syms) sym) ≠ [] :=
    List.ne_nil_of_mem (SortKey.mem_sortByKey.2 ((mem_ranked hsym).2 ⟨c, hp, hrank⟩))
  rw [bestIdx, if_neg (not_not.2 hunion), List.head?_eq_some_head hne]
  exact ⟨_, rfl⟩

/-! ## The two planning modes -/

/-- Without explicit preferences, the policy excludes no provider for a symbol that can be routed, so
the first provider ranks best for it. -/
theorem leads_zero {pairs : List (Instrument K E × Symbol)} (hpairs : pairs.map (·.2) = syms)
    (hexplicit : self.groupHasExplicit kind ex pairs (self.scoredProviders stream kind ex syms) =
      false) {sym : Symbol} (hsym : sym ∈ syms) (hroute : self.routable stream kind ex sym) :
    self.Leads kind ex (self.scoredProviders stream kind ex syms) sym 0 := by
  have htop : ∀ c ∈ self.scoredProviders stream kind ex syms, ∀ rank,
      self.symbolRank kind ex sym c = some rank → rank = ⊤ := by
    intro c hc rank hrank
    rw [symbolRank, Option.map_eq_some_iff] at hrank
    obtain ⟨⟨_, strict⟩, hr, rfl⟩ := hrank
    rw [← hpairs, List.mem_map] at hsym
    obtain ⟨pair, hpair, rfl⟩ := hsym
    have := List.any_eq_false.1 hexplicit pair hpair
    simpa [hr] using List.any_eq_false.1 (Bool.eq_false_iff.2 this) c hc
  obtain ⟨c₀, hc₀, hsome⟩ := routable_iff.1 hroute
  have hmem : c₀ ∈ self.scoredProviders stream kind ex syms :=
    mem_scoredProviders.2 ⟨hc₀, sym, hsym, hsome⟩
  obtain ⟨rank₀, hrank₀⟩ := Option.isSome_iff_exists.1 hsome
  obtain rfl := htop c₀ hmem rank₀ hrank₀
  have hall : ∀ c : Connector K, (self.symbolRank kind ex sym c).isSome := by
    intro c
    rw [symbolRank, Option.map_eq_some_iff] at hrank₀
    obtain ⟨⟨_, strict⟩, hr, rfl⟩ := hrank₀
    rw [symbolRank, Option.isSome_map]
    exact ProviderPolicy.isSome_of_providerRank_top hr c.key
  obtain ⟨c, hc⟩ : ∃ c, (self.scoredProviders stream kind ex syms)[0]? = some c :=
    ⟨_, List.getElem?_eq_getElem (List.length_pos_of_mem hmem)⟩
  obtain ⟨rank, hrank⟩ := Option.isSome_iff_exists.1 (hall c)
  obtain rfl := htop c (List.mem_of_getElem? hc) rank hrank
  refine ⟨c, ⊤, hc, hrank, fun q c' rank' hc' hrank' => ?_⟩
  rw [htop c' (List.mem_of_getElem? hc') rank' hrank', Prod.Lex.toLex_le_toLex]
  exact .inr ⟨rfl, Nat.zero_le q⟩

section
variable {resolvedBackoff : BackoffConfig} {order : HashOrder} {channels : ℕ}
  {pairs : List (Instrument K E × Symbol)} {requested : List Symbol}

/-- The groups of `primary_groups`, in the order of iteration. -/
theorem mem_primaryGroups {p : ℕ} {groupSyms : List Symbol} :
    (p, groupSyms) ∈
        order.iter (Keyed.groupBy (self.bestIdx kind ex (self.eligibleOf stream kind ex syms)) requested) ↔
      groupSyms = requested.filter (fun sym =>
        self.bestIdx kind ex (self.eligibleOf stream kind ex syms) sym = some p) ∧
      groupSyms ≠ [] := by
  rw [(order.perm _).mem_iff, Keyed.mem_groupBy]

theorem planned_of_mem_planPrimaries (hreq : ∀ sym ∈ requested, sym ∈ syms)
    {params : KindSupervisorParams K E}
    (h : params ∈ self.planPrimaries stream resolvedBackoff order channels kind ex
      (self.eligibleOf stream kind ex syms) pairs requested) :
    self.Planned stream kind ex syms params := by
  rw [planPrimaries, List.mem_mapIdx] at h
  obtain ⟨i, hi, rfl⟩ := h
  obtain ⟨⟨p, groupSyms⟩, hgroup⟩ : ∃ group, (order.iter (Keyed.groupBy
      (self.bestIdx kind ex (self.eligibleOf stream kind ex syms)) requested))[i] = group := ⟨_, rfl⟩
  rw [hgroup]
  obtain ⟨hsyms, hne⟩ := mem_primaryGroups.1 (hgroup ▸ List.getElem_mem hi)
  have hleads : ∀ sym ∈ groupSyms,
      self.Leads kind ex (self.scoredProviders stream kind ex syms) sym p := by
    intro sym hsym
    rw [hsyms, List.mem_filter, decide_eq_true_eq] at hsym
    exact leads_of_bestIdx (hreq sym hsym.1) hsym.2
  obtain ⟨sym₀, hsym₀⟩ := List.exists_mem_of_ne_nil groupSyms hne
  obtain ⟨c, _, hc, _⟩ := hleads sym₀ hsym₀
  have hp : p < (self.scoredProviders stream kind ex syms).length :=
    (List.getElem?_eq_some_iff.1 hc).1
  refine ⟨fun sym hsym => ?_, ?_, p, c, hc, filterMap_chainIndices hc, fun sym hsym => ?_⟩
  · have hmem := List.mem_toFinset.1 hsym
    rw [hsyms] at hmem
    exact hreq sym (List.mem_of_mem_filter hmem)
  · exact map_getElem?_map (f := self.allowedOf kind ex syms)
      (g := fun allow => (allow.getD ∅).filter fun s => s ∈ groupSyms.toFinset)
      fun i hi => lt_of_mem_chainIndices hp hi
  · exact hleads sym (List.mem_toFinset.1 hsym)

theorem requires_planPrimaries {sym : Symbol} {i : ℕ} :
    Requires (self.planPrimaries stream resolvedBackoff order channels kind ex
      (self.eligibleOf stream kind ex syms) pairs requested) sym i ↔
      ∃ p groupSyms, (order.iter (Keyed.groupBy
        (self.bestIdx kind ex (self.eligibleOf stream kind ex syms)) requested))[i]? =
          some (p, groupSyms) ∧ sym ∈ groupSyms := by
  rw [Requires, planPrimaries, List.getElem?_mapIdx]
  constructor
  · intro ⟨params, hparams, hsym⟩
    obtain ⟨⟨p, groupSyms⟩, hgroup, rfl⟩ := Option.map_eq_some_iff.1 hparams
    exact ⟨p, groupSyms, hgroup, List.mem_toFinset.1 hsym⟩
  · intro ⟨p, groupSyms, hgroup, hsym⟩
    rw [hgroup]
    exact ⟨_, rfl, List.mem_toFinset.2 hsym⟩

/-- Each requested symbol that can be routed is filed under one primary. -/
theorem existsUnique_planPrimaries {sym : Symbol} (hreq : ∀ sym ∈ requested, sym ∈ syms)
    (hsym : sym ∈ requested) (hroute : self.routable stream kind ex sym) :
    ∃! i, Requires (self.planPrimaries stream resolvedBackoff order channels kind ex
      (self.eligibleOf stream kind ex syms) pairs requested) sym i := by
  obtain ⟨p, hp⟩ := exists_bestIdx (hreq sym hsym) hroute
  have hmem : sym ∈ requested.filter fun sym =>
      self.bestIdx kind ex (self.eligibleOf stream kind ex syms) sym = some p :=
    List.mem_filter.2 ⟨hsym, by rw [hp, decide_eq_true rfl]⟩
  have hgroup : (p, requested.filter fun sym =>
      self.bestIdx kind ex (self.eligibleOf stream kind ex syms) sym = some p) ∈
        order.iter (Keyed.groupBy
          (self.bestIdx kind ex (self.eligibleOf stream kind ex syms)) requested) :=
    mem_primaryGroups.2 ⟨rfl, List.ne_nil_of_mem hmem⟩
  obtain ⟨i, hi⟩ := List.mem_iff_getElem?.1 hgroup
  refine ⟨i, requires_planPrimaries.2 ⟨p, _, hi, hmem⟩, fun j hj => ?_⟩
  obtain ⟨p', groupSyms, hj, hsym'⟩ := requires_planPrimaries.1 hj
  rw [(mem_primaryGroups.1 (List.mem_of_getElem? hj)).1, List.mem_filter, decide_eq_true_eq,
    hp] at hsym'
  cases hsym'.2
  have hnodup : ((order.iter (Keyed.groupBy
      (self.bestIdx kind ex (self.eligibleOf stream kind ex syms)) requested)).map (·.1)).Nodup :=
    ((order.perm _).map _).nodup_iff.2 (Keyed.nodup_keys_groupBy _ _)
  have hj' : j < ((order.iter (Keyed.groupBy
      (self.bestIdx kind ex (self.eligibleOf stream kind ex syms)) requested)).map (·.1)).length := by
    rw [List.length_map]
    exact (List.getElem?_eq_some_iff.1 hj).1
  refine (List.getElem?_inj hj' hnodup).1 ?_
  rw [List.getElem?_map, List.getElem?_map, hi, hj]
  rfl

/-- Without explicit preferences, one supervisor requires every symbol. -/
theorem requiredSymbols_planFallback (hpairs : pairs.map (·.2) = syms)
    (hroute : ∀ sym ∈ syms, self.routable stream kind ex sym) {params : KindSupervisorParams K E}
    (h : params ∈ planFallback stream resolvedBackoff channels
      (self.eligibleOf stream kind ex syms) pairs) :
    params.requiredSymbols = syms.toFinset := by
  obtain rfl := List.mem_singleton.1 h
  dsimp only [supervisorParams]
  rw [List.filter_eq_self.2, hpairs]
  intro x hx
  have hmem : x.2 ∈ syms := hpairs ▸ List.mem_map_of_mem hx
  simp [eligibleOf, hmem, hroute x.2 hmem]

theorem planned_of_mem_planFallback (hpairs : pairs.map (·.2) = syms)
    (hroute : ∀ sym ∈ syms, self.routable stream kind ex sym) (hne : syms ≠ [])
    (hexplicit : self.groupHasExplicit kind ex pairs (self.scoredProviders stream kind ex syms) =
      false) {params : KindSupervisorParams K E}
    (h : params ∈ planFallback stream resolvedBackoff channels
      (self.eligibleOf stream kind ex syms) pairs) :
    self.Planned stream kind ex syms params := by
  have hrequired := requiredSymbols_planFallback hpairs hroute h
  obtain ⟨sym₀, hsym₀⟩ := List.exists_mem_of_ne_nil syms hne
  have hleads : ∀ sym ∈ syms,
      self.Leads kind ex (self.scoredProviders stream kind ex syms) sym 0 :=
    fun sym hsym => leads_zero hpairs hexplicit hsym (hroute sym hsym)
  obtain ⟨c, _, hc, _⟩ := hleads sym₀ hsym₀
  have hproviders : params.providers = self.scoredProviders stream kind ex syms := by
    obtain rfl := List.mem_singleton.1 h
    rfl
  have hallow : params.providerAllow =
      (self.scoredProviders stream kind ex syms).map (self.allowedOf kind ex syms) := by
    obtain rfl := List.mem_singleton.1 h
    rfl
  refine ⟨fun sym hsym => ?_, ?_, 0, c, hc, ?_, fun sym hsym => ?_⟩
  · exact List.mem_toFinset.1 (hrequired ▸ hsym)
  · rw [hallow, hproviders]
    refine List.map_congr_left fun c' _ => (Finset.filter_true_of_mem fun sym hsym => ?_).symm
    exact hrequired ▸ List.mem_toFinset.2 (mem_allowedOf.1 hsym).1
  · rw [hproviders, List.eraseIdx_zero]
    exact (List.cons_head?_tail (List.head?_eq_getElem? ▸ hc)).symm
  · exact hleads sym (List.mem_toFinset.1 (hrequired ▸ hsym))

theorem existsUnique_planFallback (hpairs : pairs.map (·.2) = syms)
    (hroute : ∀ sym ∈ syms, self.routable stream kind ex sym) {sym : Symbol} (hsym : sym ∈ syms) :
    ∃! i, Requires (planFallback stream resolvedBackoff channels
      (self.eligibleOf stream kind ex syms) pairs) sym i := by
  refine ⟨0, ⟨_, rfl, ?_⟩, fun i hi => ?_⟩
  · exact requiredSymbols_planFallback hpairs hroute (List.mem_singleton.2 rfl) ▸
      List.mem_toFinset.2 hsym
  · obtain ⟨params, hparams, _⟩ := hi
    have hlt := (List.getElem?_eq_some_iff.1 hparams).1
    simpa [planFallback] using hlt

end

/-! ## The outcome of planning a group -/

section
variable {resolvedBackoff : BackoffConfig} {order : HashOrder} {channels : ℕ}

theorem mem_strictFiltered (hcand : self.streamCandidates stream kind ≠ [])
    {requested : List Symbol} {sym : Symbol} :
    sym ∈ self.strictFiltered stream kind ex (self.eligibleOf stream kind ex syms) requested ↔
      sym ∈ requested ∧ self.routable stream kind ex sym = false := by
  rw [strictFiltered, List.mem_filter, List.mem_filter, ← routable, eligibleOf]
  cases hroute : self.routable stream kind ex sym <;> simp [hcand, hroute]

variable (resolvedBackoff order channels) (hsec : ∀ inst ∈ list, (symbolOpt inst).isSome)
  (hex : ∀ inst ∈ list, exchangeOpt inst = ex)

include hsec hex

/-- A group with a scored connector is rejected if some symbol cannot be routed, and planned
otherwise. -/
theorem planGroup_eq (h : self.scoredProviders stream kind ex (symbolsOf list) ≠ []) :
    ∃ pairs, pairs.map (·.2) = symbolsOf list ∧
      self.planGroup stream resolvedBackoff order channels kind ex list =
        let eligible := self.eligibleOf stream kind ex (symbolsOf list)
        let requested := order.iter (symbolsOf list).eraseDups
        let strictFiltered := self.strictFiltered stream kind ex eligible requested
        if strictFiltered ≠ [] then .error (.strictSymbolsRejected strictFiltered)
        else if self.groupHasExplicit kind ex pairs eligible.providers then
          .ok (self.planPrimaries stream resolvedBackoff order channels kind ex eligible pairs
            requested)
        else .ok (planFallback stream resolvedBackoff channels eligible pairs) := by
  obtain ⟨pairs, hpairs, hsyms⟩ := listPairs_eq hsec
  have hunion : (self.eligibleOf stream kind ex (symbolsOf list)).unionSymbols ≠ ∅ := by
    intro hempty
    refine h (scoredProviders_eq_nil.2 fun sym hsym => Bool.eq_false_iff.2 fun hroute => ?_)
    have hmem : sym ∈ (self.eligibleOf stream kind ex (symbolsOf list)).unionSymbols :=
      List.mem_toFinset.2 (List.mem_filter.2 ⟨hsym, hroute⟩)
    rw [hempty] at hmem
    simp at hmem
  refine ⟨pairs, hsyms, ?_⟩
  rw [planGroup, eligibleFn_eq, eligibleForContext_eq_ok hsec hex h, ← eligibleOf]
  dsimp only
  rw [if_neg hunion, hpairs]
  dsimp only
  rw [hsyms]
  simp

variable (hlist : list ≠ [])

include hlist

/-- Without a capable connector the group is unsupported. -/
theorem planGroup_unsupported (hcand : self.streamCandidates stream kind = []) :
    self.planGroup stream resolvedBackoff order channels kind ex list =
      .error (.unsupported stream.capability.asStr) := by
  have hnil : self.scoredProviders stream kind ex (symbolsOf list) = [] := by
    refine scoredProviders_eq_nil.2 fun sym _ => ?_
    rw [routable, hcand]
    rfl
  rw [planGroup, eligibleFn_eq, eligibleForContext_eq_error hsec hex hlist hnil, if_pos hcand]

/-- With a capable connector, the group is rejected with the symbols that cannot be routed. -/
theorem planGroup_rejected (hcand : self.streamCandidates stream kind ≠ [])
    (hsome : ∃ sym ∈ symbolsOf list, self.routable stream kind ex sym = false) :
    ∃ rejected, self.planGroup stream resolvedBackoff order channels kind ex list =
        .error (.strictSymbolsRejected rejected) ∧ rejected.Nodup ∧
      ∀ sym, sym ∈ rejected ↔
        sym ∈ symbolsOf list ∧ self.routable stream kind ex sym = false := by
  rcases eq_or_ne (self.scoredProviders stream kind ex (symbolsOf list)) [] with hnil | hne
  · refine ⟨sortDedup (symbolsOf list), ?_, nodup_sortDedup _, fun sym => ?_⟩
    · rw [planGroup, eligibleFn_eq, eligibleForContext_eq_error hsec hex hlist hnil, if_neg hcand]
    · rw [mem_sortDedup]
      exact ⟨fun hsym => ⟨hsym, scoredProviders_eq_nil.1 hnil sym hsym⟩, fun h => h.1⟩
  · obtain ⟨pairs, -, hplan⟩ := planGroup_eq resolvedBackoff order channels hsec hex hne
    have hmem : ∀ sym, sym ∈ self.strictFiltered stream kind ex
        (self.eligibleOf stream kind ex (symbolsOf list))
        (order.iter (symbolsOf list).eraseDups) ↔
          sym ∈ symbolsOf list ∧ self.routable stream kind ex sym = false := by
      intro sym
      rw [mem_strictFiltered hcand, (order.perm _).mem_iff, List.mem_eraseDups]
    obtain ⟨sym, hsym⟩ := hsome
    refine ⟨_, ?_, ?_, hmem⟩
    · rw [hplan]
      exact if_pos (List.ne_nil_of_mem ((hmem sym).2 hsym))
    · exact (((order.perm _).nodup_iff.2 (nodup_eraseDups _)).filter _).filter _

/-- If every symbol can be routed, the group is planned. -/
theorem planGroup_ok (hroute : ∀ sym ∈ symbolsOf list, self.routable stream kind ex sym) :
    ∃ plan, self.planGroup stream resolvedBackoff order channels kind ex list = .ok plan ∧
      (∀ params ∈ plan, self.Planned stream kind ex (symbolsOf list) params) ∧
      ∀ sym ∈ symbolsOf list, ∃! i, Requires plan sym i := by
  have hsyms := symbolsOf_ne_nil hlist hsec
  have hne : self.scoredProviders stream kind ex (symbolsOf list) ≠ [] := by
    intro hnil
    obtain ⟨sym, hsym⟩ := List.exists_mem_of_ne_nil _ hsyms
    have hfalse := scoredProviders_eq_nil.1 hnil sym hsym
    rw [hroute sym hsym] at hfalse
    cases hfalse
  have hreq : ∀ sym, sym ∈ order.iter (symbolsOf list).eraseDups ↔ sym ∈ symbolsOf list := by
    intro sym
    rw [(order.perm _).mem_iff, List.mem_eraseDups]
  obtain ⟨pairs, hpairs, hplan⟩ := planGroup_eq resolvedBackoff order channels hsec hex hne
  have hfiltered : self.strictFiltered stream kind ex (self.eligibleOf stream kind ex (symbolsOf list))
      (order.iter (symbolsOf list).eraseDups) = [] := by
    refine List.filter_eq_nil_iff.2 fun sym hsym => ?_
    have hmem := (hreq sym).1 (List.mem_of_mem_filter hsym)
    rw [← routable, hroute sym hmem]
    simp
  rw [hplan]
  dsimp only
  rw [hfiltered, if_neg (not_not.2 rfl)]
  split
  · exact ⟨_, rfl,
      fun params hparams => planned_of_mem_planPrimaries (fun sym => (hreq sym).1) hparams,
      fun sym hsym => existsUnique_planPrimaries (fun sym => (hreq sym).1) ((hreq sym).2 hsym)
        (hroute sym hsym)⟩
  · next hexplicit =>
    exact ⟨_, rfl, fun params hparams => planned_of_mem_planFallback hpairs hroute hsyms
      (Bool.eq_false_iff.2 hexplicit) hparams,
      fun sym hsym => existsUnique_planFallback hpairs hroute hsym⟩

end

end

/-! ## The plan of a group against the policy -/

section
variable (self : Borsa K E) (stream : StreamKind) (kind : K) (ex : Option E)

/-- The chain starts at a provider that is allowed for the symbol and has the least rank and score
among the providers allowed for it. -/
def StartsBest (syms : List Symbol) (params : KindSupervisorParams K E) (sym : Symbol) : Prop :=
  ∃ p c allow, params.providers.head? = some c ∧ params.providerAllow.head? = some allow ∧
    sym ∈ allow ∧ (self.scoredProviders stream kind ex syms)[p]? = some c ∧
    self.Leads kind ex (self.scoredProviders stream kind ex syms) sym p

/-- What the policy asks of the outcome of planning a group. -/
structure RespectsPolicy (borsa : Borsa K E) (stream : StreamKind) (kind : K) (ex : Option E)
    (list : List (Instrument K E)) (outcome : Except BorsaError (List (KindSupervisorParams K E))) :
    Prop where
  /-- The lists of allowed symbols are aligned with the providers. -/
  aligned : ∀ plan, outcome = .ok plan → ∀ params ∈ plan,
    params.providerAllow.length = params.providers.length
  /-- A provider is allowed requested symbols only, for which the policy ranks it and which it can
  stream. -/
  allowed : ∀ plan, outcome = .ok plan → ∀ params ∈ plan, ∀ (i : ℕ) (c : Connector K) allow,
    params.providers[i]? = some c → params.providerAllow[i]? = some allow → ∀ sym ∈ allow,
      sym ∈ symbolsOf list ∧
      (borsa.cfg.routingPolicy.providers.providerRank ⟨some sym, some kind, ex⟩ c.key).isSome ∧
      c.canStream stream ∧ c.supportsKind kind
  /-- The group is rejected if some connector is capable and some symbol cannot be routed. -/
  rejects : (∃ rejected, outcome = .error (.strictSymbolsRejected rejected)) ↔
    borsa.streamCandidates stream kind ≠ [] ∧
      ∃ sym ∈ symbolsOf list, borsa.routable stream kind ex sym = false
  /-- The symbols rejected are those that cannot be routed, each once. -/
  rejected : ∀ rejected, outcome = .error (.strictSymbolsRejected rejected) → rejected.Nodup ∧
    ∀ sym, sym ∈ rejected ↔ sym ∈ symbolsOf list ∧ borsa.routable stream kind ex sym = false
  /-- The group is unsupported if no connector is capable. -/
  unsupported : outcome = .error (.unsupported stream.capability.asStr) ↔
    borsa.streamCandidates stream kind = []
  /-- Otherwise it is planned: each symbol is required by one supervisor, whose chain starts at the
  provider that ranks best for it. -/
  planned : borsa.streamCandidates stream kind ≠ [] →
    (∀ sym ∈ symbolsOf list, borsa.routable stream kind ex sym) →
      ∃ plan, outcome = .ok plan ∧ (∀ sym ∈ symbolsOf list, ∃! i, Requires plan sym i) ∧
        ∀ params ∈ plan, ∀ sym ∈ params.requiredSymbols,
          borsa.StartsBest stream kind ex (symbolsOf list) params sym

variable {self stream kind ex} {list : List (Instrument K E)}

theorem Planned.allowed {syms : List Symbol} {params : KindSupervisorParams K E}
    (h : self.Planned stream kind ex syms params) {i : ℕ} {c : Connector K} {allow : Finset Symbol}
    (hc : params.providers[i]? = some c) (hallow : params.providerAllow[i]? = some allow)
    {sym : Symbol} : sym ∈ allow ↔
      sym ∈ params.requiredSymbols ∧ (self.symbolRank kind ex sym c).isSome := by
  rw [h.allow, List.getElem?_map, hc, Option.map_some, Option.some_inj] at hallow
  subst hallow
  rw [Finset.mem_filter, mem_allowedOf]
  exact ⟨fun hsym => ⟨hsym.2, hsym.1.2⟩, fun hsym => ⟨⟨h.required sym hsym.1, hsym.2⟩, hsym.1⟩⟩

theorem Planned.mem_providers {syms : List Symbol} {params : KindSupervisorParams K E}
    (h : self.Planned stream kind ex syms params) {c : Connector K} (hc : c ∈ params.providers) :
    c ∈ self.scoredProviders stream kind ex syms := by
  obtain ⟨p, c₀, hc₀, hproviders, -⟩ := h.chain
  rw [hproviders] at hc
  rcases List.mem_cons.1 hc with rfl | hc
  · exact List.mem_of_getElem? hc₀
  · exact List.mem_of_mem_eraseIdx hc

theorem Planned.startsBest {syms : List Symbol} {params : KindSupervisorParams K E}
    (h : self.Planned stream kind ex syms params) {sym : Symbol}
    (hsym : sym ∈ params.requiredSymbols) : self.StartsBest stream kind ex syms params sym := by
  obtain ⟨p, c, hc, hproviders, hleads⟩ := h.chain
  have hhead : params.providers[0]? = some c := by rw [hproviders]; rfl
  obtain ⟨c', rank, hc', hrank, _⟩ := hleads sym hsym
  obtain rfl : c = c' := Option.some_inj.1 (hc.symm.trans hc')
  obtain ⟨allow, hallow⟩ : ∃ allow, params.providerAllow[0]? = some allow := by
    rw [h.allow, List.getElem?_map, hhead]
    exact ⟨_, rfl⟩
  refine ⟨p, c, allow, List.head?_eq_getElem? ▸ hhead, List.head?_eq_getElem? ▸ hallow, ?_, hc,
    hleads sym hsym⟩
  exact (h.allowed hhead hallow).2 ⟨hsym, by rw [hrank, Option.isSome_some]⟩

theorem respectsPolicy_unsupported (hcand : self.streamCandidates stream kind = []) :
    self.RespectsPolicy stream kind ex list (.error (.unsupported stream.capability.asStr)) where
  aligned := by simp
  allowed := by simp
  rejects := by simp [hcand]
  rejected := by simp
  unsupported := by simp [hcand]
  planned := fun hne => absurd hcand hne

theorem respectsPolicy_rejected (hcand : self.streamCandidates stream kind ≠ [])
    (hsome : ∃ sym ∈ symbolsOf list, self.routable stream kind ex sym = false)
    {rejected : List Symbol} (hnodup : rejected.Nodup) (hrejected : ∀ sym, sym ∈ rejected ↔
      sym ∈ symbolsOf list ∧ self.routable stream kind ex sym = false) :
    self.RespectsPolicy stream kind ex list (.error (.strictSymbolsRejected rejected)) where
  aligned := by simp
  allowed := by simp
  rejects := ⟨fun _ => ⟨hcand, hsome⟩, fun _ => ⟨rejected, rfl⟩⟩
  rejected := by
    intro rejected' h
    cases h
    exact ⟨hnodup, hrejected⟩
  unsupported := by simp [hcand]
  planned := by
    intro _ hroute
    obtain ⟨sym, hsym, hfalse⟩ := hsome
    rw [hroute sym hsym] at hfalse
    cases hfalse

theorem respectsPolicy_ok (hcand : self.streamCandidates stream kind ≠ [])
    (hroute : ∀ sym ∈ symbolsOf list, self.routable stream kind ex sym)
    {plan : List (KindSupervisorParams K E)}
    (hplanned : ∀ params ∈ plan, self.Planned stream kind ex (symbolsOf list) params)
    (hunique : ∀ sym ∈ symbolsOf list, ∃! i, Requires plan sym i) :
    self.RespectsPolicy stream kind ex list (.ok plan) where
  aligned := by
    intro _ h params hparams
    cases h
    rw [(hplanned params hparams).allow, List.length_map]
  allowed := by
    intro _ h params hparams i c allow hc hallow sym hsym
    cases h
    have hp := hplanned params hparams
    obtain ⟨hreq, hrank⟩ := (hp.allowed hc hallow).1 hsym
    have hcap := (mem_scoredProviders.1 (hp.mem_providers (List.mem_of_getElem? hc))).1
    rw [streamCandidates, List.mem_filter, Bool.and_eq_true] at hcap
    rw [symbolRank, Option.isSome_map] at hrank
    exact ⟨hp.required sym hreq, hrank, hcap.2⟩
  rejects := by
    simp only [reduceCtorEq, exists_false, false_iff, not_and, not_exists]
    intro _ sym hsym
    rw [hroute sym hsym]
    simp
  rejected := by simp
  unsupported := by simp [hcand]
  planned := fun _ _ => ⟨plan, rfl, hunique, fun params hparams _ hsym =>
    (hplanned params hparams).startsBest hsym⟩

end

/-- Planning a group of securities respects the policy. -/
theorem planGroup_respects_policy (self : Borsa K E) (stream : StreamKind)
    (resolvedBackoff : BackoffConfig) (order : HashOrder) (channels : ℕ)
    (instruments : List (Instrument K E)) (hsec : ∀ inst ∈ instruments, (symbolOpt inst).isSome)
    (kind : K) (ex : Option E) (list : List (Instrument K E))
    (hgroup : ((kind, ex), list) ∈ byGroup instruments) :
    self.RespectsPolicy stream kind ex list
      (self.planGroup stream resolvedBackoff order channels kind ex list) := by
  obtain ⟨hfilter, hlist⟩ := mem_byGroup.1 hgroup
  have hex := exchangeOpt_of_byGroup hgroup
  have hsec' : ∀ inst ∈ list, (symbolOpt inst).isSome := by
    intro inst hinst
    rw [hfilter] at hinst
    exact hsec inst (List.mem_of_mem_filter hinst)
  rcases eq_or_ne (self.streamCandidates stream kind) [] with hcand | hcand
  · rw [planGroup_unsupported resolvedBackoff order channels hsec' hex hlist hcand]
    exact respectsPolicy_unsupported hcand
  · rcases em (∃ sym ∈ symbolsOf list, self.routable stream kind ex sym = false) with hsome | hnone
    · obtain ⟨rejected, hplan, hnodup, hrejected⟩ :=
        planGroup_rejected resolvedBackoff order channels hsec' hex hlist hcand hsome
      rw [hplan]
      exact respectsPolicy_rejected hcand hsome hnodup hrejected
    · have hroute : ∀ sym ∈ symbolsOf list, self.routable stream kind ex sym = true := by
        simpa using hnone
      obtain ⟨plan, hplan, hplanned, hunique⟩ :=
        planGroup_ok resolvedBackoff order channels hsec' hex hlist hroute
      rw [hplan]
      exact respectsPolicy_ok hcand hroute hplanned hunique

/-- A security without an exchange. -/
def security (symbol : String) : Instrument Unit Unit := ⟨.security ⟨⟨symbol⟩, none⟩, ()⟩

/-- Three connectors, and rules that list them for two symbols in different orders. -/
def crossRouter : Borsa Unit Unit :=
  let connector (name : String) : Connector Unit := ⟨name, fun _ => true, true, true, true⟩
  let providers : ProviderPolicy Unit Unit := ⟨[], none⟩
  let providers := providers.addRule ⟨some ⟨"X"⟩, none, none⟩ [⟨"a"⟩, ⟨"c"⟩, ⟨"b"⟩] false
  let providers := providers.addRule ⟨some ⟨"Y"⟩, none, none⟩ [⟨"b"⟩, ⟨"a"⟩] false
  ⟨[connector "a", connector "b", connector "c"], ⟨⟨providers, .default⟩, none⟩⟩

theorem cross_respects_policy :
    crossRouter.RespectsPolicy .quotes () none [security "X", security "Y"]
      (crossRouter.planGroup .quotes .default .insertion 0 () none [security "X", security "Y"]) :=
  planGroup_respects_policy crossRouter .quotes .default .insertion 0
    [security "X", security "Y"] (by decide) () none [security "X", security "Y"] (by decide)

/-- A connector that streams nothing. -/
def snapshotRouter : Borsa Unit Unit :=
  ⟨[⟨"snapshot", fun _ => true, false, false, false⟩], ⟨⟨⟨[], none⟩, .default⟩, none⟩⟩

/-- Without a capable connector the group is not rejected, yet no supervisor requires its symbol. -/
theorem snapshot_not_required :
    let outcome := snapshotRouter.planGroup .quotes .default .insertion 0 () none [security "X"]
    (((), none), [security "X"]) ∈ byGroup [security "X"] ∧
      (∀ rejected, outcome ≠ .error (.strictSymbolsRejected rejected)) ∧
      ⟨"X"⟩ ∈ symbolsOf [security "X"] ∧ ¬ ∃! i, Requires (outcome.toOption.getD []) ⟨"X"⟩ i := by
  intro outcome
  have hplan : outcome = .error (.unsupported "stream-quotes") := rfl
  refine ⟨by decide, fun rejected h => ?_, by decide, fun ⟨i, ⟨params, hparams, _⟩, _⟩ => ?_⟩
  · rw [hplan] at h
    cases h
  · rw [hplan] at hparams
    cases hparams

end Borsa

end Borsa
