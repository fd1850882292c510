import Borsa.Streaming.PlanPolicy

/-!
# The order of a failover chain

A supervisor's chain is ordered by the least rank of its providers over the symbols of the group, not
by their ranks for one symbol. So for a symbol it requires, only the first provider is sure to rank
best; the others follow in the order of the scores (`planStreams_chains`), which is the symbol's own
order when the group's symbols are ranked alike.
-/

set_option linter.dupNamespace false

namespace Borsa

variable {K E : Type} [DecidableEq K] [DecidableEq E]

namespace Borsa

section
variable (self : Borsa K E) (stream : StreamKind) (kind : K) (ex : Option E)

/-- The ranks for a symbol of the providers of a chain that are allowed for it, in chain order. -/
def allowedRanks (params : KindSupervisorParams K E) (sym : Symbol) : List Rank :=
  (params.providers.zip params.providerAllow).filterMap fun (c, allow) =>
    if sym ∈ allow then self.symbolRank kind ex sym c else none

variable {self stream kind ex} {syms : List Symbol} {params : KindSupervisorParams K E}

/-- The scored providers are in the order of their least ranks. -/
theorem pairwise_scoredProviders (syms : List Symbol) :
    (self.scoredProviders stream kind ex syms).Pairwise fun c c' =>
      self.groupRank kind ex syms c ≤ self.groupRank kind ex syms c' :=
  List.pairwise_map.2 (SortKey.pairwise_rank _ _)

/-- A connector that every symbol of a group ranks alike has that rank as its score. -/
theorem groupRank_of_alike {c : Connector K} {rank : Rank} (hne : syms ≠ [])
    (h : ∀ sym ∈ syms, self.symbolRank kind ex sym c = some rank) :
    self.groupRank kind ex syms c = rank := by
  have hfold : ∀ (m : Rank) (syms : List Symbol),
      (∀ sym ∈ syms, self.symbolRank kind ex sym c = some rank) → m = ⊤ ∧ syms ≠ [] ∨ m = rank →
        (syms.filterMap fun sym => self.symbolRank kind ex sym c).foldl min m = rank := by
    intro m syms
    induction syms generalizing m with
    | nil => simp
    | cons sym syms ih =>
      intro h hm
      rw [List.filterMap_cons, h sym (by simp), List.foldl_cons]
      refine ih _ (fun sym' hsym' => h sym' (by simp [hsym'])) (.inr ?_)
      rcases hm with ⟨rfl, -⟩ | rfl
      · exact min_eq_right le_top
      · exact min_self _
  exact hfold ⊤ syms h (.inl ⟨rfl, hne⟩)

theorem Planned.allowedRanks_eq (h : self.Planned stream kind ex syms params) {sym : Symbol}
    (hsym : sym ∈ params.requiredSymbols) :
    self.allowedRanks kind ex params sym =
      params.providers.filterMap (self.symbolRank kind ex sym) := by
  have hzip : params.providers.zip params.providerAllow = params.providers.map fun c =>
      (c, (self.allowedOf kind ex syms c).filter fun sym => sym ∈ params.requiredSymbols) := by
    rw [h.allow]
    exact List.map_prod_left_eq_zip.symm
  rw [allowedRanks, hzip, List.filterMap_map]
  refine List.filterMap_congr fun c _ => ?_
  cases hrank : self.symbolRank kind ex sym c with
  | none => simp [hrank]
  | some rank => simp [mem_allowedOf, h.required sym hsym, hsym, hrank]

/-- No provider of a chain ranks better for a required symbol than the first one. -/
theorem Planned.head_le (h : self.Planned stream kind ex syms params) {sym : Symbol}
    (hsym : sym ∈ params.requiredSymbols) {c c' : Connector K} {rank rank' : Rank}
    (hc : params.providers.head? = some c) (hrank : self.symbolRank kind ex sym c = some rank)
    (hc' : c' ∈ params.providers) (hrank' : self.symbolRank kind ex sym c' = some rank') :
    rank ≤ rank' := by
  obtain ⟨p, c₀, hc₀, hproviders, hleads⟩ := h.chain
  obtain ⟨c₁, rank₁, hc₁, hrank₁, hbest⟩ := hleads sym hsym
  rw [hproviders, List.head?_cons, Option.some_inj] at hc
  subst hc
  cases hc₀.symm.trans hc₁
  cases hrank.symm.trans hrank₁
  obtain ⟨q, hq⟩ := List.mem_iff_getElem?.1 (h.mem_providers hc')
  exact Prod.Lex.monotone_fst _ _ (hbest q c' rank' hq hrank')

/-- Where the symbols of the group are ranked alike, the chain is in the order of the ranks. -/
theorem Planned.pairwise_allowedRanks (h : self.Planned stream kind ex syms params) {sym : Symbol}
    (hsym : sym ∈ params.requiredSymbols) (halike : ∀ sym' ∈ syms, ∀ c ∈ params.providers,
      self.symbolRank kind ex sym' c = self.symbolRank kind ex sym c) :
    (self.allowedRanks kind ex params sym).Pairwise (· ≤ ·) := by
  obtain ⟨p, c, hc, hproviders, -⟩ := h.chain
  have hscore : ∀ c' ∈ params.providers, ∀ rank, self.symbolRank kind ex sym c' = some rank →
      self.groupRank kind ex syms c' = rank := by
    intro c' hc' rank hrank
    exact groupRank_of_alike (List.ne_nil_of_mem (h.required sym hsym))
      fun sym' hsym' => (halike sym' hsym' c' hc').trans hrank
  have hhead : params.providers.head? = some c := by rw [hproviders, List.head?_cons]
  have htail : ∀ c' ∈ (self.scoredProviders stream kind ex syms).eraseIdx p,
      c' ∈ params.providers := fun c' hc' => by rw [hproviders]; exact List.mem_cons_of_mem _ hc'
  rw [h.allowedRanks_eq hsym, List.pairwise_filterMap, hproviders]
  refine List.pairwise_cons.2 ⟨fun c' hc' rank hrank rank' hrank' => ?_, ?_⟩
  · exact h.head_le hsym hhead hrank (htail c' hc') hrank'
  · refine List.Pairwise.imp_of_mem (fun {c₁ c₂} h₁ h₂ hle rank₁ hrank₁ rank₂ hrank₂ => ?_)
      ((pairwise_scoredProviders syms).sublist (List.eraseIdx_sublist _ p))
    rw [← hscore c₁ (htail c₁ h₁) rank₁ hrank₁, ← hscore c₂ (htail c₂ h₂) rank₂ hrank₂]
    exact hle

/-! ## Whole plans -/

section
variable {resolvedBackoff : BackoffConfig} {channels : ℕ} {list : List (Instrument K E)}

/-- Only securities are planned. -/
theorem isSome_of_planGroup {order : HashOrder} {plan : List (KindSupervisorParams K E)}
    (h : self.planGroup stream resolvedBackoff order channels kind ex list = .ok plan)
    (hne : plan ≠ []) : ∀ inst ∈ list, (symbolOpt inst).isSome := by
  rw [planGroup] at h
  cases heligible : self.eligibleFn stream kind ex list with
  | error e =>
    rw [heligible] at h
    cases h
  | ok eligible =>
    rw [heligible] at h
    dsimp only at h
    split at h
    · cases h
      exact absurd rfl hne
    · cases hpairs : listPairs list with
      | error e =>
        rw [hpairs] at h
        cases h
      | ok pairs => exact isSome_of_listPairs hpairs

/-- Every supervisor of a plan belongs to the plan of a group. -/
theorem mem_planGroups {orders : K × Option E → HashOrder}
    {groups : List ((K × Option E) × List (Instrument K E))}
    {joins plan : List (KindSupervisorParams K E)}
    (h : self.planGroups stream resolvedBackoff orders groups joins = .ok plan)
    {params : KindSupervisorParams K E} (hparams : params ∈ plan) :
    params ∈ joins ∨ ∃ kind ex list channels plan', ((kind, ex), list) ∈ groups ∧
      self.planGroup stream resolvedBackoff (orders (kind, ex)) channels kind ex list = .ok plan' ∧
      params ∈ plan' := by
  induction groups generalizing joins with
  | nil =>
    cases h
    exact .inl hparams
  | cons group groups ih =>
    obtain ⟨⟨kind, ex⟩, list⟩ := group
    rw [planGroups] at h
    cases hplan : self.planGroup stream resolvedBackoff (orders (kind, ex)) joins.length kind ex
        list with
    | error e =>
      rw [hplan] at h
      cases h
    | ok plan' =>
      rw [hplan] at h
      rcases ih h with hmem | ⟨kind', ex', list', channels, plan'', hgroup, hplan'', hmem⟩
      · rcases List.mem_append.1 hmem with hmem | hmem
        · exact .inl hmem
        · exact .inr ⟨kind, ex, list, joins.length, plan', by simp, hplan, hmem⟩
      · exact .inr ⟨kind', ex', list', channels, plan'', by simp [hgroup], hplan'', hmem⟩

/-- Every supervisor of a group's plan is planned for the group's symbols. -/
theorem planned_of_planGroup {order : HashOrder} {instruments : List (Instrument K E)}
    (hgroup : ((kind, ex), list) ∈ byGroup instruments) {plan : List (KindSupervisorParams K E)}
    (h : self.planGroup stream resolvedBackoff order channels kind ex list = .ok plan)
    (hparams : params ∈ plan) : self.Planned stream kind ex (symbolsOf list) params := by
  obtain ⟨hsec, hex, hlist⟩ : (∀ inst ∈ list, (symbolOpt inst).isSome) ∧
      (∀ inst ∈ list, exchangeOpt inst = ex) ∧ list ≠ [] :=
    ⟨isSome_of_planGroup h (List.ne_nil_of_mem hparams), exchangeOpt_of_byGroup hgroup,
      (mem_byGroup.1 hgroup).2⟩
  rcases eq_or_ne (self.streamCandidates stream kind) [] with hcand | hcand
  · rw [planGroup_unsupported resolvedBackoff order channels hsec hex hlist hcand] at h
    cases h
  · rcases em (∃ sym ∈ symbolsOf list, self.routable stream kind ex sym = false) with hsome | hnone
    · obtain ⟨rejected, hplan, -⟩ :=
        planGroup_rejected resolvedBackoff order channels hsec hex hlist hcand hsome
      rw [hplan] at h
      cases h
    · obtain ⟨plan', hplan, hplanned, -⟩ :=
        planGroup_ok resolvedBackoff order channels hsec hex hlist (by simpa using hnone)
      rw [hplan] at h
      cases h
      exact hplanned params hparams

end

end

/-- A supervisor's chain in one of the groups: it starts at the best provider for each symbol the
supervisor requires and continues in the order of the scores, which is the order of the policy for a
symbol whose group is ranked alike. -/
def ChainInOrder (borsa : Borsa K E) (stream : StreamKind) (instruments : List (Instrument K E))
    (params : KindSupervisorParams K E) : Prop :=
  ∃ kind ex list, ((kind, ex), list) ∈ byGroup instruments ∧
    params.providers.tail.Sublist (borsa.scoredProviders stream kind ex (symbolsOf list)) ∧
    (params.providers.tail.Pairwise fun c c' => borsa.groupRank kind ex (symbolsOf list) c ≤
      borsa.groupRank kind ex (symbolsOf list) c') ∧
    ∀ sym ∈ params.requiredSymbols, borsa.StartsBest stream kind ex (symbolsOf list) params sym ∧
      ((∀ sym' ∈ symbolsOf list, ∀ c ∈ params.providers,
          borsa.symbolRank kind ex sym' c = borsa.symbolRank kind ex sym c) →
        (borsa.allowedRanks kind ex params sym).Pairwise (· ≤ ·))

/-- Every supervisor of a plan has its chain in order. -/
theorem planStreams_chains (self : Borsa K E) (stream : StreamKind)
    (backoffOverride : Option BackoffConfig) (order : HashOrder) (orders : K × Option E → HashOrder)
    (instruments : List (Instrument K E)) (plan : List (KindSupervisorParams K E))
    (hplan : self.planStreams stream backoffOverride order orders instruments = .ok plan)
    (params : KindSupervisorParams K E) (hparams : params ∈ plan) :
    self.ChainInOrder stream instruments params := by
  rw [planStreams] at hplan
  split at hplan
  · cases hplan
  · rcases mem_planGroups hplan hparams with
      hmem | ⟨kind, ex, list, channels, plan', hgroup, hplan', hmem⟩
    · cases hmem
    · rw [(order.perm _).mem_iff] at hgroup
      have hplanned := planned_of_planGroup hgroup hplan' hmem
      have htail : params.providers.tail.Sublist
          (self.scoredProviders stream kind ex (symbolsOf list)) := by
        obtain ⟨p, c, _, hproviders, _⟩ := hplanned.chain
        rw [hproviders]
        exact List.eraseIdx_sublist _ p
      exact ⟨kind, ex, list, hgroup, htail, (pairwise_scoredProviders _).sublist htail,
        fun sym hsym => ⟨hplanned.startsBest hsym, hplanned.pairwise_allowedRanks hsym⟩⟩

/-- The plan for the two symbols. -/
def crossPlan : List (KindSupervisorParams Unit Unit) :=
  (crossRouter.planStreams .quotes none .insertion (fun _ => .insertion)
    [security "X", security "Y"]).toOption.getD []

theorem cross_chain_in_order :
    ∃ params ∈ crossPlan, crossRouter.ChainInOrder .quotes [security "X", security "Y"] params :=
  ⟨crossPlan[0], List.getElem_mem _, planStreams_chains crossRouter .quotes none .insertion
    (fun _ => .insertion) [security "X", security "Y"] crossPlan rfl _ (List.getElem_mem _)⟩

set_option maxRecDepth 4000 in
/-- The chain planned for `X` is `a`, `b`, `c`, although the policy lists `a`, `c`, `b` for it. -/
theorem cross_chain_out_of_order :
    ∃ params ∈ crossPlan, ∃ sym ∈ params.requiredSymbols,
      ¬ (crossRouter.allowedRanks () none params sym).Pairwise (· ≤ ·) := by
  decide

end Borsa

end Borsa
