import Borsa.Core

/-!
# Provider ordering against its specification

What `ordered_for_context` is for, stated without its loops: which rule governs a context (`Governs`)
and the order in which a rule lists the connectors (`routed`). The policy is given by the calls that
build it, so a rule's list may repeat connectors here. `orderedForContext_spec` says that the two
agree.
-/

namespace Borsa

section
variable {K E : Type}

/-! ## The specification -/

/-- The arguments of one `add_rule` call. -/
structure RuleArgs (K E : Type) where
  selector : Selector K E
  list : List ConnectorKey
  strict : Bool

/-- Every set field of the selector is the context's. -/
def Selector.Matches (s : Selector K E) (ctx : RoutingContext K E) : Prop :=
  (∀ sym ∈ s.symbol, ctx.symbol = some sym) ∧ (∀ kind ∈ s.kind, ctx.kind = some kind) ∧
    ∀ exchange ∈ s.exchange, ctx.exchange = some exchange

/-- How many fields of the selector are set. -/
def Selector.setFields (s : Selector K E) : ℕ :=
  s.symbol.isSome.toNat + s.kind.isSome.toNat + s.exchange.isSome.toNat

/-- The order of the rules that match a context: the number of set fields, then whether the symbol,
the kind and the exchange are set, then the position. -/
def Selector.weight (s : Selector K E) (position : ℕ) : ℕ ×ₗ Bool ×ₗ Bool ×ₗ Bool ×ₗ ℕ :=
  toLex (s.setFields,
    toLex (s.symbol.isSome, toLex (s.kind.isSome, toLex (s.exchange.isSome, position))))

/-- The list and the strictness that govern a context: those of the matching rule of the greatest
weight, or the global ones if no rule matches. -/
inductive Governs (rules : List (RuleArgs K E)) (global : Option (List ConnectorKey × Bool))
    (ctx : RoutingContext K E) : Option (List ConnectorKey × Bool) → Prop
  | rule (i : ℕ) (a : RuleArgs K E) (hi : rules[i]? = some a) (hmatch : a.selector.Matches ctx)
      (hmax : ∀ j (b : RuleArgs K E), rules[j]? = some b → b.selector.Matches ctx →
        b.selector.weight j ≤ a.selector.weight i) :
      Governs rules global ctx (some (a.list, a.strict))
  | global (hnone : ∀ a ∈ rules, ¬ a.selector.Matches ctx) : Governs rules global ctx global

/-- The connectors that the governing list leaves eligible. -/
def eligible (governing : Option (List ConnectorKey × Bool)) (c : Connector K) : Bool :=
  match governing with
  | some (list, strict) => list.contains c.key || !strict
  | none => true

/-- The connectors in the order of the governing list: the listed ones in the order of their first
occurrence, then, unless the rule is strict, the others in registration order. -/
def routed (connectors : List (Connector K)) (governing : Option (List ConnectorKey × Bool)) :
    List (Connector K) :=
  match governing with
  | some (list, strict) =>
    (list.eraseDups.flatMap fun key => connectors.filter fun c => c.key == key) ++
      if strict then [] else connectors.filter fun c => !list.contains c.key
  | none => connectors

/-! ## The policy as built -/

/-- The policy that a list of `add_rule` calls and an optional `set_global` call build. -/
def ProviderPolicy.ofArgs (rules : List (RuleArgs K E))
    (global : Option (List ConnectorKey × Bool)) : ProviderPolicy K E :=
  let policy : ProviderPolicy K E :=
    rules.foldl (fun policy a => policy.addRule a.selector a.list a.strict) ⟨[], none⟩
  match global with
  | some (list, strict) => policy.setGlobal list strict
  | none => policy

/-- The rule that a call adds. -/
def RuleArgs.toRule (a : RuleArgs K E) : ProviderRule K E :=
  ⟨a.selector, RankedList.new a.list, a.strict⟩

/-- `add_rule` appends. -/
theorem foldl_addRule (rules : List (RuleArgs K E)) (policy : ProviderPolicy K E) :
    rules.foldl (fun policy a => policy.addRule a.selector a.list a.strict) policy =
      { policy with rules := policy.rules ++ rules.map RuleArgs.toRule } := by
  induction rules generalizing policy with
  | nil => simp
  | cons a rules ih =>
    rw [List.foldl_cons, ih]
    simp [ProviderPolicy.addRule, RuleArgs.toRule]

theorem ProviderPolicy.ofArgs_eq (rules : List (RuleArgs K E))
    (global : Option (List ConnectorKey × Bool)) :
    ofArgs rules global =
      ⟨rules.map RuleArgs.toRule, global.map fun g => (RankedList.new g.1, g.2)⟩ := by
  cases global <;> simp [ofArgs, foldl_addRule, setGlobal]

/-- Every policy is built by such calls. -/
theorem ProviderPolicy.exists_ofArgs (policy : ProviderPolicy K E) :
    ∃ rules global, policy = ofArgs rules global := by
  obtain ⟨rules, global⟩ := policy
  refine ⟨rules.map fun r => ⟨r.selector, r.list.values, r.strict⟩,
    global.map fun g => (g.1.values, g.2), ?_⟩
  have hrule : ∀ r : ProviderRule K E,
      RuleArgs.toRule ⟨r.selector, r.list.values, r.strict⟩ = r := by
    intro r
    rw [RuleArgs.toRule, RankedList.new_values]
  have hglobal : ∀ g : RankedList ConnectorKey × Bool, (RankedList.new g.1.values, g.2) = g := by
    intro g
    rw [RankedList.new_values]
  rw [ofArgs_eq, List.map_map, Option.map_map]
  congr 1
  · exact ((List.map_congr_left fun r _ => hrule r).trans (List.map_id rules)).symm
  · exact ((Option.map_congr fun g _ => hglobal g).trans Option.map_id').symm

/-! ## The governing rule -/

variable [DecidableEq K] [DecidableEq E]

theorem Selector.passedOver_eq_false {s : Selector K E} {ctx : RoutingContext K E} :
    s.passedOver ctx = false ↔ s.Matches ctx := by
  obtain ⟨symbol, kind, exchange⟩ := s
  have hfield : ∀ {α : Type} [DecidableEq α] (field value : Option α),
      (field.isSome && field != value) = false ↔ ∀ x ∈ field, value = some x := by
    intro α _ field value
    cases field with
    | none => simp
    | some x => simpa using eq_comm (a := some x) (b := value)
  rw [passedOver, Bool.or_eq_false_iff, Bool.or_eq_false_iff, hfield, hfield, hfield, and_assoc]
  rfl

omit [DecidableEq K] [DecidableEq E] in
/-- The order of `best_rule` is the order by weight. -/
theorem precedence_le_iff {r r' : ProviderRule K E} {i i' : ℕ} :
    ProviderPolicy.precedence (r, i) ≤ ProviderPolicy.precedence (r', i') ↔
      r.selector.weight i ≤ r'.selector.weight i' := by
  simp only [ProviderPolicy.precedence, Selector.weight, Selector.spec, Selector.specificityBits,
    Selector.setFields, Prod.Lex.toLex_le_toLex, Prod.Lex.toLex_lt_toLex, toLex_inj, Prod.mk.injEq]
  generalize r.selector.symbol.isSome = sb, r.selector.kind.isSome = kb,
    r.selector.exchange.isSome = eb, r'.selector.symbol.isSome = sb',
    r'.selector.kind.isSome = kb', r'.selector.exchange.isSome = eb'
  cases sb <;> cases kb <;> cases eb <;> cases sb' <;> cases kb' <;> cases eb' <;> simp

omit [DecidableEq K] [DecidableEq E] in
/-- Rules at different positions have different weights. -/
theorem Selector.position_eq_of_weight {s s' : Selector K E} {i i' : ℕ}
    (h : s.weight i = s'.weight i') : i = i' := by
  simp only [weight, toLex_inj, Prod.mk.injEq] at h
  exact h.2.2.2.2

omit [DecidableEq K] [DecidableEq E] in
theorem Governs.unique {rules : List (RuleArgs K E)} {global : Option (List ConnectorKey × Bool)}
    {ctx : RoutingContext K E} {g g' : Option (List ConnectorKey × Bool)}
    (h : Governs rules global ctx g) (h' : Governs rules global ctx g') : g' = g := by
  cases h with
  | rule i a hi hmatch hmax =>
    cases h' with
    | rule j b hj hmatch' hmax' =>
      have hpos := Selector.position_eq_of_weight
        (le_antisymm (hmax j b hj hmatch') (hmax' i a hi hmatch))
      rw [hpos, hi] at hj
      cases hj
      rfl
    | global hnone => exact absurd hmatch (hnone a (List.mem_of_getElem? hi))
  | global hnone =>
    cases h' with
    | rule j b hj hmatch' _ => exact absurd hmatch' (hnone b (List.mem_of_getElem? hj))
    | global _ => rfl

/-- `best_rule` and the global rule pick what governs the context. -/
theorem exists_governs (rules : List (RuleArgs K E)) (global : Option (List ConnectorKey × Bool))
    (ctx : RoutingContext K E) :
    ∃ g, Governs rules global ctx g ∧ (ProviderPolicy.ofArgs rules global).governing ctx =
      g.map fun x => (RankedList.new x.1, x.2) := by
  have hrule : ∀ i : ℕ, (ProviderPolicy.ofArgs rules global).rules[i]? =
      rules[i]?.map RuleArgs.toRule := by
    intro i
    rw [ProviderPolicy.ofArgs_eq, List.getElem?_map]
  rw [ProviderPolicy.governing]
  cases hbest : (ProviderPolicy.ofArgs rules global).bestRule ctx with
  | none =>
    refine ⟨global, .global fun a ha hmatch => ?_, by simp [ProviderPolicy.ofArgs_eq]⟩
    have hmem : a.toRule ∈ (ProviderPolicy.ofArgs rules global).rules := by
      rw [ProviderPolicy.ofArgs_eq]
      exact List.mem_map_of_mem ha
    have hpass := ProviderPolicy.bestRule_eq_none hbest hmem
    rw [RuleArgs.toRule, Selector.passedOver_eq_false.2 hmatch] at hpass
    cases hpass
  | some best =>
    obtain ⟨i, r, hi, hpass, hlist, hstrict, hmax⟩ := ProviderPolicy.bestRule_eq_some hbest
    rw [hrule, Option.map_eq_some_iff] at hi
    obtain ⟨a, ha, rfl⟩ := hi
    refine ⟨some (a.list, a.strict), .rule i a ha (Selector.passedOver_eq_false.1 hpass) ?_, ?_⟩
    · intro j b hb hmatch
      have hj : (ProviderPolicy.ofArgs rules global).rules[j]? = some b.toRule := by
        rw [hrule, hb, Option.map_some]
      exact precedence_le_iff.1 (hmax j _ hj (Selector.passedOver_eq_false.2 hmatch))
    · obtain ⟨list, strict⟩ := best
      dsimp only [RuleArgs.toRule] at hlist hstrict
      rw [← hlist, ← hstrict]
      rfl

/-! ## Ranks -/

section
variable {list : RankedList ConnectorKey} {strict : Bool} {key : ConnectorKey}

/-- The rank under a governing list, as `provider_sort_key` reads it. -/
def sortRank (governing : Option (RankedList ConnectorKey × Bool)) (key : ConnectorKey) : Rank :=
  ((ProviderPolicy.rankUnder governing key).getD (⊤, false)).1

theorem sortRank_of_ranks {rank : ℕ} (h : list.ranks key = some rank) :
    sortRank (some (list, strict)) key = WithTop.some rank := by
  simp [sortRank, ProviderPolicy.rankUnder, h]

theorem sortRank_of_notMem (h : key ∉ list.values) : sortRank (some (list, strict)) key = ⊤ := by
  rw [← RankedList.ranks_eq_none] at h
  cases strict <;> simp [sortRank, ProviderPolicy.rankUnder, h]

theorem rankUnder_isSome :
    (ProviderPolicy.rankUnder (some (list, strict)) key).isSome ↔
      key ∈ list.values ∨ strict = false := by
  cases hrank : list.ranks key with
  | some rank =>
    have : key ∈ list.values := List.mem_of_getElem? (list.ranks_eq_some.1 hrank)
    simp [ProviderPolicy.rankUnder, hrank, this]
  | none =>
    have := RankedList.ranks_eq_none.1 hrank
    cases strict <;> simp [ProviderPolicy.rankUnder, hrank, this]

/-- Listed connectors rank by position. -/
theorem sortRank_eq_iff {key' : ConnectorKey} (h : key' ∈ list.values) :
    sortRank (some (list, strict)) key = sortRank (some (list, strict)) key' ↔ key = key' := by
  obtain ⟨rank', hrank'⟩ := List.mem_iff_getElem?.1 h
  constructor
  · intro heq
    rw [sortRank_of_ranks (list.ranks_eq_some.2 hrank')] at heq
    rcases hrank : list.ranks key with _ | rank
    · rw [sortRank_of_notMem (RankedList.ranks_eq_none.1 hrank)] at heq
      cases heq
    · rw [sortRank_of_ranks hrank, WithTop.coe_inj] at heq
      subst heq
      exact Option.some_inj.1 ((list.ranks_eq_some.1 hrank).symm.trans hrank')
  · intro heq
    rw [heq]

theorem sortRank_eq_top_iff :
    sortRank (some (list, strict)) key = ⊤ ↔ key ∉ list.values := by
  refine ⟨fun h => ?_, sortRank_of_notMem⟩
  rw [← RankedList.ranks_eq_none]
  rcases hrank : list.ranks key with _ | rank
  · rfl
  · rw [sortRank_of_ranks hrank] at h
    cases h

/-- The ranks of a list's connectors, in order. -/
theorem pairwise_sortRank (list : RankedList ConnectorKey) (strict : Bool) :
    (list.values.map (sortRank (some (list, strict))) ++ [⊤]).Pairwise (· < ·) := by
  have hget : ∀ i (h : i < list.values.length),
      sortRank (some (list, strict)) list.values[i] = WithTop.some i := fun i h =>
    sortRank_of_ranks (list.ranks_eq_some.2 (List.getElem?_eq_getElem h))
  refine List.pairwise_append.2 ⟨?_, List.pairwise_singleton _ _, ?_⟩
  · rw [List.pairwise_map, List.pairwise_iff_getElem]
    intro i j hi hj hij
    rw [hget i hi, hget j hj]
    exact WithTop.coe_lt_coe.2 hij
  · intro r hr t ht
    obtain ⟨key, hkey, rfl⟩ := List.mem_map.1 hr
    obtain ⟨i, hi, rfl⟩ := List.mem_iff_getElem.1 hkey
    rw [List.mem_singleton.1 ht, hget i hi]
    exact WithTop.coe_lt_top i

end

/-! ## The ordering -/

/-- `ordered_for_context` as a sort of the eligible connectors by rank and position. -/
theorem orderedForContext_eq_sort (self : Borsa K E) (ctx : RoutingContext K E) :
    self.orderedForContext ctx =
      (SortKey.sortByKey
        (SortKey.ranked fun c => sortRank (self.cfg.routingPolicy.providers.governing ctx) c.key)
        (self.connectors.zipIdx.filter fun x =>
          (ProviderPolicy.rankUnder
            (self.cfg.routingPolicy.providers.governing ctx) x.1.key).isSome)).map Prod.fst := by
  simp only [Borsa.orderedForContext, RoutingPolicy.providerSortKey, ProviderPolicy.providerRank_eq]
  rfl

omit [DecidableEq K] in
/-- The connectors a governing list lists, rank by rank. -/
theorem flatMap_ranks (connectors : List (Connector K)) (list : RankedList ConnectorKey)
    (strict : Bool) :
    ((list.values.map (sortRank (some (list, strict))) ++ [⊤]).flatMap fun r =>
      (connectors.filter fun c : Connector K =>
        (ProviderPolicy.rankUnder (some (list, strict)) c.key).isSome).filter fun c =>
          sortRank (some (list, strict)) c.key == r) =
      (list.values.flatMap fun key => connectors.filter fun c : Connector K => c.key == key) ++
        if strict then [] else connectors.filter fun c : Connector K => !list.values.contains c.key := by
  rw [List.flatMap_append, List.flatMap_map, List.flatMap_singleton]
  congr 1
  · refine List.flatMap_congr fun key hkey => ?_
    rw [List.filter_filter]
    refine List.filter_congr fun c _ => ?_
    rw [Bool.eq_iff_iff, Bool.and_eq_true, beq_iff_eq, sortRank_eq_iff hkey, rankUnder_isSome,
      beq_iff_eq]
    refine ⟨fun h => h.1, fun h => ⟨h, .inl (h ▸ hkey)⟩⟩
  · rw [List.filter_filter]
    cases strict with
    | true =>
      refine List.filter_eq_nil_iff.2 fun c _ h => ?_
      rw [Bool.and_eq_true, beq_iff_eq, sortRank_eq_top_iff, rankUnder_isSome] at h
      simp [h.1] at h
    | false =>
      refine List.filter_congr fun c _ => ?_
      rw [Bool.eq_iff_iff, Bool.and_eq_true, beq_iff_eq, sortRank_eq_top_iff, rankUnder_isSome]
      simp

/-- The ordering of the connectors by what governs the context. -/
theorem orderedForContext_eq_routed (self : Borsa K E) (ctx : RoutingContext K E)
    {g : Option (List ConnectorKey × Bool)}
    (hg : self.cfg.routingPolicy.providers.governing ctx =
      g.map fun x => (RankedList.new x.1, x.2)) :
    self.orderedForContext ctx = routed self.connectors g := by
  rw [orderedForContext_eq_sort, hg]
  rcases g with _ | ⟨list, strict⟩
  · have hrank : ∀ c : Connector K, sortRank none c.key = ⊤ := fun _ => rfl
    rw [Option.map_none, SortKey.map_fst_sortByKey_ranked _
      (fun c : Connector K => (ProviderPolicy.rankUnder none c.key).isSome) _
      (List.pairwise_singleton _ ⊤) (fun c _ _ => by simp [hrank])]
    simp [hrank, ProviderPolicy.rankUnder, routed]
  · rw [Option.map_some, SortKey.map_fst_sortByKey_ranked _
      (fun c : Connector K =>
        (ProviderPolicy.rankUnder (some (RankedList.new list, strict)) c.key).isSome) _
      (pairwise_sortRank _ strict), flatMap_ranks, routed]
    · simp
    · intro c _ _
      by_cases hmem : c.key ∈ (RankedList.new list).values
      · exact List.mem_append_left _ (List.mem_map_of_mem hmem)
      · exact List.mem_append_right _ (List.mem_singleton.2 (sortRank_of_notMem hmem))

/-- The connectors listed are the eligible ones. -/
theorem orderedForContext_perm (self : Borsa K E) (ctx : RoutingContext K E)
    {g : Option (List ConnectorKey × Bool)}
    (hg : self.cfg.routingPolicy.providers.governing ctx =
      g.map fun x => (RankedList.new x.1, x.2)) :
    (self.orderedForContext ctx).Perm (self.connectors.filter (eligible g)) := by
  have helig : ∀ c : Connector K, (ProviderPolicy.rankUnder
      (g.map fun x => (RankedList.new x.1, x.2)) c.key).isSome = eligible g c := by
    intro c
    rcases g with _ | ⟨list, strict⟩
    · rfl
    · rw [Bool.eq_iff_iff, Option.map_some, rankUnder_isSome]
      simp [eligible]
  rw [orderedForContext_eq_sort, hg]
  refine ((SortKey.sortByKey_perm _ _).map Prod.fst).trans (.of_eq ?_)
  rw [SortKey.map_fst_filter_zipIdx fun c : Connector K => (ProviderPolicy.rankUnder
    (g.map fun x => (RankedList.new x.1, x.2)) c.key).isSome]
  exact List.filter_congr fun c _ => helig c

/-- `ordered_for_context` lists exactly the eligible connectors, each once, in the order of the list
that governs the context. Every policy is built by `add_rule` and `set_global` calls, and for any
calls that build it exactly one list governs. -/
theorem orderedForContext_spec (self : Borsa K E) (ctx : RoutingContext K E) :
    (∃ rules global, self.cfg.routingPolicy.providers = .ofArgs rules global) ∧
      ∀ rules global, self.cfg.routingPolicy.providers = .ofArgs rules global →
        ∃ g, (∀ g', Governs rules global ctx g' ↔ g' = g) ∧
          self.orderedForContext ctx = routed self.connectors g ∧
          (self.orderedForContext ctx).Perm (self.connectors.filter (eligible g)) := by
  refine ⟨ProviderPolicy.exists_ofArgs _, fun rules global hpolicy => ?_⟩
  obtain ⟨g, hgov, hg⟩ := exists_governs rules global ctx
  rw [← hpolicy] at hg
  refine ⟨g, fun g' => ⟨fun h => hgov.unique h, fun h => h ▸ hgov⟩, ?_, ?_⟩
  · exact orderedForContext_eq_routed self ctx hg
  · exact orderedForContext_perm self ctx hg

end

end Borsa
