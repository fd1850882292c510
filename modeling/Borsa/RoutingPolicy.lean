import Borsa.Types

/-!
# The routing policy

`routing_policy.rs`: the provider rules of a policy, the rule that applies in a context, and the rank
it gives a connector; and the exchange preferences, by which a search orders the listings of a
symbol. A hash map is an association list, whose entries come in no particular order.

A rank is a position in a rule's list, or `usize::MAX` for a connector that no list names. No list is
that long, so a rank is a `WithTop ℕ` and `usize::MAX` is its top.
-/

namespace Borsa

/-! ## Ranked lists -/

section
variable {T : Type}

/-- A list without repetitions, with the position of each of its values. -/
structure RankedList (T : Type) where
  values : List T
  ranks : T → Option ℕ
  nodup : values.Nodup
  ranks_eq_some : ∀ {value rank}, ranks value = some rank ↔ values[rank]? = some value

theorem RankedList.ranks_eq_none {list : RankedList T} {value : T} :
    list.ranks value = none ↔ value ∉ list.values := by
  rw [Option.eq_none_iff_forall_ne_some, List.mem_iff_getElem?]
  simp [list.ranks_eq_some]

/-- The values of a ranked list determine it. -/
theorem RankedList.ext_values : ∀ {list list' : RankedList T},
    list.values = list'.values → list = list'
  | ⟨values, ranks, _, hr⟩, ⟨_, ranks', _, hr'⟩, h => by
    dsimp only at h
    subst h
    have hranks : ranks = ranks' := by
      funext value
      exact Option.ext fun rank => by rw [hr, hr']
    subst hranks
    rfl

variable [DecidableEq T]

/-- The ranks of a list are the positions of its values. -/
theorem RankedList.ranks_eq_idxOf? (list : RankedList T) (value : T) :
    list.ranks value = list.values.idxOf? value := by
  refine Option.ext fun rank => ?_
  rw [list.ranks_eq_some, List.idxOf?_eq_some_iff, List.getElem?_eq_some_iff]
  constructor
  · rintro ⟨hrank, rfl⟩
    refine ⟨hrank, rfl, fun j hj heq => ?_⟩
    exact hj.ne ((list.nodup.getElem_inj_iff).1 heq)
  · rintro ⟨hrank, heq, -⟩
    exact ⟨hrank, heq⟩

/-- One step of the first loop of `RankedList::new`. The set `seen` holds the values pushed so far. -/
def pushUnseen (values : List T) (value : T) : List T :=
  if value ∈ values then values else values ++ [value]

/-- The second loop of `RankedList::new`. -/
def rankTable (values : List T) : T → Option ℕ :=
  values.zipIdx.foldl (fun ranks x => Function.update ranks x.1 (some x.2)) fun _ => none

/-- The first loop keeps the first occurrence of each value. -/
theorem foldl_pushUnseen (list : List T) : list.foldl pushUnseen [] = list.eraseDups := by
  induction list using List.reverseRecOn with
  | nil => rfl
  | append_singleton list value ih =>
    rw [List.foldl_append, List.foldl_cons, List.foldl_nil, ih, List.eraseDups_append, pushUnseen]
    simp only [List.mem_eraseDups]
    split
    · next h => simp [List.removeAll, h]
    · next h => simp [List.removeAll, h, List.eraseDups_cons]

theorem nodup_foldl_pushUnseen (list : List T) : (list.foldl pushUnseen []).Nodup := by
  induction list using List.reverseRecOn with
  | nil => exact .nil
  | append_singleton list value ih =>
    rw [List.foldl_append, List.foldl_cons, List.foldl_nil, pushUnseen]
    split
    · exact ih
    · next h => exact List.nodup_append.2 ⟨ih, by simp, by grind⟩

theorem nodup_eraseDups (list : List T) : list.eraseDups.Nodup :=
  foldl_pushUnseen list ▸ nodup_foldl_pushUnseen list

/-- A list without repetitions passes the first loop unchanged. -/
theorem foldl_pushUnseen_of_nodup {list : List T} (h : list.Nodup) :
    list.foldl pushUnseen [] = list := by
  induction list using List.reverseRecOn with
  | nil => rfl
  | append_singleton list value ih =>
    obtain ⟨hl, -, hne⟩ := List.nodup_append.1 h
    have hnot : value ∉ list := fun hmem => hne value hmem value (by simp) rfl
    rw [List.foldl_append, ih hl, List.foldl_cons, List.foldl_nil, pushUnseen, if_neg hnot]

/-- The second loop maps each value to its position. -/
theorem rankTable_eq_some {values : List T} (h : values.Nodup) {value : T} {rank : ℕ} :
    rankTable values value = some rank ↔ values[rank]? = some value := by
  induction values using List.reverseRecOn with
  | nil => simp [rankTable]
  | append_singleton values last ih =>
    obtain ⟨hv, -, hne⟩ := List.nodup_append.1 h
    have hstep : rankTable (values ++ [last]) =
        Function.update (rankTable values) last (some values.length) := by
      simp [rankTable, List.zipIdx_append]
    rw [hstep]
    rcases eq_or_ne value last with rfl | hval
    · have hnot : value ∉ values := fun hmem => hne value hmem value (by simp) rfl
      rw [Function.update_self]
      grind
    · rw [Function.update_of_ne hval, ih hv]
      grind

/-- `RankedList::new`. -/
def RankedList.new (list : List T) : RankedList T where
  values := list.foldl pushUnseen []
  ranks := rankTable (list.foldl pushUnseen [])
  nodup := nodup_foldl_pushUnseen list
  ranks_eq_some := rankTable_eq_some (nodup_foldl_pushUnseen list)

@[simp] theorem RankedList.values_new (list : List T) :
    (RankedList.new list).values = list.eraseDups :=
  foldl_pushUnseen list

/-- Every ranked list is the ranked list of its own values. -/
theorem RankedList.new_values (list : RankedList T) : RankedList.new list.values = list :=
  RankedList.ext_values (foldl_pushUnseen_of_nodup list.nodup)

end

/-! ## Preferences -/

/-- The scope of a preference. -/
inductive ScopeKey (K : Type) where
  | global
  | kind (kind : K)
  | symbol (symbol : Symbol)

/-- A ranked list for each scope that has one. -/
structure Preference (K T : Type) where
  global : Option (RankedList T)
  byKind : AList fun _ : K => RankedList T
  bySymbol : AList fun _ : Symbol => RankedList T

namespace Preference

variable {K T : Type}

/-- `Preference::default`. -/
protected def default : Preference K T := ⟨none, ∅, ∅⟩

variable [DecidableEq K]

/-- `set`. -/
def set [DecidableEq T] (self : Preference K T) (scope : ScopeKey K) (list : List T) :
    Preference K T :=
  let ranked := RankedList.new list
  match scope with
  | .global => { self with global := some ranked }
  | .kind kind => { self with byKind := self.byKind.insert kind ranked }
  | .symbol symbol => { self with bySymbol := self.bySymbol.insert symbol ranked }

/-- `resolve_rank_map`: the ranks for a symbol, or else for a kind, or else the global ones. -/
def resolveRankMap (self : Preference K T) (symbol : Option Symbol) (kind : Option K) :
    Option (T → Option ℕ) :=
  match symbol.bind fun sym => self.bySymbol.lookup sym with
  | some list => some list.ranks
  | none =>
    match kind.bind fun k => self.byKind.lookup k with
    | some list => some list.ranks
    | none => self.global.map RankedList.ranks

end Preference

/-! ## Rules -/

/-- A rank: a position in a list, or `usize::MAX`. -/
abbrev Rank := WithTop ℕ

/-- `unwrap_or(usize::MAX)`. -/
def unwrapOrMax : Option ℕ → Rank
  | some rank => WithTop.some rank
  | none => ⊤

/-- `(count, symbol, kind, exchange)`: how specific a selector is, compared as a tuple. -/
abbrev SpecBits := ℕ ×ₗ ℕ ×ₗ ℕ ×ₗ ℕ

/-- The contexts a provider rule applies in. An empty field is no constraint. -/
structure Selector (K E : Type) where
  symbol : Option Symbol
  kind : Option K
  exchange : Option E

/-- `Selector::specificity_bits`. -/
def Selector.specificityBits {K E : Type} (s : Selector K E) : ℕ × ℕ × ℕ :=
  (s.symbol.isSome.toNat, s.kind.isSome.toNat, s.exchange.isSome.toNat)

/-- The key by which `best_rule` compares selectors. -/
def Selector.spec {K E : Type} (s : Selector K E) : SpecBits :=
  let (sb, kb, eb) := s.specificityBits
  let count := sb + kb + eb
  toLex (count, toLex (sb, toLex (kb, eb)))

/-- What a request is about. -/
structure RoutingContext (K E : Type) where
  symbol : Option Symbol
  kind : Option K
  exchange : Option E

/-- A provider rule. A strict rule excludes the connectors it does not list. -/
structure ProviderRule (K E : Type) where
  selector : Selector K E
  list : RankedList ConnectorKey
  strict : Bool

/-- The rules of a policy, in the order they were added, and the rule that applies where none of them
does. -/
structure ProviderPolicy (K E : Type) where
  rules : List (ProviderRule K E)
  global : Option (RankedList ConnectorKey × Bool)

/-- The best rule found so far by `best_rule`. -/
structure BestState where
  list : RankedList ConnectorKey
  strict : Bool
  spec : SpecBits
  idx : ℕ

section
variable {K E : Type} [DecidableEq K] [DecidableEq E]

/-- The three guards of `best_rule`: a field that is set and is not the context's. -/
def Selector.passedOver (s : Selector K E) (ctx : RoutingContext K E) : Bool :=
  (s.symbol.isSome && s.symbol != ctx.symbol) || (s.kind.isSome && s.kind != ctx.kind) ||
    (s.exchange.isSome && s.exchange != ctx.exchange)

namespace ProviderPolicy

/-- One step of the loop of `best_rule`. -/
def considerRule (ctx : RoutingContext K E) (best : Option BestState) (entry : ProviderRule K E × ℕ) :
    Option BestState :=
  let (r, idx) := entry
  if r.selector.passedOver ctx then best
  else
    let spec := r.selector.spec
    match best with
    | none => some ⟨r.list, r.strict, spec, idx⟩
    | some b =>
      if b.spec < spec ∨ spec = b.spec ∧ b.idx < idx then some ⟨r.list, r.strict, spec, idx⟩
      else best

/-- `best_rule`. -/
def bestRule (self : ProviderPolicy K E) (ctx : RoutingContext K E) :
    Option (RankedList ConnectorKey × Bool) :=
  (self.rules.zipIdx.foldl (considerRule ctx) none).map fun b => (b.list, b.strict)

/-- `provider_rank`: a connector's rank in a context, and whether the rank comes from a strict rule;
`none` when the connector is excluded. -/
def providerRank (self : ProviderPolicy K E) (ctx : RoutingContext K E) (key : ConnectorKey) :
    Option (Rank × Bool) :=
  match self.bestRule ctx with
  | some (list, strict) =>
    match list.ranks key with
    | some rank => some (WithTop.some rank, strict)
    | none => if strict then none else some (⊤, false)
  | none =>
    match self.global with
    | some (global, strict) =>
      match global.ranks key with
      | some rank => some (WithTop.some rank, strict)
      | none => if strict then none else some (⊤, false)
    | none => some (⊤, false)

/-- `set_global`. -/
def setGlobal (self : ProviderPolicy K E) (list : List ConnectorKey) (strict : Bool) :
    ProviderPolicy K E :=
  { self with global := some (RankedList.new list, strict) }

/-- `add_rule`. -/
def addRule (self : ProviderPolicy K E) (selector : Selector K E) (list : List ConnectorKey)
    (strict : Bool) : ProviderPolicy K E :=
  { self with rules := self.rules ++ [⟨selector, RankedList.new list, strict⟩] }

/-! ## The rule that applies -/

/-- What the loop of `best_rule` remembers of a rule. -/
def bestState (entry : ProviderRule K E × ℕ) : BestState :=
  ⟨entry.1.list, entry.1.strict, entry.1.selector.spec, entry.2⟩

/-- The order in which `best_rule` prefers rules: by specificity, then the later rule. -/
def precedence (entry : ProviderRule K E × ℕ) : SpecBits ×ₗ ℕ :=
  toLex (entry.1.selector.spec, entry.2)

/-- The loop of `best_rule` keeps the best of the rules that are not passed over. -/
theorem foldl_considerRule (ctx : RoutingContext K E) (entries : List (ProviderRule K E × ℕ)) :
    entries.foldl (considerRule ctx) none =
      ((entries.filter fun e => !e.1.selector.passedOver ctx).argmax precedence).map bestState := by
  induction entries using List.reverseRecOn with
  | nil => rfl
  | append_singleton entries entry ih =>
    rw [List.foldl_append, List.foldl_cons, List.foldl_nil, ih, List.filter_append, considerRule]
    cases hpass : entry.1.selector.passedOver ctx with
    | true => simp [hpass]
    | false =>
      have hlast : [entry].filter (fun e => !e.1.selector.passedOver ctx) = [entry] := by
        simp [hpass]
      rw [hlast, List.argmax_concat]
      cases (entries.filter fun e => !e.1.selector.passedOver ctx).argmax precedence with
      | none => rfl
      | some best =>
        have hiff : precedence best < precedence entry ↔
            best.1.selector.spec < entry.1.selector.spec ∨
              entry.1.selector.spec = best.1.selector.spec ∧ best.2 < entry.2 := by
          rw [precedence, precedence, Prod.Lex.toLex_lt_toLex, eq_comm (a := best.1.selector.spec)]
        simp only [Bool.false_eq_true, if_false, Option.map_some, hiff, bestState]
        split <;> rfl

/-- `best_rule` finds no rule when every rule is passed over. -/
theorem bestRule_eq_none {self : ProviderPolicy K E} {ctx : RoutingContext K E}
    (h : self.bestRule ctx = none) {r : ProviderRule K E} (hr : r ∈ self.rules) :
    r.selector.passedOver ctx = true := by
  rw [bestRule, foldl_considerRule, Option.map_eq_none_iff, Option.map_eq_none_iff,
    List.argmax_eq_none] at h
  obtain ⟨i, hi⟩ := List.mem_iff_getElem?.1 hr
  have hmem : (r, i) ∈ self.rules.zipIdx := List.mem_zipIdx_iff_getElem?.2 hi
  simpa using List.filter_eq_nil_iff.1 h _ hmem

/-- The rule `best_rule` finds has the highest precedence among those not passed over. -/
theorem bestRule_eq_some {self : ProviderPolicy K E} {ctx : RoutingContext K E}
    {list : RankedList ConnectorKey} {strict : Bool} (h : self.bestRule ctx = some (list, strict)) :
    ∃ i r, self.rules[i]? = some r ∧ r.selector.passedOver ctx = false ∧ r.list = list ∧
      r.strict = strict ∧ ∀ j r', self.rules[j]? = some r' → r'.selector.passedOver ctx = false →
        precedence (r', j) ≤ precedence (r, i) := by
  rw [bestRule, foldl_considerRule, Option.map_map, Option.map_eq_some_iff] at h
  obtain ⟨⟨r, i⟩, hbest, hr⟩ := h
  obtain ⟨rfl, rfl⟩ : r.list = list ∧ r.strict = strict := by simpa [bestState] using hr
  obtain ⟨hmem, hpass⟩ := List.mem_filter.1 (List.argmax_mem hbest)
  refine ⟨i, r, List.mem_zipIdx_iff_getElem?.1 hmem, by simpa using hpass, rfl, rfl, ?_⟩
  intro j r' hj hpass'
  have hmem' : (r', j) ∈ self.rules.zipIdx.filter fun e => !e.1.selector.passedOver ctx :=
    List.mem_filter.2 ⟨List.mem_zipIdx_iff_getElem?.2 hj, by simp [hpass']⟩
  exact List.le_of_mem_argmax hmem' hbest

/-- The list and the strictness that apply in a context: the best rule's, or else the global rule's. -/
def governing (self : ProviderPolicy K E) (ctx : RoutingContext K E) :
    Option (RankedList ConnectorKey × Bool) :=
  (self.bestRule ctx).or self.global

/-- The rank a list and its strictness give a connector. -/
def rankUnder (governing : Option (RankedList ConnectorKey × Bool)) (key : ConnectorKey) :
    Option (Rank × Bool) :=
  match governing with
  | some (list, strict) =>
    match list.ranks key with
    | some rank => some (WithTop.some rank, strict)
    | none => if strict then none else some (⊤, false)
  | none => some (⊤, false)

theorem providerRank_eq (self : ProviderPolicy K E) (ctx : RoutingContext K E)
    (key : ConnectorKey) : self.providerRank ctx key = rankUnder (self.governing ctx) key := by
  rw [providerRank, governing]
  cases self.bestRule ctx with
  | some best => rfl
  | none => cases self.global <;> rfl

/-- Where a connector is eligible without being listed, every connector is eligible. -/
theorem isSome_of_providerRank_top {self : ProviderPolicy K E} {ctx : RoutingContext K E}
    {key : ConnectorKey} {strict : Bool} (h : self.providerRank ctx key = some (⊤, strict))
    (key' : ConnectorKey) : (self.providerRank ctx key').isSome := by
  rw [providerRank_eq] at h ⊢
  cases hgov : self.governing ctx with
  | none => rfl
  | some g =>
    obtain ⟨list, strict'⟩ := g
    rw [hgov, rankUnder] at h
    cases hrank : list.ranks key with
    | some rank => simp [hrank] at h
    | none =>
      cases strict' with
      | true => simp [hrank] at h
      | false => cases hrank' : list.ranks key' <;> simp [rankUnder, hrank']

end ProviderPolicy

/-- The provider rules and the exchange preferences. -/
structure RoutingPolicy (K E : Type) where
  providers : ProviderPolicy K E
  exchanges : Preference K E

/-- `provider_sort_key`. -/
def RoutingPolicy.providerSortKey (self : RoutingPolicy K E) (ctx : RoutingContext K E)
    (key : ConnectorKey) (origIdx : ℕ) : Rank ×ₗ ℕ :=
  let (rank, _) := (self.providers.providerRank ctx key).getD (⊤, false)
  toLex (rank, origIdx)

/-- `exchange_sort_key`, a tuple with a slot reserved for further tie-breakers. -/
def RoutingPolicy.exchangeSortKey (self : RoutingPolicy K E) (ctx : RoutingContext K E)
    (ex : Option E) (origIdx : ℕ) : Rank ×ₗ Rank ×ₗ Rank ×ₗ ℕ :=
  let nonePenalty : Rank := if ex.isSome then 0 else ⊤
  let rankMap := self.exchanges.resolveRankMap ctx.symbol ctx.kind
  let rank := unwrapOrMax (ex.bind fun e => rankMap.bind fun m => m e)
  toLex (rank, toLex (nonePenalty, toLex (⊤, origIdx)))

end

end Borsa
