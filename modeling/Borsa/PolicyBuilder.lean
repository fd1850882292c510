import Borsa.Core
import Borsa.Error
import Borsa.PolicySerde

/-!
# Building policies and orchestrators

`RoutingPolicyBuilder` sets the lists of a policy one call at a time. `BorsaBuilder::build` drops the
keys of unregistered connectors from the provider rules (`normalize_and_collect_unknown`) and rejects
the policy when there are any. A policy keeps its meaning when it is written and read and when it is
normalized (`policy_rewriting`).
-/

set_option linter.dupNamespace false

namespace Borsa

open Serde

/-! ## The builder of policies -/

/-- A builder: the policy so far. -/
structure RoutingPolicyBuilder (K E : Type) where
  policy : RoutingPolicy K E

namespace RoutingPolicyBuilder

variable {K E : Type}

/-- `RoutingPolicyBuilder::new`. -/
def new : RoutingPolicyBuilder K E := ⟨⟨⟨[], none⟩, .default⟩⟩

/-- `providers_global`. -/
def providersGlobal (self : RoutingPolicyBuilder K E) (list : List ConnectorKey) :
    RoutingPolicyBuilder K E :=
  ⟨{ self.policy with providers := self.policy.providers.setGlobal list false }⟩

/-- `providers_global_strict`. -/
def providersGlobalStrict (self : RoutingPolicyBuilder K E) (list : List ConnectorKey) :
    RoutingPolicyBuilder K E :=
  ⟨{ self.policy with providers := self.policy.providers.setGlobal list true }⟩

/-- `providers_rule`. -/
def providersRule (self : RoutingPolicyBuilder K E) (selector : Selector K E)
    (list : List ConnectorKey) (strict : Bool) : RoutingPolicyBuilder K E :=
  ⟨{ self.policy with providers := self.policy.providers.addRule selector list strict }⟩

/-- `providers_for_kind`. -/
def providersForKind (self : RoutingPolicyBuilder K E) (kind : K) (list : List ConnectorKey) :
    RoutingPolicyBuilder K E :=
  self.providersRule ⟨none, some kind, none⟩ list false

/-- `providers_for_symbol`. -/
def providersForSymbol (self : RoutingPolicyBuilder K E) (symbol : Symbol)
    (list : List ConnectorKey) : RoutingPolicyBuilder K E :=
  self.providersRule ⟨some symbol, none, none⟩ list false

/-- `providers_for_exchange`. -/
def providersForExchange (self : RoutingPolicyBuilder K E) (exchange : E)
    (list : List ConnectorKey) : RoutingPolicyBuilder K E :=
  self.providersRule ⟨none, none, some exchange⟩ list false

variable [DecidableEq K] [DecidableEq E]

/-- What the three calls that order exchanges share. -/
def exchangesFor (self : RoutingPolicyBuilder K E) (scope : ScopeKey K) (list : List E) :
    RoutingPolicyBuilder K E :=
  ⟨{ self.policy with exchanges := self.policy.exchanges.set scope list }⟩

/-- `exchanges_global`. -/
def exchangesGlobal (self : RoutingPolicyBuilder K E) (list : List E) : RoutingPolicyBuilder K E :=
  self.exchangesFor .global list

/-- `exchanges_for_kind`. -/
def exchangesForKind (self : RoutingPolicyBuilder K E) (kind : K) (list : List E) :
    RoutingPolicyBuilder K E :=
  self.exchangesFor (.kind kind) list

/-- `exchanges_for_symbol`. -/
def exchangesForSymbol (self : RoutingPolicyBuilder K E) (symbol : Symbol) (list : List E) :
    RoutingPolicyBuilder K E :=
  self.exchangesFor (.symbol symbol) list

/-- `build`. -/
def build (self : RoutingPolicyBuilder K E) : RoutingPolicy K E := self.policy

end RoutingPolicyBuilder

/-- The calls on a builder of policies. -/
inductive PolicyCall (K E : Type) where
  | providersGlobal (list : List ConnectorKey)
  | providersGlobalStrict (list : List ConnectorKey)
  | providersRule (selector : Selector K E) (list : List ConnectorKey) (strict : Bool)
  | providersForKind (kind : K) (list : List ConnectorKey)
  | providersForSymbol (symbol : Symbol) (list : List ConnectorKey)
  | providersForExchange (exchange : E) (list : List ConnectorKey)
  | exchangesGlobal (list : List E)
  | exchangesForKind (kind : K) (list : List E)
  | exchangesForSymbol (symbol : Symbol) (list : List E)

section
variable {K E : Type} [DecidableEq K] [DecidableEq E]

/-- One call on a builder of policies. -/
def RoutingPolicyBuilder.call (b : RoutingPolicyBuilder K E) :
    PolicyCall K E → RoutingPolicyBuilder K E
  | .providersGlobal list => b.providersGlobal list
  | .providersGlobalStrict list => b.providersGlobalStrict list
  | .providersRule selector list strict => b.providersRule selector list strict
  | .providersForKind kind list => b.providersForKind kind list
  | .providersForSymbol symbol list => b.providersForSymbol symbol list
  | .providersForExchange exchange list => b.providersForExchange exchange list
  | .exchangesGlobal list => b.exchangesGlobal list
  | .exchangesForKind kind list => b.exchangesForKind kind list
  | .exchangesForSymbol symbol list => b.exchangesForSymbol symbol list

/-- The calls one after another. -/
def RoutingPolicyBuilder.calls (b : RoutingPolicyBuilder K E) (calls : List (PolicyCall K E)) :
    RoutingPolicyBuilder K E :=
  calls.foldl RoutingPolicyBuilder.call b

end

/-! ## Normalizing -/

section
variable {K E : Type}

/-- What the loop over the keys of a list has collected. -/
structure NormalizeState where
  filtered : List ConnectorKey
  seen : Finset String
  missing : List String

/-- One key of a list: a known one is kept when its name is new, and another is missing. -/
def NormalizeState.push (known : Finset String) (st : NormalizeState) (key : ConnectorKey) :
    NormalizeState :=
  let name := key.asStr
  if name ∈ known then
    if name ∈ st.seen then st
    else { st with filtered := st.filtered ++ [key], seen := insert name st.seen }
  else { st with missing := st.missing ++ [name] }

/-- The loop over a list, which is ranked anew: the new list, and the names that are missing. -/
def normalizeList (known : Finset String) (list : RankedList ConnectorKey) :
    RankedList ConnectorKey × List String :=
  let st := list.values.foldl (NormalizeState.push known) ⟨[], ∅, []⟩
  (RankedList.new st.filtered, st.missing)

/-- Reports the names that are missing under a selector, if there are any. -/
def reportMissing (unknown : List (Selector K E × List String)) (selector : Selector K E)
    (missing : List String) : List (Selector K E × List String) :=
  if missing.isEmpty then unknown else unknown ++ [(selector, missing)]

/-- One rule of the loop of `normalize_and_collect_unknown`. -/
def normalizeRule (known : Finset String)
    (acc : List (ProviderRule K E) × List (Selector K E × List String))
    (rule : ProviderRule K E) : List (ProviderRule K E) × List (Selector K E × List String) :=
  let (list, missing) := normalizeList known rule.list
  (acc.1 ++ [{ rule with list }], reportMissing acc.2 rule.selector missing)

/-- `normalize_and_collect_unknown`: the policy after it, and what it returns. -/
def ProviderPolicy.normalizeAndCollectUnknown (self : ProviderPolicy K E) (known : Finset String) :
    ProviderPolicy K E × List (Selector K E × List String) :=
  let (global, unknown) : Option (RankedList ConnectorKey × Bool) × _ :=
    match self.global with
    | some (global, strict) =>
      let (list, missing) := normalizeList known global
      (some (list, strict), reportMissing [] ⟨none, none, none⟩ missing)
    | none => (none, [])
  let (rules, unknown) := self.rules.foldl (normalizeRule known) ([], unknown)
  (⟨rules, global⟩, unknown)

/-! ## What normalizing does -/

/-- The known keys of a list, in order. -/
def knownKeys (known : Finset String) (keys : List ConnectorKey) : List ConnectorKey :=
  keys.filter fun key => key.asStr ∈ known

/-- The names of the other keys of a list, in order. -/
def unknownNames (known : Finset String) (keys : List ConnectorKey) : List String :=
  (keys.filter fun key => key.asStr ∉ known).map ConnectorKey.asStr

/-- The keys that a policy lists under each selector, those of the global rule under the empty one. -/
def ProviderPolicy.listed (self : ProviderPolicy K E) : List (Selector K E × List ConnectorKey) :=
  (self.global.map fun global => (⟨none, none, none⟩, global.1.values)).toList ++
    self.rules.map fun rule => (rule.selector, rule.list.values)

/-- A normalized policy has the rules of the old one, each as strict as before, with the known keys of
its list in their order; and for each selector in order the keys that are not known are reported. -/
structure ProviderPolicy.Normalizes (known : Finset String) (p p' : ProviderPolicy K E)
    (unknown : List (Selector K E × List String)) : Prop where
  rules : p'.rules.map (fun rule => (rule.selector, rule.list.values, rule.strict)) =
    p.rules.map fun rule => (rule.selector, knownKeys known rule.list.values, rule.strict)
  global : p'.global.map (fun global => (global.1.values, global.2)) =
    p.global.map fun global => (knownKeys known global.1.values, global.2)
  unknown : unknown = (p.listed.map fun x => (x.1, unknownNames known x.2)).filter
    fun x => x.2 ≠ []

/-- The loop over a list without repetitions. -/
theorem foldl_push (known : Finset String) {keys : List ConnectorKey} (h : keys.Nodup) :
    keys.foldl (NormalizeState.push known) ⟨[], ∅, []⟩ =
      ⟨knownKeys known keys, ((knownKeys known keys).map ConnectorKey.asStr).toFinset,
        unknownNames known keys⟩ := by
  induction keys using List.reverseRecOn with
  | nil => rfl
  | append_singleton keys key ih =>
    obtain ⟨hkeys, -, hne⟩ := List.nodup_append.1 h
    rw [List.foldl_append, ih hkeys, List.foldl_cons, List.foldl_nil, NormalizeState.push,
      knownKeys, knownKeys, unknownNames, unknownNames, List.filter_append, List.filter_append]
    by_cases hknown : key.asStr ∈ known
    · -- the name of a key is new because the key is
      have hnew : key.asStr ∉ ((keys.filter fun key => key.asStr ∈ known).map
          ConnectorKey.asStr).toFinset := by
        intro hmem
        obtain ⟨key', hkey', hname⟩ := List.mem_map.1 (List.mem_toFinset.1 hmem)
        have heq : key' = key := by
          obtain ⟨_⟩ := key
          obtain ⟨_⟩ := key'
          exact congrArg ConnectorKey.mk hname
        exact hne key' (List.mem_filter.1 hkey').1 key (by simp) heq
      simp only [if_pos hknown, if_neg hnew]
      simp [hknown]
    · simp [hknown]

theorem values_normalizeList (known : Finset String) (list : RankedList ConnectorKey) :
    (normalizeList known list).1.values = knownKeys known list.values := by
  rw [normalizeList, foldl_push known list.nodup]
  have hnodup : (knownKeys known list.values).Nodup := list.nodup.filter _
  exact foldl_pushUnseen_of_nodup hnodup

theorem missing_normalizeList (known : Finset String) (list : RankedList ConnectorKey) :
    (normalizeList known list).2 = unknownNames known list.values := by
  rw [normalizeList, foldl_push known list.nodup]

/-- A list of known keys is normal. -/
theorem normalizeList_of_forall {known : Finset String} {list : RankedList ConnectorKey}
    (h : ∀ key ∈ list.values, key.asStr ∈ known) : (normalizeList known list).1 = list := by
  refine RankedList.ext_values ((values_normalizeList known list).trans ?_)
  exact List.filter_eq_self.2 fun key hkey => decide_eq_true (h key hkey)

theorem reportMissing_eq (unknown : List (Selector K E × List String)) (selector : Selector K E)
    (missing : List String) : reportMissing unknown selector missing =
      unknown ++ [(selector, missing)].filter fun x => x.2 ≠ [] := by
  cases missing <;> simp [reportMissing]

/-- The loop over the rules. -/
theorem foldl_normalizeRule (known : Finset String) (rules : List (ProviderRule K E))
    (unknown : List (Selector K E × List String)) :
    rules.foldl (normalizeRule known) ([], unknown) =
      (rules.map fun rule => { rule with list := (normalizeList known rule.list).1 },
        unknown ++ (rules.map fun rule =>
          (rule.selector, unknownNames known rule.list.values)).filter fun x => x.2 ≠ []) := by
  induction rules using List.reverseRecOn with
  | nil => simp
  | append_singleton rules rule ih =>
    rw [List.foldl_append, ih, List.foldl_cons, List.foldl_nil, normalizeRule]
    simp only [reportMissing_eq, missing_normalizeList, List.map_append, List.filter_append,
      List.append_assoc, List.map_cons, List.map_nil]

/-- Normalizing, list by list. -/
theorem ProviderPolicy.normalizeAndCollectUnknown_eq (p : ProviderPolicy K E)
    (known : Finset String) : p.normalizeAndCollectUnknown known =
      (⟨p.rules.map fun rule => { rule with list := (normalizeList known rule.list).1 },
        p.global.map fun global => ((normalizeList known global.1).1, global.2)⟩,
      (p.listed.map fun x => (x.1, unknownNames known x.2)).filter fun x => x.2 ≠ []) := by
  obtain ⟨rules, global⟩ := p
  have hmap : rules.map ((fun x => (x.1, unknownNames known x.2)) ∘
      fun rule : ProviderRule K E => (rule.selector, rule.list.values)) =
      rules.map fun rule => (rule.selector, unknownNames known rule.list.values) := rfl
  rcases global with _ | ⟨list, strict⟩
  · simp [normalizeAndCollectUnknown, foldl_normalizeRule, listed, hmap]
  · simp only [normalizeAndCollectUnknown, foldl_normalizeRule, listed, reportMissing_eq,
      missing_normalizeList, List.map_append, List.filter_append, List.map_map, hmap]
    rfl

theorem ProviderPolicy.normalizes (p : ProviderPolicy K E) (known : Finset String) :
    Normalizes known p (p.normalizeAndCollectUnknown known).1
      (p.normalizeAndCollectUnknown known).2 := by
  rw [normalizeAndCollectUnknown_eq]
  refine ⟨?_, ?_, rfl⟩
  · simp [values_normalizeList]
  · cases p.global <;> simp [values_normalizeList]

/-- Every key that the policy lists is known. -/
def ProviderPolicy.ListsOnly (p : ProviderPolicy K E) (known : Finset String) : Prop :=
  ∀ x ∈ p.listed, ∀ key ∈ x.2, key.asStr ∈ known

/-- Nothing is reported of a policy that lists only known keys. -/
theorem ProviderPolicy.unknown_eq_nil_iff {p : ProviderPolicy K E} {known : Finset String} :
    (p.normalizeAndCollectUnknown known).2 = [] ↔ p.ListsOnly known := by
  have hnone : ∀ keys : List ConnectorKey,
      unknownNames known keys = [] ↔ ∀ key ∈ keys, key.asStr ∈ known := by
    simp [unknownNames, List.filter_eq_nil_iff]
  rw [normalizeAndCollectUnknown_eq, List.filter_eq_nil_iff, List.forall_mem_map]
  exact forall₂_congr fun x _ => by rw [← hnone]; simp

/-- A policy that lists only known keys is normal. -/
theorem ProviderPolicy.normalize_of_listsOnly {p : ProviderPolicy K E} {known : Finset String}
    (h : p.ListsOnly known) : (p.normalizeAndCollectUnknown known).1 = p := by
  obtain ⟨rules, global⟩ := p
  rw [normalizeAndCollectUnknown_eq]
  have hlisted := List.forall_mem_append.1 h
  have hrules : rules.map (fun rule => { rule with list := (normalizeList known rule.list).1 }) =
      rules := by
    refine (List.map_congr_left fun rule hrule => ?_).trans (List.map_id rules)
    have hknown : ∀ key ∈ rule.list.values, key.asStr ∈ known :=
      hlisted.2 (rule.selector, rule.list.values) (List.mem_map_of_mem hrule)
    rw [normalizeList_of_forall hknown]
    rfl
  have hglobal : global.map (fun global => ((normalizeList known global.1).1, global.2)) =
      global := by
    rcases global with _ | ⟨list, strict⟩
    · rfl
    · have hknown : ∀ key ∈ list.values, key.asStr ∈ known :=
        hlisted.1 (⟨none, none, none⟩, list.values) (by simp)
      rw [Option.map_some, normalizeList_of_forall hknown]
  exact congrArg₂ ProviderPolicy.mk hrules hglobal

end

/-! ## The builder of orchestrators -/

/-- `Debug`. The texts of symbols, kinds and exchanges are the `paft` crate's. -/
class Debug (α : Type) where
  fmt : α → String

/-- The derived text of an option. -/
instance Debug.option {α : Type} [Debug α] : Debug (Option α) where
  fmt
    | none => "None"
    | some a => "Some(" ++ Debug.fmt a ++ ")"

section
variable {K E : Type} [Debug Symbol] [Debug K] [Debug E]

/-- The derived text of a selector. -/
instance Selector.debug : Debug (Selector K E) where
  fmt s := "Selector \x7b symbol: " ++ Debug.fmt s.symbol ++ ", kind: " ++ Debug.fmt s.kind ++
    ", exchange: " ++ Debug.fmt s.exchange ++ " \x7d"

/-- The unknown connectors as `build` lists them. -/
def unknownDetails (unknown : List (Selector K E × List String)) : String :=
  "; ".intercalate (unknown.map fun x => Debug.fmt x.1 ++ ": " ++ ", ".intercalate x.2)

/-- A builder of orchestrators: the connectors and the configuration so far. -/
structure BorsaBuilder (K E : Type) where
  connectors : List (Connector K)
  cfg : BorsaConfig K E

namespace BorsaBuilder

/-- The registered connectors' names. -/
def known (self : BorsaBuilder K E) : Finset String := (self.connectors.map Connector.name).toFinset

/-- `build`. -/
def build (self : BorsaBuilder K E) : Except BorsaError (Borsa K E) :=
  let (providers, unknown) :=
    self.cfg.routingPolicy.providers.normalizeAndCollectUnknown self.known
  let cfg := { self.cfg with routingPolicy := { self.cfg.routingPolicy with providers } }
  if !unknown.isEmpty then
    .error (.invalidArg ("routing policy references unknown connectors: " ++
      unknownDetails unknown))
  else if self.connectors.isEmpty then
    .error (.invalidArg "no connectors registered; add at least one via with_connector(...)")
  else .ok ⟨self.connectors, cfg⟩

/-- An orchestrator is built from connectors and a policy that lists no others; both stay as they
are. -/
theorem build_eq_ok {self : BorsaBuilder K E} {borsa : Borsa K E} : self.build = .ok borsa ↔
    (self.connectors ≠ [] ∧ self.cfg.routingPolicy.providers.ListsOnly self.known) ∧
      borsa = ⟨self.connectors, self.cfg⟩ := by
  have hnil := @ProviderPolicy.unknown_eq_nil_iff _ _ self.cfg.routingPolicy.providers self.known
  have hnormal := @ProviderPolicy.normalize_of_listsOnly _ _ self.cfg.routingPolicy.providers
    self.known
  rw [build]
  generalize self.cfg.routingPolicy.providers.normalizeAndCollectUnknown self.known = normalized
    at hnil hnormal
  obtain ⟨providers, unknown⟩ := normalized
  cases unknown with
  | cons x rest =>
    exact iff_of_false (by simp) fun h => List.cons_ne_nil x rest (hnil.2 h.1.2)
  | nil =>
    have hlists := hnil.1 rfl
    obtain rfl : providers = self.cfg.routingPolicy.providers := hnormal hlists
    cases hconnectors : self.connectors with
    | nil => exact iff_of_false (by simp) fun h => h.1.1 rfl
    | cons connector rest =>
      have hok : (Except.ok ⟨connector :: rest, self.cfg⟩ : Except BorsaError (Borsa K E)) =
          .ok borsa ↔ borsa = ⟨connector :: rest, self.cfg⟩ := by
        rw [Except.ok.injEq, eq_comm]
      exact hok.trans (and_iff_right ⟨List.cons_ne_nil _ _, hlists⟩).symm

end BorsaBuilder

end

/-! ## Policies keep their meaning -/

section
variable {K E : Type} [DecidableEq K] [DecidableEq E] [Debug Symbol] [Debug K] [Debug E]

/-- A policy that any calls build comes back from a self-describing format as one that ranks alike.
Normalizing it reports the unknown keys of each selector and keeps the known ones in order. An
orchestrator is built with it exactly when there are connectors and the policy lists no others, and
routes as the policy says. -/
theorem policy_rewriting (ops : List (PolicyCall K E)) :
    let policy := (RoutingPolicyBuilder.new.calls ops).build
    (∀ {V : Type} {F : Format V} (c : PaftCodecs F K E), F.SelfDescribing → ∀ order order',
      ∃ policy', RoutingPolicy.deserialize c order' (policy.serialize c order) = some policy' ∧
        policy'.RanksAlike policy) ∧
    (∀ known, ProviderPolicy.Normalizes known policy.providers
      (policy.providers.normalizeAndCollectUnknown known).1
      (policy.providers.normalizeAndCollectUnknown known).2) ∧
    ∀ builder : BorsaBuilder K E, builder.cfg.routingPolicy = policy →
      ((∃ borsa, builder.build = .ok borsa) ↔
        builder.connectors ≠ [] ∧ policy.providers.ListsOnly builder.known) ∧
      ∀ borsa, builder.build = .ok borsa →
        borsa.cfg.routingPolicy.RanksAlike policy ∧
          ∀ ctx, borsa.orderedForContext ctx =
            Borsa.orderedForContext ⟨builder.connectors, builder.cfg⟩ ctx := by
  intro policy
  refine ⟨fun c hF order order' => ?_, fun known => policy.providers.normalizes known, ?_⟩
  · exact policy.exists_deserialize_serialize c hF order order'
  · intro builder hpolicy
    constructor
    · rw [← hpolicy]
      constructor
      · rintro ⟨borsa, h⟩
        exact (BorsaBuilder.build_eq_ok.1 h).1
      · intro h
        exact ⟨_, BorsaBuilder.build_eq_ok.2 ⟨h, rfl⟩⟩
    · intro borsa h
      obtain rfl := (BorsaBuilder.build_eq_ok.1 h).2
      exact ⟨⟨fun _ _ => by rw [hpolicy], fun _ _ _ => by rw [hpolicy]⟩, fun _ => rfl⟩

end

/-- Symbols and exchanges as strings, and one kind. -/
def plainCodecs (F : Format Json) (hne : ∀ s, F.str s ≠ F.absent)
    (hkey : ∀ s, F.Key (F.str s)) : PaftCodecs F Unit String where
  symbol := F.strKeys Symbol.asStr (fun s => some ⟨s⟩) (fun _ => rfl) hne hkey
  kind := F.strKeys (fun _ => "EQUITY") (fun _ => some ()) (fun _ => rfl) hne hkey
  exchange := (F.strKeys id some (fun _ => rfl) hne hkey).toCodec

/-- A policy comes back from JSON. -/
theorem jsonPolicy_rewriting :
    let policy : RoutingPolicy Unit String := (RoutingPolicyBuilder.new.calls [
      .providersForSymbol ⟨"AAPL"⟩ [⟨"fast"⟩, ⟨"slow"⟩, ⟨"fast"⟩],
      .exchangesForKind () ["LSE", "NYSE"]]).build
    let codecs := plainCodecs Json.format (fun _ => Json.noConfusion) fun s => ⟨s, rfl⟩
    ∃ policy', RoutingPolicy.deserialize codecs .insertion (policy.serialize codecs .insertion) =
      some policy' ∧ policy'.RanksAlike policy := by
  let : Debug Symbol := ⟨Symbol.asStr⟩
  let : Debug Unit := ⟨fun _ => "Equity"⟩
  let : Debug String := ⟨id⟩
  exact (policy_rewriting _).1 _ Json.selfDescribing_format .insertion .insertion

/-- The default policy lists no connector, yet nothing is built with it where none is registered; and
it comes back neither from a format that marks present options nor from one that names structs. -/
theorem default_policy_not_rewritten :
    letI : Debug Symbol := ⟨Symbol.asStr⟩
    letI : Debug Unit := ⟨fun _ => "Equity"⟩
    letI : Debug String := ⟨id⟩
    let policy : RoutingPolicy Unit String := (RoutingPolicyBuilder.new.calls []).build
    let builder : BorsaBuilder Unit String := ⟨[], ⟨policy, none⟩⟩
    let marked := plainCodecs Json.markedFormat (fun _ => Json.noConfusion) fun s => ⟨s, rfl⟩
    let named := plainCodecs Json.namedFormat (fun _ => Json.noConfusion) fun s => ⟨s, rfl⟩
    (policy.providers.ListsOnly builder.known ∧ ¬∃ borsa, builder.build = .ok borsa) ∧
      RoutingPolicy.deserialize marked .insertion (policy.serialize marked .insertion) = none ∧
      RoutingPolicy.deserialize named .insertion (policy.serialize named .insertion) = none := by
  refine ⟨⟨List.forall_mem_nil _, ?_⟩, rfl, rfl⟩
  rintro ⟨borsa, h⟩
  cases h

end Borsa
