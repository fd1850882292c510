import Borsa.Lib.Serde
import Borsa.RoutingPolicy

/-!
# Policies that are written and read

How a routing policy is serialized and deserialized. A ranked list is written as its values, and its
ranks are computed anew when it is read. The hash maps of a preference are written in the order in
which they are iterated; they are read as optional maps of plain lists, which are then collected as
ranked lists. What is read has the list of every scope (`Preference.SameLists`).

The types of the `paft` crate are written and read by that crate (`PaftCodecs`).
-/

namespace Borsa

open Serde

/-- How a format writes and reads the types of the `paft` crate. -/
structure PaftCodecs {V : Type} (F : Format V) (K E : Type) where
  symbol : F.KeyCodec Symbol
  kind : F.KeyCodec K
  exchange : F.Codec E

section
variable {V K E T : Type} (F : Format V)

/-! ## Ranked lists -/

/-- The serialization of a connector key. -/
def ConnectorKey.serialize (key : ConnectorKey) : V := F.str key.asStr

/-- The deserialization of a connector key. -/
def ConnectorKey.deserialize (v : V) : Option ConnectorKey := (F.readStr v).map ConnectorKey.mk

/-- The serialization of a ranked list. -/
def RankedList.serialize (write : T → V) (self : RankedList T) : V := F.writeSeq write self.values

/-- The deserialization of a ranked list. -/
def RankedList.deserialize [DecidableEq T] (read : V → Option T) (v : V) :
    Option (RankedList T) :=
  (F.readSeqWith read v).map RankedList.new

@[simp] theorem ConnectorKey.deserialize_serialize (key : ConnectorKey) :
    ConnectorKey.deserialize F (key.serialize F) = some key := by
  simp [ConnectorKey.serialize, ConnectorKey.deserialize, F.readStr_str]

/-- The values of a ranked list are read as they were written. -/
theorem RankedList.readSeqWith_serialize {write : T → V} {read : V → Option T}
    (h : ∀ a, read (write a) = some a) (list : RankedList T) :
    F.readSeqWith read (list.serialize F write) = some list.values := by
  rw [RankedList.serialize, F.readSeqWith_writeSeq_self h]

/-- The ranks that are computed anew are the ranks that were not written. -/
theorem RankedList.deserialize_serialize [DecidableEq T] {write : T → V} {read : V → Option T}
    (h : ∀ a, read (write a) = some a) (list : RankedList T) :
    RankedList.deserialize F read (list.serialize F write) = some list := by
  rw [RankedList.deserialize, readSeqWith_serialize F h, Option.map_some, RankedList.new_values]

/-- Ranking the values of ranked lists gives the lists. -/
theorem RankedList.new_comp_values [DecidableEq T] :
    RankedList.new ∘ RankedList.values = (id : RankedList T → RankedList T) :=
  funext RankedList.new_values

theorem RankedList.serialize_ne_absent (write : T → V) (list : RankedList T) :
    list.serialize F write ≠ F.absent :=
  F.seq_ne_absent _

/-! ## Provider rules -/

variable {F} (c : PaftCodecs F K E)

/-- The fields of a selector, as they are serialized. -/
def Selector.fields (self : Selector K E) : List (String × V) := [
  ("symbol", F.writeOption c.symbol.serialize self.symbol),
  ("kind", F.writeOption c.kind.serialize self.kind),
  ("exchange", F.writeOption c.exchange.serialize self.exchange)]

/-- The serialization of a selector. -/
def Selector.serialize (self : Selector K E) : V := F.struct "Selector" (self.fields c)

/-- The deserialization of a selector. -/
def Selector.deserialize (v : V) : Option (Selector K E) := do
  let fields ← F.readStruct "Selector" ["symbol", "kind", "exchange"] v
  return {
    symbol := ← F.readOptionField fields "symbol" c.symbol.deserialize
    kind := ← F.readOptionField fields "kind" c.kind.deserialize
    exchange := ← F.readOptionField fields "exchange" c.exchange.deserialize }

/-- The fields of a provider rule, as they are serialized. -/
def ProviderRule.fields (self : ProviderRule K E) : List (String × V) := [
  ("selector", self.selector.serialize c),
  ("list", self.list.serialize F (ConnectorKey.serialize F)),
  ("strict", F.bool self.strict)]

/-- The serialization of a provider rule. -/
def ProviderRule.serialize (self : ProviderRule K E) : V :=
  F.struct "ProviderRule" (self.fields c)

/-- The deserialization of a provider rule. -/
def ProviderRule.deserialize (v : V) : Option (ProviderRule K E) := do
  let fields ← F.readStruct "ProviderRule" ["selector", "list", "strict"] v
  return {
    selector := ← Format.readField fields "selector" (Selector.deserialize c)
    list := ← Format.readField fields "list"
      (RankedList.deserialize F (ConnectorKey.deserialize F))
    strict := ← Format.readField fields "strict" F.readBool }

/-- The serialization of a global rule: a pair of its list and its strictness. -/
def serializeGlobal (F : Format V) (global : RankedList ConnectorKey × Bool) : V :=
  F.tuple [global.1.serialize F (ConnectorKey.serialize F), F.bool global.2]

/-- The deserialization of a global rule. -/
def deserializeGlobal (F : Format V) (v : V) : Option (RankedList ConnectorKey × Bool) := do
  match ← F.readTuple 2 v with
  | [list, strict] =>
    return (← RankedList.deserialize F (ConnectorKey.deserialize F) list, ← F.readBool strict)
  | _ => none

/-- The fields of the provider rules, as they are serialized. -/
def ProviderPolicy.fields (self : ProviderPolicy K E) : List (String × V) := [
  ("rules", F.writeSeq (ProviderRule.serialize c) self.rules),
  ("global", F.writeOption (serializeGlobal F) self.global)]

/-- The serialization of the provider rules. -/
def ProviderPolicy.serialize (self : ProviderPolicy K E) : V :=
  F.struct "ProviderPolicy" (self.fields c)

/-- The deserialization of the provider rules. -/
def ProviderPolicy.deserialize (v : V) : Option (ProviderPolicy K E) := do
  let fields ← F.readStruct "ProviderPolicy" ["rules", "global"] v
  return {
    rules := ← Format.readField fields "rules" (F.readSeqWith (ProviderRule.deserialize c))
    global := ← F.readOptionField fields "global" (deserializeGlobal F) }

theorem Selector.deserialize_serialize (s : Selector K E) :
    Selector.deserialize c (s.serialize c) = some s := by
  have hnames : (s.fields c).map Prod.fst = ["symbol", "kind", "exchange"] := rfl
  obtain ⟨fields, hread, hfields⟩ := F.exists_readStruct_fields "Selector" hnames (by simp)
  simp only [Selector.fields, List.forall_mem_cons] at hfields
  obtain ⟨hsymbol, hkind, hexchange, -⟩ := hfields
  simp [Selector.serialize, Selector.deserialize, hread, F.readOptionField_eq hsymbol,
    F.readOptionField_eq hkind, F.readOptionField_eq hexchange,
    Format.Codec.readOptionWith_writeOption]

theorem ProviderRule.deserialize_serialize (r : ProviderRule K E) :
    ProviderRule.deserialize c (r.serialize c) = some r := by
  have hnames : (r.fields c).map Prod.fst = ["selector", "list", "strict"] := rfl
  obtain ⟨fields, hread, hfields⟩ := F.exists_readStruct_fields "ProviderRule" hnames (by simp)
  simp only [ProviderRule.fields, List.forall_mem_cons] at hfields
  obtain ⟨hselector, hlist, hstrict, -⟩ := hfields
  simp [ProviderRule.serialize, ProviderRule.deserialize, hread, Format.readField_eq hselector,
    Format.readField_eq hlist, Format.readField_eq hstrict, Selector.deserialize_serialize,
    RankedList.deserialize_serialize F (ConnectorKey.deserialize_serialize F), F.readBool_bool]

theorem deserializeGlobal_serializeGlobal (F : Format V)
    (global : RankedList ConnectorKey × Bool) :
    deserializeGlobal F (serializeGlobal F global) = some global := by
  have hread : F.readTuple 2 (serializeGlobal F global) =
      some [global.1.serialize F (ConnectorKey.serialize F), F.bool global.2] :=
    F.readTuple_tuple [_, _]
  simp [deserializeGlobal, hread, F.readBool_bool,
    RankedList.deserialize_serialize F (ConnectorKey.deserialize_serialize F)]

/-- The provider rules are read as they were written. -/
theorem ProviderPolicy.deserialize_serialize (p : ProviderPolicy K E) :
    ProviderPolicy.deserialize c (p.serialize c) = some p := by
  have hnames : (p.fields c).map Prod.fst = ["rules", "global"] := rfl
  obtain ⟨fields, hread, hfields⟩ := F.exists_readStruct_fields "ProviderPolicy" hnames (by simp)
  simp only [ProviderPolicy.fields, List.forall_mem_cons] at hfields
  obtain ⟨hrules, hglobal, -⟩ := hfields
  have hne : ∀ global, serializeGlobal F global ≠ F.absent := fun _ => F.tuple_ne_absent _
  simp [ProviderPolicy.serialize, ProviderPolicy.deserialize, hread, Format.readField_eq hrules,
    F.readOptionField_eq hglobal, F.readSeqWith_writeSeq_self (ProviderRule.deserialize_serialize c),
    F.readOptionWith_writeOption_self (deserializeGlobal_serializeGlobal F) hne]

/-! ## Preferences -/

section
variable [DecidableEq T]

/-- The fields of a preference, as they are serialized when its maps are iterated in an order. -/
def Preference.fields (order : HashOrder) (value : F.Codec T) (self : Preference K T) :
    List (String × V) := [
  ("global", F.writeOption (RankedList.serialize F value.serialize) self.global),
  ("by_kind", F.writeMap c.kind.serialize (RankedList.serialize F value.serialize)
    (order.iter self.byKind.entries)),
  ("by_symbol", F.writeMap c.symbol.serialize (RankedList.serialize F value.serialize)
    (order.iter self.bySymbol.entries))]

/-- The serialization of a preference. -/
def Preference.serialize (order : HashOrder) (value : F.Codec T) (self : Preference K T) : V :=
  F.struct "Preference" (self.fields c order value)

/-- A map of lists, collected again as a map of ranked lists. -/
def rankLists {κ : Type} [DecidableEq κ] (order : HashOrder) (m : AList fun _ : κ => List T) :
    AList fun _ : κ => RankedList T :=
  collect ((order.iter m.entries).map (mapValue RankedList.new))

/-- The deserialization of a preference, through the struct `PrefSerde`. -/
def Preference.deserialize [DecidableEq K] (order : HashOrder) (value : F.Codec T) (v : V) :
    Option (Preference K T) := do
  let fields ← F.readStruct "PrefSerde" ["global", "by_kind", "by_symbol"] v
  let list := F.readSeqWith value.deserialize
  let global ← F.readOptionField fields "global" list
  let byKind ← F.readOptionField fields "by_kind" (F.readMapWith c.kind.deserialize list)
  let bySymbol ← F.readOptionField fields "by_symbol" (F.readMapWith c.symbol.deserialize list)
  return {
    global := global.map RankedList.new
    byKind := rankLists order (byKind.getD ∅)
    bySymbol := rankLists order (bySymbol.getD ∅) }

end

/-- Two preferences with the same list in every scope. -/
structure Preference.SameLists [DecidableEq K] (p p' : Preference K T) : Prop where
  global : p.global = p'.global
  byKind : ∀ kind, p.byKind.lookup kind = p'.byKind.lookup kind
  bySymbol : ∀ symbol, p.bySymbol.lookup symbol = p'.bySymbol.lookup symbol

theorem Preference.SameLists.resolveRankMap [DecidableEq K] {p p' : Preference K T}
    (h : p.SameLists p') (symbol : Option Symbol) (kind : Option K) :
    p.resolveRankMap symbol kind = p'.resolveRankMap symbol kind := by
  simp only [Preference.resolveRankMap, h.global, h.byKind, h.bySymbol]

/-- A map of ranked lists that is written comes back with the same lists. -/
theorem exists_readMap_rankLists [DecidableEq T] {κ : Type} [DecidableEq κ] (hF : F.SelfDescribing)
    (order order' : HashOrder) (key : F.KeyCodec κ) (value : F.Codec T)
    (m : AList fun _ : κ => RankedList T) :
    ∃ m', F.readOptionWith (F.readMapWith key.deserialize (F.readSeqWith value.deserialize))
        (F.writeMap key.serialize (RankedList.serialize F value.serialize)
          (order.iter m.entries)) = some (some m') ∧
      ∀ k, (rankLists order' m').lookup k = m.lookup k := by
  obtain ⟨m', hread, hlookup⟩ := F.lookup_readMap key.deserialize_serialize key.key_serialize
    (RankedList.readSeqWith_serialize F value.deserialize_serialize) m (order.perm m.entries)
  refine ⟨m', ?_, fun k => ?_⟩
  · rw [hF.readOptionWith_writeMap, hread]
    rfl
  · rw [rankLists, lookup_collect_map m' (order'.perm _), hlookup, Option.map_map]
    rw [RankedList.new_comp_values, Option.map_id]
    rfl

/-- A preference is read back with the same list in every scope. -/
theorem Preference.exists_deserialize_serialize [DecidableEq T] [DecidableEq K]
    (hF : F.SelfDescribing) (order order' : HashOrder) (value : F.Codec T) (p : Preference K T) :
    ∃ p', Preference.deserialize c order' value (p.serialize c order value) = some p' ∧
      p'.SameLists p := by
  have hnames : (p.fields c order value).map Prod.fst = ["global", "by_kind", "by_symbol"] := rfl
  obtain ⟨fields, hread, hfields⟩ := F.exists_readStruct_fields "Preference" hnames (by simp)
  simp only [Preference.fields, List.forall_mem_cons] at hfields
  obtain ⟨hglobal, hkind, hsymbol, -⟩ := hfields
  rw [hF.readStruct_name "Preference" "PrefSerde"] at hread
  have hlists := F.readOptionWith_writeOption
    (RankedList.readSeqWith_serialize F value.deserialize_serialize)
    (RankedList.serialize_ne_absent F value.serialize) p.global
  obtain ⟨byKind, hreadKind, hbyKind⟩ :=
    exists_readMap_rankLists hF order order' c.kind value p.byKind
  obtain ⟨bySymbol, hreadSymbol, hbySymbol⟩ :=
    exists_readMap_rankLists hF order order' c.symbol value p.bySymbol
  refine ⟨⟨p.global, rankLists order' byKind, rankLists order' bySymbol⟩, ?_,
    rfl, hbyKind, hbySymbol⟩
  simp [Preference.serialize, Preference.deserialize, hread, F.readOptionField_eq hglobal,
    F.readOptionField_eq hkind, F.readOptionField_eq hsymbol, hlists, hreadKind, hreadSymbol,
    RankedList.new_comp_values]

/-! ## Policies -/

variable [DecidableEq K] [DecidableEq E]

/-- The fields of a policy, as they are serialized. -/
def RoutingPolicy.fields (order : HashOrder) (self : RoutingPolicy K E) : List (String × V) := [
  ("providers", self.providers.serialize c),
  ("exchanges", self.exchanges.serialize c order c.exchange)]

/-- The serialization of a policy. -/
def RoutingPolicy.serialize (order : HashOrder) (self : RoutingPolicy K E) : V :=
  F.struct "RoutingPolicy" (self.fields c order)

/-- The deserialization of a policy. -/
def RoutingPolicy.deserialize (order : HashOrder) (v : V) : Option (RoutingPolicy K E) := do
  let fields ← F.readStruct "RoutingPolicy" ["providers", "exchanges"] v
  return {
    providers := ← Format.readField fields "providers" (ProviderPolicy.deserialize c)
    exchanges := ← Format.readField fields "exchanges"
      (Preference.deserialize c order c.exchange) }

/-- Two policies that rank every connector and every exchange alike. -/
structure RoutingPolicy.RanksAlike (policy policy' : RoutingPolicy K E) : Prop where
  providerRank : ∀ ctx key,
    policy.providers.providerRank ctx key = policy'.providers.providerRank ctx key
  exchangeSortKey : ∀ ctx ex origIdx,
    policy.exchangeSortKey ctx ex origIdx = policy'.exchangeSortKey ctx ex origIdx

/-- A policy is read back as one that ranks alike. -/
theorem RoutingPolicy.exists_deserialize_serialize (hF : F.SelfDescribing)
    (order order' : HashOrder) (policy : RoutingPolicy K E) :
    ∃ policy', RoutingPolicy.deserialize c order' (policy.serialize c order) = some policy' ∧
      policy'.RanksAlike policy := by
  have hnames : (policy.fields c order).map Prod.fst = ["providers", "exchanges"] := rfl
  obtain ⟨fields, hread, hfields⟩ := F.exists_readStruct_fields "RoutingPolicy" hnames (by simp)
  simp only [RoutingPolicy.fields, List.forall_mem_cons] at hfields
  obtain ⟨hproviders, hexchanges, -⟩ := hfields
  obtain ⟨exchanges, hreadExchanges, hsame⟩ :=
    Preference.exists_deserialize_serialize c hF order order' c.exchange policy.exchanges
  refine ⟨⟨policy.providers, exchanges⟩, ?_, fun _ _ => rfl, fun ctx ex origIdx => ?_⟩
  · simp [RoutingPolicy.serialize, RoutingPolicy.deserialize, hread, Format.readField_eq hproviders,
      Format.readField_eq hexchanges, ProviderPolicy.deserialize_serialize, hreadExchanges]
  · simp only [RoutingPolicy.exchangeSortKey, hsame.resolveRankMap]

end

end Borsa
