import Borsa.History.Request
import Borsa.Lib.OrdMap
import Borsa.Lib.Table
import Borsa.Middleware.Call

/-!
# The cache layer

`CachingConnector` keeps the answers of its inner connector, and the permanent errors among them in a
second store, under a key made from the request. The stores are `moka` caches: maps whose entries
expire or are evicted, and that load a missing key once.

Intervals, ranges and news tabs are enumerations of the `paft` crate without data. They are compared
and hashed through their discriminants, so a key holds the discriminant.
-/

namespace Borsa

/-- An enumeration without data. -/
class Fieldless (α : Type) where
  /-- `std::mem::discriminant`. -/
  discriminant : α → ℤ
  injective : Function.Injective discriminant

instance : Fieldless Bool := ⟨fun b => if b then 1 else 0, by decide⟩

/-! ## Configuration -/

/-- The configuration of a cache. A `HashMap` is its entries, in the order of their keys. -/
structure CacheConfig where
  defaultTtlMs : UInt64
  perCapabilityTtlMs : OrdMap String UInt64
  defaultMaxEntries : UInt64
  perCapabilityMaxEntries : OrdMap String UInt64
  defaultNegativeTtlMs : UInt64
  perCapabilityNegativeTtlMs : OrdMap String UInt64

namespace CacheConfig

/-- The duration of a time to live, where zero disables the store. -/
def ttlOf (ms : UInt64) : Option ℕ := if ms = 0 then none else some (Duration.fromMillis ms)

/-- `ttl_for`. -/
def ttlFor (cfg : CacheConfig) (cap : Capability) : Option ℕ :=
  ttlOf ((cfg.perCapabilityTtlMs.get cap.asStr).getD cfg.defaultTtlMs)

/-- `negative_ttl_for`. -/
def negativeTtlFor (cfg : CacheConfig) (cap : Capability) : Option ℕ :=
  ttlOf ((cfg.perCapabilityNegativeTtlMs.get cap.asStr).getD cfg.defaultNegativeTtlMs)

end CacheConfig

/-! ## Requests and keys -/

/-- A news request, over the tabs `T`. -/
structure NewsRequest (T : Type) where
  count : UInt32
  tab : T
  deriving DecidableEq

/-- The providers that are asked about an instrument and nothing else. -/
inductive InstrumentProvider where
  | quote | profile | isin | earnings | calendar
  | recommendations | recommendationsSummary | upgradesDowngrades | analystPriceTarget
  | majorHolders | institutionalHolders | mutualFundHolders
  | insiderTransactions | insiderRosterHolders | netSharePurchaseActivity
  | esg | optionsExpirations
  deriving DecidableEq

/-- The providers of statements, yearly or quarterly. -/
inductive StatementProvider where
  | incomeStatement | balanceSheet | cashflow
  deriving DecidableEq

/-- A call to one of the providers whose answers are cached. -/
inductive ProviderCall (K E I R T : Type) where
  | instrument (provider : InstrumentProvider) (inst : Instrument K E)
  | statement (provider : StatementProvider) (inst : Instrument K E) (quarterly : Bool)
  | history (inst : Instrument K E) (req : HistoryRequest I R)
  | news (inst : Instrument K E) (req : NewsRequest T)
  | optionChain (inst : Instrument K E) (date : Option ℤ)
  | search (req : SearchRequest K)

/-- `HistoryKey`. -/
structure HistoryKey (K E : Type) where
  inst : Instrument K E
  interval : ℤ
  range : Option ℤ
  period : Option (ℤ × ℤ)
  flags : UInt8
  deriving DecidableEq

/-- `HistoryKey::INCLUDE_PREPOST` and the flags after it, or-ed together. -/
def historyFlags (includePrepost includeActions autoAdjust keepna : Bool) : UInt8 :=
  let flags : UInt8 := 0
  let flags := if includePrepost then flags ||| (1 : UInt8) <<< (0 : UInt8) else flags
  let flags := if includeActions then flags ||| (1 : UInt8) <<< (1 : UInt8) else flags
  let flags := if autoAdjust then flags ||| (1 : UInt8) <<< (2 : UInt8) else flags
  if keepna then flags ||| (1 : UInt8) <<< (3 : UInt8) else flags

/-- The keys of the stores. -/
inductive CacheKey (K E : Type) where
  | instrument (inst : Instrument K E)
  | history (key : HistoryKey K E)
  /-- `BoolByInstrumentKey`. -/
  | boolByInstrument (inst : Instrument K E) (flag : Bool)
  /-- `NewsKey`. -/
  | news (inst : Instrument K E) (count : UInt32) (tab : ℤ)
  /-- `OptionChainKey`. -/
  | optionChain (inst : Instrument K E) (date : Option ℤ)
  /-- `SearchKey`. -/
  | search (query : String) (kind : Option K) (limit : Option ℕ)
  deriving DecidableEq

section
variable {K E I R T : Type} [Fieldless I] [Fieldless R] [Fieldless T]

omit [Fieldless T] in
/-- `HistoryKey::from_request`. -/
def HistoryKey.fromRequest (inst : Instrument K E) (req : HistoryRequest I R) : HistoryKey K E where
  inst := inst
  interval := Fieldless.discriminant req.interval
  range := req.range.map Fieldless.discriminant
  period := req.period.map fun (s, e) => (s.timestamp, e.timestamp)
  flags := historyFlags req.includePrepost req.includeActions req.autoAdjust req.keepna

/-- The capability of each provider. -/
def InstrumentProvider.capability : InstrumentProvider → Capability
  | .quote => .quote
  | .profile => .profile
  | .isin => .isin
  | .earnings => .earnings
  | .calendar => .calendar
  | .recommendations => .recommendations
  | .recommendationsSummary => .recommendationsSummary
  | .upgradesDowngrades => .upgradesDowngrades
  | .analystPriceTarget => .analystPriceTarget
  | .majorHolders => .majorHolders
  | .institutionalHolders => .institutionalHolders
  | .mutualFundHolders => .mutualFundHolders
  | .insiderTransactions => .insiderTransactions
  | .insiderRosterHolders => .insiderRoster
  | .netSharePurchaseActivity => .netSharePurchaseActivity
  | .esg => .esg
  | .optionsExpirations => .optionsExpirations

/-- The capability of each provider of statements. -/
def StatementProvider.capability : StatementProvider → Capability
  | .incomeStatement => .incomeStatement
  | .balanceSheet => .balanceSheet
  | .cashflow => .cashflow

namespace ProviderCall

/-- The capability whose stores the call goes through. -/
def capability : ProviderCall K E I R T → Capability
  | .instrument provider _ => provider.capability
  | .statement provider _ _ => provider.capability
  | .history .. => .history
  | .news .. => .news
  | .optionChain .. => .optionChain
  | .search _ => .search

/-- The key that each provider method of `CachingConnector` makes. -/
def key : ProviderCall K E I R T → CacheKey K E
  | .instrument _ inst => .instrument inst
  | .statement _ inst quarterly => .boolByInstrument inst quarterly
  | .history inst req => .history (.fromRequest inst req)
  | .news inst req => .news inst req.count (Fieldless.discriminant req.tab)
  | .optionChain inst date => .optionChain inst date
  | .search req => .search req.query req.kind req.limit

end ProviderCall

end

/-! ## Stores -/

section
variable {κ σ V : Type} [DecidableEq κ]

/-- The two stores of a capability, where `none` means disabled. -/
structure CacheStores (κ V : Type) where
  pos : Option (Table κ V)
  neg : Option (Table κ BorsaError)

/-- `get_or_try_put_with`: the entry of the key, else what is loaded, which is kept if it is a
value. -/
def getOrTryPutWith (store : Table κ V) (key : κ) (loader : σ → σ × Except BorsaError V) (s : σ) :
    Table κ V × σ × Except BorsaError V :=
  match store key with
  | some v => (store, s, .ok v)
  | none =>
    match loader s with
    | (s, .ok v) => (store.insert key v, s, .ok v)
    | (s, .error e) => (store, s, .error e)

/-- `cached_or_load_neg`, where loading may change the state `s` of the inner connector. -/
def cachedOrLoadNeg (stores : CacheStores κ V) (key : κ) (loader : σ → σ × Except BorsaError V)
    (s : σ) : CacheStores κ V × σ × Except BorsaError V :=
  match stores.neg.bind fun neg => neg key with
  | some err => (stores, s, .error err)
  | none =>
    let (pos, s, res) :=
      match stores.pos with
      | some store =>
        let (store, s, res) := getOrTryPutWith store key loader s
        (some store, s, res)
      | none =>
        let (s, res) := loader s
        (none, s, res)
    match res with
    | .ok v => ({ stores with pos }, s, .ok v)
    | .error e =>
      if e.isPermanent then
        (⟨pos, stores.neg.map fun neg => neg.insert key e⟩, s, .error e)
      else ({ stores with pos }, s, .error e)

/-- What a call through the cache does: it is answered from one of the stores and loads nothing, or
it loads, and the answer is kept if it is a value or a permanent error. -/
theorem cachedOrLoadNeg_cases (stores : CacheStores κ V) (key : κ)
    (loader : σ → σ × Except BorsaError V) (s : σ) :
    (∃ neg err, stores.neg = some neg ∧ neg key = some err ∧
      cachedOrLoadNeg stores key loader s = (stores, s, .error err)) ∨
    (∃ pos v, stores.pos = some pos ∧ pos key = some v ∧
      cachedOrLoadNeg stores key loader s = (stores, s, .ok v)) ∨
    ((∀ neg ∈ stores.neg, neg key = none) ∧ (∀ pos ∈ stores.pos, pos key = none) ∧
      ((∃ v, (loader s).2 = .ok v ∧ cachedOrLoadNeg stores key loader s =
        ({ stores with pos := stores.pos.map fun pos => pos.insert key v }, (loader s).1, .ok v)) ∨
      (∃ e, (loader s).2 = .error e ∧ cachedOrLoadNeg stores key loader s =
        ({ stores with neg :=
            if e.isPermanent then stores.neg.map fun neg => neg.insert key e else stores.neg },
          (loader s).1, .error e)))) := by
  obtain ⟨pos, neg⟩ := stores
  rw [cachedOrLoadNeg]
  cases hneg : neg.bind fun neg => neg key with
  | some err =>
    obtain ⟨n, rfl, hn⟩ := Option.bind_eq_some_iff.1 hneg
    exact .inl ⟨n, err, rfl, hn, rfl⟩
  | none =>
    have hneg' : ∀ n ∈ neg, n key = none := by
      rintro n rfl
      exact hneg
    refine .inr ?_
    cases pos with
    | none =>
      refine .inr ⟨hneg', nofun, ?_⟩
      cases hload : loader s with
      | mk s' res =>
        cases res with
        | ok v => exact .inl ⟨v, rfl, rfl⟩
        | error e =>
          refine .inr ⟨e, rfl, ?_⟩
          dsimp only
          cases e.isPermanent <;> rfl
    | some store =>
      cases hpos : store key with
      | some v => exact .inl ⟨store, v, rfl, hpos, by simp [getOrTryPutWith, hpos]⟩
      | none =>
        refine .inr ⟨hneg', by simpa using hpos, ?_⟩
        cases hload : loader s with
        | mk s' res =>
          cases res with
          | ok v => exact .inl ⟨v, rfl, by simp [getOrTryPutWith, hpos, hload]⟩
          | error e =>
            refine .inr ⟨e, rfl, ?_⟩
            cases hperm : e.isPermanent <;> simp [getOrTryPutWith, hpos, hload, hperm]

end

/-! ## The connector -/

section
variable {K E I R T V σ : Type} [Fieldless I] [Fieldless R] [Fieldless T]

/-- The stores of `CachingConnector`, by capability. -/
abbrev Caches (K E V : Type) := Capability → CacheStores (CacheKey K E) V

/-- `CachingConnector::new`, with `maybe_store` and `maybe_negative_store`. -/
def Caches.new (cfg : CacheConfig) : Caches K E V := fun cap =>
  ⟨(cfg.ttlFor cap).map fun _ => .empty, (cfg.negativeTtlFor cap).map fun _ => .empty⟩

/-- A provider method of `CachingConnector`. -/
def Caches.call [DecidableEq K] [DecidableEq E] (caches : Caches K E V)
    (inner : ProviderCall K E I R T → σ → σ × Except BorsaError V) (r : ProviderCall K E I R T)
    (s : σ) : Caches K E V × σ × Except BorsaError V :=
  let (stores, s, res) := cachedOrLoadNeg (caches r.capability) r.key (inner r) s
  (Function.update caches r.capability stores, s, res)

/-- The entry of a key is lost, as it expires or is evicted. -/
def Caches.losePos [DecidableEq K] [DecidableEq E] (caches : Caches K E V) (cap : Capability)
    (key : CacheKey K E) : Caches K E V :=
  Function.update caches cap { caches cap with pos := (caches cap).pos.map fun pos => pos.lose key }

/-- The error of a key is lost. -/
def Caches.loseNeg [DecidableEq K] [DecidableEq E] (caches : Caches K E V) (cap : Capability)
    (key : CacheKey K E) : Caches K E V :=
  Function.update caches cap { caches cap with neg := (caches cap).neg.map fun neg => neg.lose key }

end

end Borsa
