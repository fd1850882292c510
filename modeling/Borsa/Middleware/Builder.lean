import Borsa.Lib.Json
import Borsa.Lib.SortKey
import Borsa.Middleware.Stack

/-!
# The builder of stacks

`ConnectorBuilder` collects the layers around a connector, outermost first, and keeps them in a fixed
order. It writes them to JSON (`to_stack`) and reads them from it (`from_stack`), and it reads its own
quota back through JSON when one of its three values is set alone.

Custom layers (`layer`) are not represented. A call that panics is `none`: writing a duration of more
milliseconds than a `u64` may fail, and the code unwraps the result.
-/

namespace Borsa

open Duration SortKey

/-- What `serde_json` makes of an integer beyond `u64`: its text, where numbers have arbitrary
precision, or an error. -/
class SerdeJson where
  wide : ℕ → Option String

/-- `serde_json` without arbitrary precision. -/
@[reducible] def SerdeJson.plain : SerdeJson := ⟨fun _ => none⟩

/-- The layers that the builder knows. -/
inductive MiddlewareDescriptor where
  | cache (cfg : CacheConfig)
  | blacklist (duration : ℕ)
  | quota (config : QuotaConfig)

/-- A layer as it is written. -/
structure MiddlewareLayer where
  name : String
  config : Json

/-! ## Layers and JSON -/

/-- The name of a strategy in JSON. -/
def QuotaConsumptionStrategy.toStr : QuotaConsumptionStrategy → String
  | .evenSpreadHourly => "EvenSpreadHourly"
  | .weighted => "Weighted"
  | _ => "Unit"

/-- `json!` of `as_millis`. -/
def millisJson [SerdeJson] (d : ℕ) : Option Json :=
  if asMillis d < 2 ^ 64 then some (.num (UInt64.ofNat (asMillis d)))
  else (SerdeJson.wide (asMillis d)).map .otherNum

namespace MiddlewareDescriptor

/-- `name`. -/
def name : MiddlewareDescriptor → String
  | .cache _ => "CachingMiddleware"
  | .blacklist _ => "BlacklistConnector"
  | .quota _ => "QuotaAwareConnector"

/-- `config_json` of each layer. -/
def configJson [SerdeJson] : MiddlewareDescriptor → Option Json
  | .cache cfg => some (.obj [
      ("default_ttl_ms", .num cfg.defaultTtlMs),
      ("default_max_entries", .num cfg.defaultMaxEntries),
      ("per_capability_ttl_ms", .ofMap cfg.perCapabilityTtlMs),
      ("per_capability_max_entries", .ofMap cfg.perCapabilityMaxEntries),
      ("default_negative_ttl_ms", .num cfg.defaultNegativeTtlMs),
      ("per_capability_negative_ttl_ms", .ofMap cfg.perCapabilityNegativeTtlMs)])
  | .blacklist duration => do
    let ms ← millisJson duration
    return .obj [("default_duration_ms", ms)]
  | .quota config => do
    let ms ← millisJson config.window
    return .obj [
      ("limit", .num config.limit),
      ("window_ms", ms),
      ("strategy", .str config.strategy.toStr)]

/-- The key that `enforce_ordering` sorts by. -/
def rank (d : MiddlewareDescriptor) : ℕ :=
  match d.name with
  | "CachingMiddleware" => 0
  | "BlacklistConnector" => 1
  | "QuotaAwareConnector" => 2
  | _ => 3

/-- `validate` of each layer, which accepts every stack. -/
def validate : MiddlewareDescriptor → List MiddlewareDescriptor → ℕ → Except BorsaError Unit
  | _, _, _ => .ok ()

/-- `apply`: the layer around a connector, at the instants `t₀` and `s₀`. -/
def apply {K E V : Type} (t₀ s₀ : ℕ) :
    MiddlewareDescriptor → List (Layer K E V) → List (Layer K E V)
  | .cache cfg, inner => .cache (.new cfg) :: inner
  | .blacklist duration, inner => .blacklist (.new duration) :: inner
  | .quota config, inner => .quota (.new config t₀ s₀) :: inner

end MiddlewareDescriptor

/-- A number among the fields of a configuration. -/
def u64Field (config : Json) (name : String) : Option UInt64 := (config.get name).bind Json.asU64

/-- A map among the fields of a configuration. -/
def mapField (config : Json) (name : String) : OrdMap String UInt64 :=
  Json.toMap (((config.get name).bind Json.asObject).getD [])

/-- `parse_cache_config_from`. -/
def parseCacheConfigFrom (config : Json) : CacheConfig where
  defaultTtlMs := (u64Field config "default_ttl_ms").getD 300000
  perCapabilityTtlMs := mapField config "per_capability_ttl_ms"
  defaultMaxEntries := (u64Field config "default_max_entries").getD 2000
  perCapabilityMaxEntries := mapField config "per_capability_max_entries"
  -- `CacheConfig::default().default_negative_ttl_ms`
  defaultNegativeTtlMs := (u64Field config "default_negative_ttl_ms").getD 60000
  perCapabilityNegativeTtlMs := mapField config "per_capability_negative_ttl_ms"

/-- `parse_quota_config_from`. -/
def parseQuotaConfigFrom (config : Json) : QuotaConfig where
  limit := (u64Field config "limit").getD 1
  window := fromMillis ((u64Field config "window_ms").getD 60000)
  strategy :=
    match (config.get "strategy").bind Json.asStr with
    | some "EvenSpreadHourly" => .evenSpreadHourly
    | some "Weighted" => .weighted
    | _ => .unit

/-- `parse_blacklist_duration_from`. -/
def parseBlacklistDurationFrom (config : Json) : ℕ :=
  fromMillis ((u64Field config "default_duration_ms").getD 300000)

/-- `descriptor_from_layer`. -/
def descriptorFromLayer (layer : MiddlewareLayer) : Option MiddlewareDescriptor :=
  match layer.name with
  | "CachingMiddleware" => some (.cache (parseCacheConfigFrom layer.config))
  | "QuotaAwareConnector" => some (.quota (parseQuotaConfigFrom layer.config))
  | "BlacklistConnector" => some (.blacklist (parseBlacklistDurationFrom layer.config))
  | _ => none

/-! ## The builder -/

/-- A builder: the name of the raw connector, and the layers, the outermost first. -/
structure ConnectorBuilder where
  raw : String
  layers : List MiddlewareDescriptor

namespace ConnectorBuilder

/-- `ConnectorBuilder::new`. -/
def new (raw : String) : ConnectorBuilder := ⟨raw, []⟩

/-- `enforce_ordering`: cache, blacklist, quota, and the others as they are. -/
def enforceOrdering (b : ConnectorBuilder) : ConnectorBuilder :=
  { b with layers := sortByKey MiddlewareDescriptor.rank b.layers }

/-- `layers.retain`, which drops the layers of a name. -/
def retainOthers (b : ConnectorBuilder) (name : String) : ConnectorBuilder :=
  { b with layers := b.layers.filter fun d => d.name ≠ name }

/-- `with_cache`. -/
def withCache (b : ConnectorBuilder) (cfg : CacheConfig) : ConnectorBuilder :=
  let b := b.retainOthers "CachingMiddleware"
  enforceOrdering { b with layers := .cache cfg :: b.layers }

/-- `without_cache`. -/
def withoutCache (b : ConnectorBuilder) : ConnectorBuilder := b.retainOthers "CachingMiddleware"

/-- `with_quota`. -/
def withQuota (b : ConnectorBuilder) (cfg : QuotaConfig) : ConnectorBuilder :=
  let b := b.retainOthers "QuotaAwareConnector"
  enforceOrdering { b with layers := b.layers ++ [.quota cfg] }

/-- `without_quota`. -/
def withoutQuota (b : ConnectorBuilder) : ConnectorBuilder := b.retainOthers "QuotaAwareConnector"

/-- `with_blacklist`. -/
def withBlacklist (b : ConnectorBuilder) (duration : ℕ) : ConnectorBuilder :=
  let b := b.retainOthers "BlacklistConnector"
  enforceOrdering { b with layers := b.layers ++ [.blacklist duration] }

/-- `without_blacklist`. -/
def withoutBlacklist (b : ConnectorBuilder) : ConnectorBuilder :=
  b.retainOthers "BlacklistConnector"

/-- What `existing_quota_config` reads from the JSON of a quota. -/
def rereadQuota (cfg : Json) : QuotaConfig where
  limit := (u64Field cfg "limit").getD QuotaConfig.default.limit
  window := fromMillis ((u64Field cfg "window_ms").getD
    (saturate (asMillis QuotaConfig.default.window)))
  strategy :=
    match (cfg.get "strategy").bind Json.asStr with
    | some "EvenSpreadHourly" => .evenSpreadHourly
    | some "Weighted" => .weighted
    | some "Unit" => .unit
    | _ => QuotaConfig.default.strategy

section
variable [SerdeJson]

/-- `existing_quota_config`, of the first quota. -/
def existingQuotaConfig (b : ConnectorBuilder) : Option (Option QuotaConfig) :=
  match b.layers.find? fun d => d.name = "QuotaAwareConnector" with
  | some desc => do
    let cfg ← desc.configJson
    return some (rereadQuota cfg)
  | none => some none

/-- What the three shortcuts share: the quota there is, or the default, with a change. -/
def changeQuota (b : ConnectorBuilder) (change : QuotaConfig → QuotaConfig) :
    Option ConnectorBuilder := do
  let cfg ← b.existingQuotaConfig
  return b.withQuota (change (cfg.getD .default))

/-- `quota_limit`. -/
def quotaLimit (b : ConnectorBuilder) (limit : UInt64) : Option ConnectorBuilder :=
  b.changeQuota fun cfg => { cfg with limit }

/-- `quota_window`. -/
def quotaWindow (b : ConnectorBuilder) (window : ℕ) : Option ConnectorBuilder :=
  b.changeQuota fun cfg => { cfg with window }

/-- `quota_strategy`. -/
def quotaStrategy (b : ConnectorBuilder) (strategy : QuotaConsumptionStrategy) :
    Option ConnectorBuilder :=
  b.changeQuota fun cfg => { cfg with strategy }

/-- `to_stack`. -/
def toStack (b : ConnectorBuilder) : Option (List MiddlewareLayer) := do
  let layers ← b.layers.mapM fun desc => do
    let config ← desc.configJson
    return (⟨desc.name, config⟩ : MiddlewareLayer)
  return layers ++ [⟨"RawConnector", .obj [("name", .str b.raw)]⟩]

end

/-- `from_stack`. -/
def fromStack (raw : String) (stack : List MiddlewareLayer) : ConnectorBuilder :=
  enforceOrdering ⟨raw, stack.filterMap descriptorFromLayer⟩

/-- `validate`, from the innermost layer on. -/
def validate (b : ConnectorBuilder) : Except BorsaError Unit :=
  b.layers.zipIdx.reverse.foldlM (fun _ (desc, idx) => desc.validate b.layers idx) ()

/-- `build`, from the innermost layer on, at the instants `t₀` and `s₀`. -/
def build (K E V : Type) (b : ConnectorBuilder) (t₀ s₀ : ℕ) :
    Except BorsaError (List (Layer K E V)) := do
  b.validate
  return b.layers.reverse.foldl (fun acc desc => desc.apply t₀ s₀ acc) []

end ConnectorBuilder

/-- The calls on a builder. -/
inductive BuilderCall where
  | withCache (cfg : CacheConfig)
  | withoutCache
  | withBlacklist (duration : ℕ)
  | withoutBlacklist
  | withQuota (cfg : QuotaConfig)
  | withoutQuota
  | quotaLimit (limit : UInt64)
  | quotaWindow (window : ℕ)
  | quotaStrategy (strategy : QuotaConsumptionStrategy)

/-- One call on a builder. -/
def ConnectorBuilder.call [SerdeJson] (b : ConnectorBuilder) :
    BuilderCall → Option ConnectorBuilder
  | .withCache cfg => some (b.withCache cfg)
  | .withoutCache => some b.withoutCache
  | .withBlacklist duration => some (b.withBlacklist duration)
  | .withoutBlacklist => some b.withoutBlacklist
  | .withQuota cfg => some (b.withQuota cfg)
  | .withoutQuota => some b.withoutQuota
  | .quotaLimit limit => b.quotaLimit limit
  | .quotaWindow window => b.quotaWindow window
  | .quotaStrategy strategy => b.quotaStrategy strategy

/-- The calls one after another. -/
def ConnectorBuilder.calls [SerdeJson] (b : ConnectorBuilder) (calls : List BuilderCall) :
    Option ConnectorBuilder :=
  calls.foldlM ConnectorBuilder.call b

end Borsa
