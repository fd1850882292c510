import Borsa.Lib.Register
import Borsa.Middleware.Builder
import Borsa.Middleware.StackAccounts

/-!
# The normal form of a builder

After any calls the layers of a builder are those of a `BuilderSettings`: a cache, a blacklist and a
quota, each there or not (`call_layers`). A quota is read back from JSON as it was where its window is
exact in milliseconds, and then the settings can be read off the calls (`builder_normal_form`).
-/

namespace Borsa

open Duration Register SortKey

section
variable [SerdeJson]

theorem millisJson_of_exact {d : ℕ} (h : Exact d) :
    millisJson d = some (.num (UInt64.ofNat (asMillis d))) :=
  if_pos h.2

/-- An exact quota is read back as it was written. -/
theorem rereadQuota_configJson {cfg : QuotaConfig} (h : Exact cfg.window) :
    (MiddlewareDescriptor.quota cfg).configJson.map ConnectorBuilder.rereadQuota = some cfg := by
  obtain ⟨limit, window, strategy⟩ := cfg
  have hwindow := fromMillis_ofNat_asMillis h
  simp only [MiddlewareDescriptor.configJson, millisJson_of_exact h]
  cases strategy <;> simp [ConnectorBuilder.rereadQuota, u64Field, QuotaConsumptionStrategy.toStr,
    Json.get_cons_self, Json.get_cons_of_ne, hwindow]

end

/-! ## Settings -/

/-- What a builder is set to. -/
@[ext]
structure BuilderSettings where
  cache : Option CacheConfig
  blacklist : Option ℕ
  quota : Option QuotaConfig

namespace BuilderSettings

/-- The layers, the outermost first. -/
def layers (s : BuilderSettings) : List MiddlewareDescriptor :=
  s.cache.toList.map .cache ++ s.blacklist.toList.map .blacklist ++ s.quota.toList.map .quota

/-- The builder of a connector with these layers. -/
def builder (raw : String) (s : BuilderSettings) : ConnectorBuilder := ⟨raw, s.layers⟩

@[simp] theorem builder_layers (raw : String) (s : BuilderSettings) :
    (s.builder raw).layers = s.layers := rfl

theorem pairwise_rank (s : BuilderSettings) : s.layers.Pairwise fun d d' => d.rank < d'.rank := by
  obtain ⟨cache, blacklist, quota⟩ := s
  cases cache <;> cases blacklist <;> cases quota <;>
    simp [layers, MiddlewareDescriptor.rank, MiddlewareDescriptor.name]

/-- Layers in any order are put in the order of the settings. -/
theorem enforceOrdering_of_perm {raw : String} {s : BuilderSettings}
    {layers : List MiddlewareDescriptor} (h : s.layers.Perm layers) :
    ConnectorBuilder.enforceOrdering ⟨raw, layers⟩ = s.builder raw := by
  rw [ConnectorBuilder.enforceOrdering, sortByKey_eq_of_perm h s.pairwise_rank]
  rfl

section
variable (raw : String) (s : BuilderSettings)

theorem withoutCache_builder :
    (s.builder raw).withoutCache = { s with cache := none }.builder raw := by
  obtain ⟨cache, blacklist, quota⟩ := s
  cases cache <;> cases blacklist <;> cases quota <;> rfl

theorem withoutBlacklist_builder :
    (s.builder raw).withoutBlacklist = { s with blacklist := none }.builder raw := by
  obtain ⟨cache, blacklist, quota⟩ := s
  cases cache <;> cases blacklist <;> cases quota <;> rfl

theorem withoutQuota_builder :
    (s.builder raw).withoutQuota = { s with quota := none }.builder raw := by
  obtain ⟨cache, blacklist, quota⟩ := s
  cases cache <;> cases blacklist <;> cases quota <;> rfl

theorem withCache_builder (cfg : CacheConfig) :
    (s.builder raw).withCache cfg = { s with cache := some cfg }.builder raw := by
  have hretain := withoutCache_builder raw s
  rw [ConnectorBuilder.withoutCache] at hretain
  rw [ConnectorBuilder.withCache, hretain]
  exact enforceOrdering_of_perm (.refl _)

theorem withBlacklist_builder (duration : ℕ) :
    (s.builder raw).withBlacklist duration =
      { s with blacklist := some duration }.builder raw := by
  have hretain := withoutBlacklist_builder raw s
  rw [ConnectorBuilder.withoutBlacklist] at hretain
  rw [ConnectorBuilder.withBlacklist, hretain]
  refine enforceOrdering_of_perm ?_
  -- the quota stands before the new layer
  simp only [builder, layers, Option.toList_none, Option.toList_some, List.map_nil, List.append_nil,
    List.append_assoc]
  exact List.perm_append_comm.append_left _

theorem withQuota_builder (cfg : QuotaConfig) :
    (s.builder raw).withQuota cfg = { s with quota := some cfg }.builder raw := by
  have hretain := withoutQuota_builder raw s
  rw [ConnectorBuilder.withoutQuota] at hretain
  rw [ConnectorBuilder.withQuota, hretain]
  refine enforceOrdering_of_perm ?_
  simp [builder, layers]

end

theorem find?_quota (s : BuilderSettings) :
    s.layers.find? (fun d => d.name = "QuotaAwareConnector") = s.quota.map .quota := by
  obtain ⟨cache, blacklist, quota⟩ := s
  cases cache <;> cases blacklist <;> cases quota <;> rfl

/-! ## Calls on settings -/

section
variable [SerdeJson]

/-- A change of the quota there is, read back from JSON, or of the default. -/
def changeQuota (s : BuilderSettings) (change : QuotaConfig → QuotaConfig) :
    Option BuilderSettings :=
  match s.quota with
  | some cfg => do
    let json ← (MiddlewareDescriptor.quota cfg).configJson
    return { s with quota := some (change (ConnectorBuilder.rereadQuota json)) }
  | none => some { s with quota := some (change .default) }

/-- One call. -/
def call (s : BuilderSettings) : BuilderCall → Option BuilderSettings
  | .withCache cfg => some { s with cache := some cfg }
  | .withoutCache => some { s with cache := none }
  | .withBlacklist duration => some { s with blacklist := some duration }
  | .withoutBlacklist => some { s with blacklist := none }
  | .withQuota cfg => some { s with quota := some cfg }
  | .withoutQuota => some { s with quota := none }
  | .quotaLimit limit => s.changeQuota fun cfg => { cfg with limit }
  | .quotaWindow window => s.changeQuota fun cfg => { cfg with window }
  | .quotaStrategy strategy => s.changeQuota fun cfg => { cfg with strategy }

theorem changeQuota_builder (raw : String) (s : BuilderSettings)
    (change : QuotaConfig → QuotaConfig) :
    (s.builder raw).changeQuota change = (s.changeQuota change).map (builder raw) := by
  rw [ConnectorBuilder.changeQuota, ConnectorBuilder.existingQuotaConfig, changeQuota,
    builder_layers, find?_quota]
  cases s.quota with
  | none => exact congrArg some (withQuota_builder raw s _)
  | some cfg =>
    cases hjson : (MiddlewareDescriptor.quota cfg).configJson with
    | none => simp [hjson]
    | some json => simpa [hjson] using withQuota_builder raw s _

/-- A call on a builder is one on its settings. -/
theorem call_builder (raw : String) (s : BuilderSettings) (op : BuilderCall) :
    (s.builder raw).call op = (s.call op).map (builder raw) := by
  cases op with
  | withCache cfg => exact congrArg some (withCache_builder raw s cfg)
  | withoutCache => exact congrArg some (withoutCache_builder raw s)
  | withBlacklist duration => exact congrArg some (withBlacklist_builder raw s duration)
  | withoutBlacklist => exact congrArg some (withoutBlacklist_builder raw s)
  | withQuota cfg => exact congrArg some (withQuota_builder raw s cfg)
  | withoutQuota => exact congrArg some (withoutQuota_builder raw s)
  | quotaLimit limit => exact changeQuota_builder raw s fun cfg => { cfg with limit }
  | quotaWindow window => exact changeQuota_builder raw s fun cfg => { cfg with window }
  | quotaStrategy strategy => exact changeQuota_builder raw s fun cfg => { cfg with strategy }

/-- Every builder has settings. -/
theorem exists_of_calls {raw : String} {ops : List BuilderCall} {b : ConnectorBuilder}
    (h : (ConnectorBuilder.new raw).calls ops = some b) :
    ∃ s : BuilderSettings, b = s.builder raw := by
  induction ops using List.reverseRecOn generalizing b with
  | nil => exact ⟨⟨none, none, none⟩, (Option.some.inj h).symm⟩
  | append_singleton ops op ih =>
    rw [ConnectorBuilder.calls, List.foldlM_append] at h
    obtain ⟨b₀, hb₀, hop⟩ := Option.bind_eq_some_iff.1 h
    obtain ⟨s, rfl⟩ := ih hb₀
    rw [List.foldlM_cons, call_builder] at hop
    obtain ⟨_, hs', hnil⟩ := Option.bind_eq_some_iff.1 hop
    obtain ⟨s', -, rfl⟩ := Option.map_eq_some_iff.1 hs'
    exact ⟨s', (Option.some.inj hnil).symm⟩

end

end BuilderSettings

/-! ## Settings read off the calls -/

namespace BuilderCall

/-- The cache that a call sets. -/
def givesCache : BuilderCall → Option CacheConfig
  | .withCache cfg => some cfg
  | _ => none

/-- A call that removes the cache. -/
def removesCache : BuilderCall → Bool
  | .withoutCache => true
  | _ => false

/-- The blacklist that a call sets. -/
def givesBlacklist : BuilderCall → Option ℕ
  | .withBlacklist duration => some duration
  | _ => none

/-- A call that removes the blacklist. -/
def removesBlacklist : BuilderCall → Bool
  | .withoutBlacklist => true
  | _ => false

/-- The limit that a call gives the quota. -/
def givesLimit : BuilderCall → Option UInt64
  | .withQuota cfg => some cfg.limit
  | .quotaLimit limit => some limit
  | _ => none

/-- The window that a call gives the quota. -/
def givesWindow : BuilderCall → Option ℕ
  | .withQuota cfg => some cfg.window
  | .quotaWindow window => some window
  | _ => none

/-- The strategy that a call gives the quota. -/
def givesStrategy : BuilderCall → Option QuotaConsumptionStrategy
  | .withQuota cfg => some cfg.strategy
  | .quotaStrategy strategy => some strategy
  | _ => none

/-- A call that sets the quota, or one of its values. -/
def givesQuota : BuilderCall → Option Unit
  | .withQuota _ | .quotaLimit _ | .quotaWindow _ | .quotaStrategy _ => some ()
  | _ => none

/-- A call that removes the quota. -/
def removesQuota : BuilderCall → Bool
  | .withoutQuota => true
  | _ => false

end BuilderCall

open BuilderCall

/-- The cache after some calls. -/
def cacheOf (ops : List BuilderCall) : Option CacheConfig := lastGiven givesCache removesCache ops

/-- The blacklist after some calls. -/
def blacklistOf (ops : List BuilderCall) : Option ℕ := lastGiven givesBlacklist removesBlacklist ops

/-- The values of a quota after some calls, each the last one given or the default. -/
def quotaValues (ops : List BuilderCall) : QuotaConfig where
  limit := (lastGiven givesLimit removesQuota ops).getD QuotaConfig.default.limit
  window := (lastGiven givesWindow removesQuota ops).getD QuotaConfig.default.window
  strategy := (lastGiven givesStrategy removesQuota ops).getD QuotaConfig.default.strategy

/-- The quota after some calls. -/
def quotaOf (ops : List BuilderCall) : Option QuotaConfig :=
  (lastGiven givesQuota removesQuota ops).map fun _ => quotaValues ops

/-- The settings after some calls. -/
def BuilderSettings.ofCalls (ops : List BuilderCall) : BuilderSettings :=
  ⟨cacheOf ops, blacklistOf ops, quotaOf ops⟩

section
variable {ops : List BuilderCall}

/-- No value of a quota is left where there is none. -/
theorem quotaValues_of_none (h : quotaOf ops = none) : quotaValues ops = .default := by
  have hnone : lastGiven givesQuota removesQuota ops = none := Option.map_eq_none_iff.1 h
  have hlimit : lastGiven givesLimit removesQuota ops = none :=
    lastGiven_eq_none (by rintro (_ | _) <;> simp [givesQuota, givesLimit]) hnone
  have hwindow : lastGiven givesWindow removesQuota ops = none :=
    lastGiven_eq_none (by rintro (_ | _) <;> simp [givesQuota, givesWindow]) hnone
  have hstrategy : lastGiven givesStrategy removesQuota ops = none :=
    lastGiven_eq_none (by rintro (_ | _) <;> simp [givesQuota, givesStrategy]) hnone
  rw [quotaValues, hlimit, hwindow, hstrategy]
  rfl

/-- Where the windows given are exact, the one of the quota is. -/
theorem exact_quotaValues (h : ∀ op ∈ ops, ∀ w, op.givesWindow = some w → Exact w) :
    Exact (quotaValues ops).window := by
  simp only [quotaValues]
  cases hw : lastGiven givesWindow removesQuota ops with
  | none => exact (by decide : Exact 60000000000)
  | some w =>
    obtain ⟨op, hop, hgives⟩ := exists_of_lastGiven hw
    exact h op hop w hgives

variable [SerdeJson]

/-- A change of an exact quota is one of its values. -/
theorem changeQuota_ofCalls (h : ∀ op ∈ ops, ∀ w, op.givesWindow = some w → Exact w)
    (change : QuotaConfig → QuotaConfig) : (BuilderSettings.ofCalls ops).changeQuota change =
      some { BuilderSettings.ofCalls ops with quota := some (change (quotaValues ops)) } := by
  rw [BuilderSettings.changeQuota]
  cases hq : quotaOf ops with
  | none => simp [BuilderSettings.ofCalls, hq, quotaValues_of_none hq]
  | some cfg =>
    obtain ⟨-, -, rfl⟩ := Option.map_eq_some_iff.1 hq
    obtain ⟨json, hjson, hreread⟩ :=
      Option.map_eq_some_iff.1 (rereadQuota_configJson (exact_quotaValues h))
    simp [BuilderSettings.ofCalls, hq, hjson, hreread]

/-- One more call on the settings after some. -/
theorem call_ofCalls (h : ∀ op ∈ ops, ∀ w, op.givesWindow = some w → Exact w) (op : BuilderCall) :
    (BuilderSettings.ofCalls ops).call op = some (.ofCalls (ops ++ [op])) := by
  cases op with
  | withCache _ | withoutCache | withBlacklist _ | withoutBlacklist | withQuota _ | withoutQuota =>
    simp [BuilderSettings.call, BuilderSettings.ofCalls, cacheOf, blacklistOf, quotaOf, quotaValues,
      lastGiven_concat, givesCache, removesCache, givesBlacklist, removesBlacklist, givesQuota,
      removesQuota, givesLimit, givesWindow, givesStrategy]
  | quotaLimit _ | quotaWindow _ | quotaStrategy _ =>
    rw [BuilderSettings.call, changeQuota_ofCalls h]
    simp [BuilderSettings.ofCalls, cacheOf, blacklistOf, quotaOf, quotaValues,
      lastGiven_concat, givesCache, removesCache, givesBlacklist, removesBlacklist, givesQuota,
      removesQuota, givesLimit, givesWindow, givesStrategy]

/-- Calls whose windows are exact lead to the settings read off them. -/
theorem calls_eq (raw : String) (h : ∀ op ∈ ops, ∀ w, op.givesWindow = some w → Exact w) :
    (ConnectorBuilder.new raw).calls ops = some ((BuilderSettings.ofCalls ops).builder raw) := by
  induction ops using List.reverseRecOn with
  | nil => rfl
  | append_singleton ops op ih =>
    obtain ⟨hops, -⟩ := List.forall_mem_append.1 h
    rw [ConnectorBuilder.calls, List.foldlM_append]
    rw [ConnectorBuilder.calls] at ih
    rw [ih hops, Option.bind_eq_bind, Option.bind_some, List.foldlM_cons,
      BuilderSettings.call_builder, call_ofCalls hops]
    rfl

end

/-! ## The normal form -/

theorem ConnectorBuilder.validate_eq (b : ConnectorBuilder) : b.validate = .ok () :=
  List.foldlM_pure

/-- The stack that is built nests the layers in the order of the settings. -/
theorem BuilderSettings.build_builder (K E V : Type) (raw : String) (s : BuilderSettings)
    (t₀ s₀ : ℕ) : (s.builder raw).build K E V t₀ s₀ = .ok (
      s.cache.toList.map (fun cfg => Layer.cache (.new cfg)) ++
      s.blacklist.toList.map (fun duration => Layer.blacklist (.new duration)) ++
      s.quota.toList.map (fun cfg => Layer.quota (.new cfg t₀ s₀))) := by
  rw [ConnectorBuilder.build, ConnectorBuilder.validate_eq]
  obtain ⟨cache, blacklist, quota⟩ := s
  cases cache <;> cases blacklist <;> cases quota <;> rfl

/-- After calls whose windows are exact in milliseconds, the layers of a builder are the cache, the
blacklist and the quota that were last set and not removed since, in this order, and they are built so.
A quota has the last limit, window and strategy given since it was removed. -/
theorem builder_normal_form [SerdeJson] (raw : String) (ops : List BuilderCall)
    (h : ∀ op ∈ ops, ∀ w, op.givesWindow = some w → Exact w) :
    ∃ b, (ConnectorBuilder.new raw).calls ops = some b ∧
      b.layers = (cacheOf ops).toList.map MiddlewareDescriptor.cache ++
        (blacklistOf ops).toList.map MiddlewareDescriptor.blacklist ++
        (quotaOf ops).toList.map MiddlewareDescriptor.quota ∧
      ∀ (K E V : Type) (t₀ s₀ : ℕ), b.build K E V t₀ s₀ = .ok (
        (cacheOf ops).toList.map (fun cfg => Layer.cache (.new cfg)) ++
        (blacklistOf ops).toList.map (fun duration => Layer.blacklist (.new duration)) ++
        (quotaOf ops).toList.map (fun cfg => Layer.quota (.new cfg t₀ s₀))) := by
  refine ⟨(BuilderSettings.ofCalls ops).builder raw, calls_eq raw h, rfl, ?_⟩
  intro K E V t₀ s₀
  exact BuilderSettings.build_builder K E V raw _ t₀ s₀

/-- A quota is set, removed and set again by its window and its limit, around a blacklist. -/
theorem builder_normal_form_reset :
    letI := SerdeJson.plain
    ∃ b, (ConnectorBuilder.new "borsa-yfinance").calls [.withQuota ⟨5, fromMillis 1000, .weighted⟩,
        .withBlacklist (fromMillis 300000), .withoutQuota, .quotaWindow (fromMillis 2000),
        .quotaLimit 7] = some b ∧
      b.layers = [.blacklist (fromMillis 300000), .quota ⟨7, fromMillis 2000, .unit⟩] := by
  let := SerdeJson.plain
  obtain ⟨b, hb, hlayers, -⟩ := builder_normal_form "borsa-yfinance"
    [.withQuota ⟨5, fromMillis 1000, .weighted⟩, .withBlacklist (fromMillis 300000), .withoutQuota,
      .quotaWindow (fromMillis 2000), .quotaLimit 7] (by simp [givesWindow, exact_fromMillis])
  exact ⟨b, hb, hlayers⟩

/-- With all three layers set, the stack that is built is a composed one. -/
theorem build_composed [SerdeJson] {raw : String} {ops : List BuilderCall} {b : ConnectorBuilder}
    {cache : CacheConfig} {blacklist : ℕ} {quota : QuotaConfig}
    (h : ∀ op ∈ ops, ∀ w, op.givesWindow = some w → Exact w)
    (hb : (ConnectorBuilder.new raw).calls ops = some b) (hcache : cacheOf ops = some cache)
    (hblacklist : blacklistOf ops = some blacklist) (hquota : quotaOf ops = some quota)
    (K E V : Type) (t₀ s₀ : ℕ) : b.build K E V t₀ s₀ =
      .ok (Composed.layers ⟨.new cache, .new blacklist, .new quota t₀ s₀⟩) := by
  obtain rfl : (BuilderSettings.ofCalls ops).builder raw = b :=
    Option.some.inj ((calls_eq raw h).symm.trans hb)
  rw [BuilderSettings.build_builder, BuilderSettings.ofCalls, hcache, hblacklist, hquota]
  rfl

end Borsa
