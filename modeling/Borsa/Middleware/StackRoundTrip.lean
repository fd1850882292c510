import Borsa.Lib.Fallible
import Borsa.Middleware.BuilderNormal

/-!
# Stacks that are written and read

`to_stack` writes the durations of the layers in whole milliseconds and `from_stack` reads them as a
`u64`. The layers come back as they were exactly where this loses nothing (`stack_round_trip`).
-/

namespace Borsa

open Duration Fallible SortKey

/-- The duration in a layer that is written in milliseconds. -/
def MiddlewareDescriptor.duration : MiddlewareDescriptor → Option ℕ
  | .cache _ => none
  | .blacklist duration => some duration
  | .quota config => some config.window

theorem parseCacheConfigFrom_ofMap (cfg : CacheConfig) : parseCacheConfigFrom (.obj [
    ("default_ttl_ms", .num cfg.defaultTtlMs),
    ("default_max_entries", .num cfg.defaultMaxEntries),
    ("per_capability_ttl_ms", .ofMap cfg.perCapabilityTtlMs),
    ("per_capability_max_entries", .ofMap cfg.perCapabilityMaxEntries),
    ("default_negative_ttl_ms", .num cfg.defaultNegativeTtlMs),
    ("per_capability_negative_ttl_ms", .ofMap cfg.perCapabilityNegativeTtlMs)]) = cfg := by
  simp [parseCacheConfigFrom, u64Field, mapField, Json.get_cons_self, Json.get_cons_of_ne,
    Json.toMap_ofMap]

section
variable [SerdeJson]

/-- A layer whose duration is exact is written, and read as it was. -/
theorem descriptorFromLayer_configJson {desc : MiddlewareDescriptor}
    (h : ∀ d, desc.duration = some d → Exact d) :
    ∃ json, desc.configJson = some json ∧ descriptorFromLayer ⟨desc.name, json⟩ = some desc := by
  cases desc with
  | cache cfg =>
    exact ⟨_, rfl, congrArg (some ∘ MiddlewareDescriptor.cache) (parseCacheConfigFrom_ofMap cfg)⟩
  | blacklist duration =>
    have hexact := h duration rfl
    refine ⟨.obj [("default_duration_ms", .num (UInt64.ofNat (asMillis duration)))], ?_, ?_⟩
    · simp [MiddlewareDescriptor.configJson, millisJson_of_exact hexact]
    · simp [MiddlewareDescriptor.name, descriptorFromLayer, parseBlacklistDurationFrom, u64Field,
        Json.get_cons_self, fromMillis_ofNat_asMillis hexact]
  | quota config =>
    obtain ⟨limit, window, strategy⟩ := config
    have hexact := h window rfl
    refine ⟨.obj [("limit", .num limit), ("window_ms", .num (UInt64.ofNat (asMillis window))),
      ("strategy", .str strategy.toStr)], ?_, ?_⟩
    · simp [MiddlewareDescriptor.configJson, millisJson_of_exact hexact]
    · cases strategy <;> simp [MiddlewareDescriptor.name, descriptorFromLayer, parseQuotaConfigFrom,
        u64Field, QuotaConsumptionStrategy.toStr, Json.get_cons_self, Json.get_cons_of_ne,
        fromMillis_ofNat_asMillis hexact]

end

/-- The duration of a layer that was read is exact. -/
theorem exact_of_descriptorFromLayer {layer : MiddlewareLayer} {desc : MiddlewareDescriptor}
    (h : descriptorFromLayer layer = some desc) : ∀ d, desc.duration = some d → Exact d := by
  rw [descriptorFromLayer] at h
  split at h
  · obtain rfl := Option.some.inj h
    rintro d ⟨⟩
  · obtain rfl := Option.some.inj h
    rintro d ⟨⟩
    exact exact_fromMillis _
  · obtain rfl := Option.some.inj h
    rintro d ⟨⟩
    exact exact_fromMillis _
  · exact absurd h nofun

/-- The durations of the layers of a stack that was read are exact. -/
theorem exact_of_mem_fromStack {raw : String} {stack : List MiddlewareLayer}
    {desc : MiddlewareDescriptor} (h : desc ∈ (ConnectorBuilder.fromStack raw stack).layers) :
    ∀ d, desc.duration = some d → Exact d := by
  obtain ⟨layer, -, hlayer⟩ := List.mem_filterMap.1 (mem_sortByKey.1 h)
  exact exact_of_descriptorFromLayer hlayer

/-- The layers that any calls set are written without a panic and read as they were exactly when each
duration among them is of whole milliseconds, no more of them than a `u64` holds. -/
theorem stack_round_trip [SerdeJson] {raw : String} {ops : List BuilderCall} {b : ConnectorBuilder}
    (hb : (ConnectorBuilder.new raw).calls ops = some b) :
    (∃ stack, b.toStack = some stack ∧
      (ConnectorBuilder.fromStack raw stack).layers = b.layers) ↔
    ∀ desc ∈ b.layers, ∀ d, desc.duration = some d → Exact d := by
  constructor
  · rintro ⟨stack, -, hlayers⟩ desc hdesc
    rw [← hlayers] at hdesc
    exact exact_of_mem_fromStack hdesc
  · intro hexact
    obtain ⟨s, rfl⟩ := BuilderSettings.exists_of_calls hb
    have hround : ∀ desc ∈ s.layers, ∃ layer : MiddlewareLayer,
        (do let config ← desc.configJson; return (⟨desc.name, config⟩ : MiddlewareLayer)) =
          some layer ∧ descriptorFromLayer layer = some desc := by
      intro desc hdesc
      obtain ⟨json, hjson, hread⟩ := descriptorFromLayer_configJson (hexact desc hdesc)
      exact ⟨⟨desc.name, json⟩, by simp [hjson], hread⟩
    obtain ⟨layers, hwrite, hread⟩ := exists_mapM_filterMap hround
    refine ⟨layers ++ [⟨"RawConnector", .obj [("name", .str raw)]⟩], ?_, ?_⟩
    · rw [ConnectorBuilder.toStack, BuilderSettings.builder_layers, hwrite]
      rfl
    · -- the layer of the raw connector is not read
      have hordered : ConnectorBuilder.enforceOrdering ⟨raw, s.layers ++ []⟩ = s.builder raw :=
        BuilderSettings.enforceOrdering_of_perm (.of_eq (List.append_nil _).symm)
      rw [ConnectorBuilder.fromStack, List.filterMap_append, hread]
      exact congrArg ConnectorBuilder.layers hordered

/-- A cache, a blacklist and a quota come back from a stack as they were. -/
theorem stack_round_trip_layers : letI := SerdeJson.plain
    ∃ b stack, (ConnectorBuilder.new "borsa-yfinance").calls [.quotaWindow (fromMillis 1000),
        .withCache ⟨300000, .empty, 2000, .empty, 60000, .empty⟩,
        .withBlacklist (fromMillis 300000)] = some b ∧
      b.toStack = some stack ∧
      (ConnectorBuilder.fromStack "borsa-yfinance" stack).layers = b.layers := by
  let := SerdeJson.plain
  let b : ConnectorBuilder := ⟨"borsa-yfinance",
    [.cache ⟨300000, .empty, 2000, .empty, 60000, .empty⟩, .blacklist (fromMillis 300000),
      .quota ⟨1000, fromMillis 1000, .unit⟩]⟩
  have hb : (ConnectorBuilder.new "borsa-yfinance").calls [.quotaWindow (fromMillis 1000),
      .withCache ⟨300000, .empty, 2000, .empty, 60000, .empty⟩,
      .withBlacklist (fromMillis 300000)] = some b := rfl
  obtain ⟨stack, hstack, hlayers⟩ := (stack_round_trip hb).2
    (by simp [b, MiddlewareDescriptor.duration, exact_fromMillis])
  exact ⟨b, stack, hb, hstack, hlayers⟩

/-- A blacklist of 1.5 ms comes back as one of 1 ms. -/
theorem stack_not_round_trip : letI := SerdeJson.plain
    ∃ b stack, (ConnectorBuilder.new "borsa-yfinance").calls [.withBlacklist 1500000] = some b ∧
      b.toStack = some stack ∧ b.layers = [.blacklist 1500000] ∧
      (ConnectorBuilder.fromStack "borsa-yfinance" stack).layers = [.blacklist 1000000] ∧
      (ConnectorBuilder.fromStack "borsa-yfinance" stack).layers ≠ b.layers := by
  let := SerdeJson.plain
  refine ⟨⟨"borsa-yfinance", [.blacklist 1500000]⟩, _, rfl, rfl, rfl, rfl, ?_⟩
  show [MiddlewareDescriptor.blacklist 1000000] ≠ [.blacklist 1500000]
  simp

end Borsa
