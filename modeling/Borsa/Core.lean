import Borsa.Lib.SortKey
import Borsa.RoutingPolicy

/-!
# The orchestrator

`core.rs`: the registered connectors with the configuration, and `ordered_for_context`, which lists
the connectors eligible in a context in the order the routing policy gives them.
-/

set_option linter.dupNamespace false

namespace Borsa

/-- The backoff settings of a stream, without the jitter that only timers read. -/
structure BackoffConfig where
  minBackoffMs : UInt64
  maxBackoffMs : UInt64
  factor : UInt32

/-- The default settings. -/
def BackoffConfig.default : BackoffConfig := ⟨500, 30000, 2⟩

/-- The settings that routing and streaming read. -/
structure BorsaConfig (K E : Type) where
  routingPolicy : RoutingPolicy K E
  backoff : Option BackoffConfig

/-- The orchestrator: its connectors, in registration order, and its configuration. -/
structure Borsa (K E : Type) where
  connectors : List (Connector K)
  cfg : BorsaConfig K E

namespace Borsa

section
variable {K E : Type} [DecidableEq K] [DecidableEq E]

/-- `ordered_for_context`. -/
def orderedForContext (self : Borsa K E) (ctx : RoutingContext K E) : List (Connector K) :=
  let out := self.connectors.zipIdx
  let out := out.filter fun x =>
    (self.cfg.routingPolicy.providers.providerRank ctx x.1.key).isSome
  let out := SortKey.sortByKey
    (fun x => self.cfg.routingPolicy.providerSortKey ctx x.1.key x.2) out
  out.map Prod.fst

/-- `ordered`: the connectors for an instrument. -/
def ordered (self : Borsa K E) (inst : Instrument K E) : List (Connector K) :=
  self.orderedForContext ⟨symbolOpt inst, some inst.kind, exchangeOpt inst⟩

/-- `ordered_for_kind`. -/
def orderedForKind (self : Borsa K E) (kind : Option K) : List (Connector K) :=
  self.orderedForContext ⟨none, kind, none⟩

end

end Borsa

end Borsa
