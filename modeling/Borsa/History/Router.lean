import Borsa.Core
import Borsa.History.Pipeline

/-!
# The history router

`history.rs` up to the answers of the providers: the eligible connectors are asked all at once, or one
after the other until one has an answer that is not empty, unless the deadline of the request comes
first. `history_with_attribution` then makes one result of the answers.
-/

set_option linter.dupNamespace false

namespace Borsa

section
variable {K E I R A : Type}

/-- An eligible connector: its position in the routing order, and its history endpoint. -/
structure EligibleConnector (K E I R A : Type) where
  idx : ℕ
  connector : Connector K
  provider : HistoryProvider K E I R A

/-- `eligible_history_connectors`. -/
def Borsa.eligibleHistoryConnectors [DecidableEq K] [DecidableEq E] (self : Borsa K E)
    (asHistoryProvider : Connector K → Option (HistoryProvider K E I R A))
    (inst : Instrument K E) : Except BorsaError (List (EligibleConnector K E I R A)) :=
  let eligible := (self.ordered inst).zipIdx.filterMap fun (c, idx) =>
    if c.supportsKind inst.kind then (asHistoryProvider c).map fun provider => ⟨idx, c, provider⟩
    else none
  if eligible.isEmpty then .error (.unsupported Capability.history.asStr) else .ok eligible

variable [Interval I] [DecidableEq I]

/-- `spawn_history_task`: what a connector comes to. -/
def spawnHistoryTask (build : RequestBuild I R) (x : EligibleConnector K E I R A)
    (inst : Instrument K E) (req : HistoryRequest I R) : HistoryTaskResult A :=
  match buildEffectiveRequest build x.provider inst.kind req with
  | .error e => ⟨x.idx, x.connector.name, .error e, none⟩
  | .ok (effReq, plan) =>
    let fut := x.provider.history inst effReq
    ⟨x.idx, x.connector.name, providerCallWithTimeout x.connector.name .history fut, plan⟩

/-- `parallel_history`. -/
def parallelHistory (build : RequestBuild I R) (eligible : List (EligibleConnector K E I R A))
    (inst : Instrument K E) (req : HistoryRequest I R) : List (HistoryTaskResult A) :=
  eligible.map fun x => spawnHistoryTask build x inst req

/-- The answer ends the sequential search: it is not empty. -/
def HistoryTaskResult.endsSearch (result : HistoryTaskResult A) : Bool :=
  match result.resp with
  | .ok hr => !hr.candles.isEmpty
  | .error _ => false

/-- `sequential_history`. -/
def sequentialHistory (build : RequestBuild I R) (inst : Instrument K E)
    (req : HistoryRequest I R) : List (EligibleConnector K E I R A) → List (HistoryTaskResult A)
  | [] => []
  | x :: rest =>
    let result := spawnHistoryTask build x inst req
    if result.endsSearch then [result] else result :: sequentialHistory build inst req rest

/-! ## The deadline of a request -/

/-- `request_timeout`, and the time that each connector takes to come to its answer. -/
structure Timing (K E I R A : Type) where
  requestTimeout : Option ℕ
  callTime : EligibleConnector K E I R A → ℕ

/-- The time that connectors take one after the other. -/
def Timing.total (timing : Timing K E I R A) (connectors : List (EligibleConnector K E I R A)) : ℕ :=
  (connectors.map timing.callTime).sum

/-- The connectors that `sequential_history` asks. -/
def searched (build : RequestBuild I R) (inst : Instrument K E) (req : HistoryRequest I R) :
    List (EligibleConnector K E I R A) → List (EligibleConnector K E I R A)
  | [] => []
  | x :: rest =>
    if (spawnHistoryTask build x inst req).endsSearch then [x]
    else x :: searched build inst req rest

/-- Those that it has asked when it ends or is cut off by the deadline, after the time so far. -/
def askedInTime (timing : Timing K E I R A) (build : RequestBuild I R) (inst : Instrument K E)
    (req : HistoryRequest I R) (time : ℕ) :
    List (EligibleConnector K E I R A) → List (EligibleConnector K E I R A)
  | [] => []
  | x :: rest =>
    let time := time + timing.callTime x
    if InTime timing.requestTimeout time ∧ ¬ (spawnHistoryTask build x inst req).endsSearch then
      x :: askedInTime timing build inst req time rest
    else [x]

/-- `fetch_joined_history`. -/
def fetchJoinedHistory (cfg : HistoryConfig) (timing : Timing K E I R A) (build : RequestBuild I R)
    (eligible : List (EligibleConnector K E I R A)) (inst : Instrument K E)
    (req : HistoryRequest I R) : Except BorsaError (List (HistoryTaskResult A)) :=
  let (time, joined) :=
    match cfg.mergeHistoryStrategy with
    | .deep =>
      ((eligible.map timing.callTime).max?.getD 0, parallelHistory build eligible inst req)
    | .fallback =>
      (timing.total (searched build inst req eligible), sequentialHistory build inst req eligible)
  (withRequestDeadline timing.requestTimeout time joined).mapError fun _ =>
    .requestTimeout Capability.history.asStr

theorem sequentialHistory_ne_nil (build : RequestBuild I R) (inst : Instrument K E)
    (req : HistoryRequest I R) {eligible : List (EligibleConnector K E I R A)} (hne : eligible ≠ []) :
    sequentialHistory build inst req eligible ≠ [] := by
  cases eligible with
  | nil => exact absurd rfl hne
  | cons x rest =>
    rw [sequentialHistory]
    split_ifs
    · exact List.cons_ne_nil _ _
    · exact List.cons_ne_nil _ _

/-- Where connectors are eligible there are answers. -/
theorem fetchJoinedHistory_ne_nil {cfg : HistoryConfig} {timing : Timing K E I R A}
    {build : RequestBuild I R} {eligible : List (EligibleConnector K E I R A)} {inst : Instrument K E}
    {req : HistoryRequest I R} {joined : List (HistoryTaskResult A)} (hne : eligible ≠ [])
    (h : fetchJoinedHistory cfg timing build eligible inst req = .ok joined) : joined ≠ [] := by
  have hjoined : ∀ time (output : List (HistoryTaskResult A)), output ≠ [] →
      (withRequestDeadline timing.requestTimeout time output).mapError
        (fun _ => BorsaError.requestTimeout Capability.history.asStr) = .ok joined → joined ≠ [] := by
    intro time output hout hok
    cases hdeadline : withRequestDeadline timing.requestTimeout time output with
    | error e =>
      rw [hdeadline] at hok
      cases hok
    | ok out =>
      rw [hdeadline] at hok
      obtain ⟨-, rfl⟩ := withRequestDeadline_eq_ok.1 hdeadline
      cases hok
      exact hout
  rw [fetchJoinedHistory] at h
  cases hstrategy : cfg.mergeHistoryStrategy with
  | deep =>
    rw [hstrategy] at h
    refine hjoined _ _ ?_ h
    rw [parallelHistory, ne_eq, List.map_eq_nil_iff]
    exact hne
  | fallback =>
    rw [hstrategy] at h
    exact hjoined _ _ (sequentialHistory_ne_nil build inst req hne) h

/-- The symbol by which errors and attributions name an instrument. -/
def symbolLabel (inst : Instrument K E) : String :=
  match inst.id with
  | .security sec => sec.symbol.asStr
  | .prediction => ""

variable [ToString DateTime] [LinearOrder A] [DefaultHasher A]

/-- The history that eligible connectors give. -/
def historyOf (cfg : HistoryConfig) (timing : Timing K E I R A) (order : HashOrder)
    (build : RequestBuild I R) (inst : Instrument K E) (req : HistoryRequest I R)
    (eligible : List (EligibleConnector K E I R A)) :
    Except Failure (HistoryResponse A × Attribution) := do
  let joined ← ofResult (fetchJoinedHistory cfg timing build eligible inst req)
  finalizeHistoryResults cfg order joined (symbolLabel inst)

/-- `history_with_attribution_effective`. -/
def Borsa.historyWithAttribution [DecidableEq K] [DecidableEq E] (self : Borsa K E)
    (cfg : HistoryConfig) (timing : Timing K E I R A) (order : HashOrder) (build : RequestBuild I R)
    (asHistoryProvider : Connector K → Option (HistoryProvider K E I R A))
    (inst : Instrument K E) (req : HistoryRequest I R) :
    Except Failure (HistoryResponse A × Attribution) := do
  let eligible ← ofResult (self.eligibleHistoryConnectors asHistoryProvider inst)
  historyOf cfg timing order build inst req eligible

/-- `history`. -/
def Borsa.history [DecidableEq K] [DecidableEq E] (self : Borsa K E)
    (cfg : HistoryConfig) (timing : Timing K E I R A) (order : HashOrder) (build : RequestBuild I R)
    (asHistoryProvider : Connector K → Option (HistoryProvider K E I R A))
    (inst : Instrument K E) (req : HistoryRequest I R) : Except Failure (HistoryResponse A) := do
  let (merged, _) ← self.historyWithAttribution cfg timing order build asHistoryProvider inst req
  return merged

end

end Borsa
