import Borsa.Error
import Borsa.Core

/-!
# Fetching one item from several providers

`fetch_single` asks the providers of an instrument for one item in one of two ways: one after the
other in policy order until one answers (`fetchSinglePriorityWithFallback`), or all at once, taking
the first answer to arrive (`fetchSingleLatency`). Both collapse the errors of a failed fetch into
one with `collapse_errors`.

The two loops read the providers in policy order, each with the future that `call` makes for it. A
future comes to a result, or to nothing within the provider timeout.
-/

set_option linter.dupNamespace false

namespace Borsa

/-! ## Errors of a failed fetch -/

/-- The error is a `ProviderTimeout`. -/
def BorsaError.isProviderTimeout : BorsaError → Bool
  | .providerTimeout .. => true
  | _ => false

/-- The error is a `NotFound`. -/
def BorsaError.isNotFound : BorsaError → Bool
  | .notFound _ => true
  | _ => false

/-- `collapse_errors`. -/
def collapseErrors (capability : Capability) (attemptedAny : Bool) (errors : List BorsaError)
    (notFoundWhat : Option String) : BorsaError :=
  if !attemptedAny then .unsupported capability.asStr
  else if !errors.isEmpty && errors.all BorsaError.isProviderTimeout then
    .allProvidersTimedOut capability.asStr
  else
    match notFoundWhat with
    | some what =>
      if !errors.isEmpty && errors.all BorsaError.isNotFound then .notFound what
      else .allProvidersFailed errors
    | none => .allProvidersFailed errors

/-- Two failures a caller cannot tell apart, but for the order of the collected errors: the
capability is unsupported, every provider timed out, no provider found the item, or the providers'
errors are collected. -/
inductive SameFailure (capability : Capability) (what : String) : BorsaError → BorsaError → Prop
  | unsupported :
    SameFailure capability what (.unsupported capability.asStr) (.unsupported capability.asStr)
  | timedOut :
    SameFailure capability what (.allProvidersTimedOut capability.asStr)
      (.allProvidersTimedOut capability.asStr)
  | notFound : SameFailure capability what (.notFound what) (.notFound what)
  | failed {errors errors' : List BorsaError} (h : errors.Perm errors') :
    SameFailure capability what (.allProvidersFailed errors) (.allProvidersFailed errors')

/-- The collapsed error depends on the order of the errors only where it lists them. -/
theorem sameFailure_collapseErrors (capability : Capability) (attemptedAny : Bool) (what : String)
    {errors errors' : List BorsaError} (h : errors.Perm errors') :
    SameFailure capability what (collapseErrors capability attemptedAny errors (some what))
      (collapseErrors capability attemptedAny errors' (some what)) := by
  simp only [collapseErrors, ← h.isEmpty_eq, ← h.all_eq]
  split
  · exact .unsupported
  · split
    · exact .timedOut
    · split
      · exact .notFound
      · exact .failed h

section
variable {K E T : Type}

/-- `target_label`. -/
def targetLabel (inst : Instrument K E) (what : String) : String :=
  match inst.id with
  | .security sec => what ++ " for " ++ sec.symbol.asStr
  | .prediction => what

/-! ## One provider's call -/

/-- What the future of a call comes to: its result, or nothing within the provider timeout. -/
abbrev Fut (T : Type) := Option (Except BorsaError T)

/-- `provider_call_with_timeout`. -/
def providerCallWithTimeout (connectorName : String) (capability : Capability) (fut : Fut T) :
    Except BorsaError T :=
  fut.getD (.error (.providerTimeout connectorName capability.asStr))

/-- The time is within the deadline, if there is one. -/
def InTime (deadline : Option ℕ) (time : ℕ) : Prop := ∀ d ∈ deadline, time ≤ d

instance : (deadline : Option ℕ) → (time : ℕ) → Decidable (InTime deadline time)
  | none, _ => isTrue fun _ h => absurd h (Option.not_mem_none _)
  | some d, time => decidable_of_iff (time ≤ d) (by simp [InTime])

/-- `with_request_deadline`: a future that takes a time to come to its output, under a deadline. The
output is looked for before the deadline is. -/
def withRequestDeadline {T : Type} (deadline : Option ℕ) (time : ℕ) (output : T) :
    Except BorsaError T :=
  if InTime deadline time then .ok output else .error (.requestTimeout "request")

theorem withRequestDeadline_eq_ok {T : Type} {deadline : Option ℕ} {time : ℕ} {output out : T} :
    withRequestDeadline deadline time output = .ok out ↔ InTime deadline time ∧ output = out := by
  rw [withRequestDeadline]
  split_ifs with h
  · simp [h]
  · simp [h]

/-- The error that the priority loop keeps of a failed call. -/
def fallbackError (name : String) : BorsaError → BorsaError
  | .notFound what => .notFound what
  | e => tagErr name e

/-- The error that the latency loop keeps of a failed call. -/
def latencyError (name : String) : BorsaError → BorsaError
  | .notFound what => .notFound what
  | .providerTimeout connector capability => .providerTimeout connector capability
  | .rateLimitExceeded limit windowMs => tagErr name (.rateLimitExceeded limit windowMs)
  | .quotaExceeded remaining resetInMs => tagErr name (.quotaExceeded remaining resetInMs)
  | .temporarilyBlacklisted resetInMs => tagErr name (.temporarilyBlacklisted resetInMs)
  | e => tagErr name e

@[simp] theorem fallbackError_eq (name : String) (e : BorsaError) :
    fallbackError name e = tagErr name e := by
  cases e <;> rfl

@[simp] theorem latencyError_eq (name : String) (e : BorsaError) :
    latencyError name e = tagErr name e := by
  cases e <;> rfl

/-! ## The two loops -/

/-- The loop of `fetch_single_priority_with_fallback` over the remaining providers: the value, or
whether a provider was attempted with the errors so far; and the providers that were asked. -/
def priorityLoop (capability : Capability) (attemptedAny : Bool) (errors : List BorsaError) :
    List (Connector K × Option (Fut T)) →
      Except (Bool × List BorsaError) T × List (Connector K)
  | [] => (.error (attemptedAny, errors), [])
  | (c, none) :: rest =>
    let (res, asked) := priorityLoop capability attemptedAny errors rest
    (res, c :: asked)
  | (c, some fut) :: rest =>
    match providerCallWithTimeout c.name capability fut with
    | .ok v => (.ok v, [c])
    | .error e =>
      let (res, asked) :=
        priorityLoop capability true (errors ++ [fallbackError c.name e]) rest
      (res, c :: asked)

/-- `fetch_single_priority_with_fallback`, with the providers it asked. -/
def fetchSinglePriorityWithFallback (inst : Instrument K E) (capabilityLabel : Capability)
    (notFoundLabel : String) (ordered : List (Connector K × Option (Fut T))) :
    Except BorsaError T × List (Connector K) :=
  match priorityLoop capabilityLabel false [] ordered with
  | (.ok v, asked) => (.ok v, asked)
  | (.error (attemptedAny, errors), asked) =>
    (.error (collapseErrors capabilityLabel attemptedAny errors
      (some (targetLabel inst notFoundLabel))), asked)

/-- The order in which concurrent futures complete. -/
structure CompletionOrder where
  arrange : ∀ {α : Type}, List α → List α
  perm : ∀ {α : Type} (futs : List α), (arrange futs).Perm futs

/-- The order in which the futures were started. -/
def CompletionOrder.started : CompletionOrder := ⟨fun futs => futs, fun _ => .rfl⟩

/-- The calls that are made, each under the connector's name with what it comes to. -/
def outcomes (capability : Capability) (ordered : List (Connector K × Option (Fut T))) :
    List (String × Except BorsaError T) :=
  ordered.filterMap fun (c, call) =>
    call.map fun fut => (c.name, providerCallWithTimeout c.name capability fut)

/-- The loop of `fetch_single_latency` over the results in the order in which they arrive. -/
def latencyLoop (errors : List BorsaError) :
    List (String × Except BorsaError T) → Except (List BorsaError) T
  | [] => .error errors
  | (_, .ok v) :: _ => .ok v
  | (name, .error e) :: rest => latencyLoop (errors ++ [latencyError name e]) rest

/-- `fetch_single_latency`. -/
def fetchSingleLatency (inst : Instrument K E) (capabilityLabel : Capability)
    (notFoundLabel : String) (order : CompletionOrder)
    (ordered : List (Connector K × Option (Fut T))) : Except BorsaError T :=
  let futs := outcomes capabilityLabel ordered
  let attemptedAny := !futs.isEmpty
  match latencyLoop [] (order.arrange futs) with
  | .ok v => .ok v
  | .error errors =>
    if attemptedAny then
      .error (collapseErrors capabilityLabel attemptedAny errors
        (some (targetLabel inst notFoundLabel)))
    else .error (.unsupported capabilityLabel.asStr)

/-- How `fetch_single` asks the providers. -/
inductive FetchStrategy where
  | priorityWithFallback | latency
  deriving DecidableEq

/-- `fetch_single`: `call` is `none` for a connector without the capability. -/
def Borsa.fetchSingle [DecidableEq K] [DecidableEq E] (self : Borsa K E)
    (fetchStrategy : FetchStrategy) (order : CompletionOrder) (inst : Instrument K E)
    (capabilityLabel : Capability) (notFoundLabel : String)
    (call : Connector K → Instrument K E → Option (Fut T)) : Except BorsaError T :=
  let ordered := (self.ordered inst).map fun c => (c, call c inst)
  match fetchStrategy with
  | .priorityWithFallback =>
    (fetchSinglePriorityWithFallback inst capabilityLabel notFoundLabel ordered).1
  | .latency => fetchSingleLatency inst capabilityLabel notFoundLabel order ordered

/-! ## What the loops compute -/

/-- The values among the results of calls, in order. -/
def values (outs : List (String × Except BorsaError T)) : List T :=
  outs.filterMap fun out => out.2.toOption

/-- The errors among the results of calls, tagged with their connectors, in order. -/
def taggedErrors (outs : List (String × Except BorsaError T)) : List BorsaError :=
  outs.filterMap fun out =>
    match out.2 with
    | .ok _ => none
    | .error e => some (tagErr out.1 e)

/-- The latency loop gives the first value to arrive, or else every error. -/
theorem latencyLoop_eq (errors : List BorsaError) (outs : List (String × Except BorsaError T)) :
    latencyLoop errors outs =
      match (values outs).head? with
      | some v => .ok v
      | none => .error (errors ++ taggedErrors outs) := by
  induction outs generalizing errors with
  | nil => simp [latencyLoop, values, taggedErrors]
  | cons out rest ih =>
    obtain ⟨name, _ | _⟩ := out
    · rw [latencyLoop, ih]
      simp [values, taggedErrors, Except.toOption]
    · simp [latencyLoop, values, Except.toOption]

/-- The priority loop gives the value of the first provider that has one, or else every error. -/
theorem priorityLoop_fst (capability : Capability) (attemptedAny : Bool)
    (errors : List BorsaError) (ordered : List (Connector K × Option (Fut T))) :
    (priorityLoop capability attemptedAny errors ordered).1 =
      match (values (outcomes capability ordered)).head? with
      | some v => .ok v
      | none => .error (attemptedAny || !(outcomes capability ordered).isEmpty,
          errors ++ taggedErrors (outcomes capability ordered)) := by
  induction ordered generalizing attemptedAny errors with
  | nil => simp [priorityLoop, outcomes, values, taggedErrors]
  | cons x rest ih =>
    obtain ⟨c, _ | fut⟩ := x
    · simpa [priorityLoop, outcomes] using ih attemptedAny errors
    · rw [priorityLoop]
      cases hres : providerCallWithTimeout c.name capability fut with
      | ok v => simp [outcomes, hres, values, Except.toOption]
      | error e =>
        rw [ih]
        simp [outcomes, hres, values, taggedErrors, Except.toOption]

/-- The provider is asked and gives the value. -/
def Gives (capability : Capability) (v : T) (x : Connector K × Option (Fut T)) : Prop :=
  ∃ fut, x.2 = some fut ∧ providerCallWithTimeout x.1.name capability fut = .ok v

theorem mem_values {outs : List (String × Except BorsaError T)} {v : T} :
    v ∈ values outs ↔ ∃ name, (name, Except.ok v) ∈ outs := by
  simp only [values, List.mem_filterMap, Prod.exists]
  constructor
  · rintro ⟨name, _ | w, hmem, h⟩
    · simp [Except.toOption] at h
    · obtain rfl : w = v := by simpa [Except.toOption] using h
      exact ⟨name, hmem⟩
  · intro ⟨name, hmem⟩
    exact ⟨name, _, hmem, rfl⟩

theorem mem_values_outcomes {capability : Capability}
    {ordered : List (Connector K × Option (Fut T))} {v : T} :
    v ∈ values (outcomes capability ordered) ↔ ∃ x ∈ ordered, Gives capability v x := by
  simp only [mem_values, outcomes, List.mem_filterMap, Gives]
  constructor
  · rintro ⟨name, ⟨c, call⟩, hmem, h⟩
    obtain ⟨fut, rfl, h⟩ := Option.map_eq_some_iff.1 h
    exact ⟨_, hmem, fut, rfl, congrArg Prod.snd h⟩
  · rintro ⟨⟨c, call⟩, hmem, fut, rfl, h⟩
    exact ⟨c.name, _, hmem, by simp [h]⟩

/-- When the priority loop gives a value, it is that of the first provider that has one, and the
providers after it are not asked. -/
theorem priorityLoop_asked {capability : Capability} {attemptedAny : Bool}
    {errors : List BorsaError} {ordered : List (Connector K × Option (Fut T))} {v : T}
    (h : (priorityLoop capability attemptedAny errors ordered).1 = .ok v) :
    ∃ pre x post, ordered = pre ++ x :: post ∧ Gives capability v x ∧
      (∀ y ∈ pre, ∀ w, ¬ Gives capability w y) ∧
      (priorityLoop capability attemptedAny errors ordered).2 = pre.map Prod.fst ++ [x.1] := by
  induction ordered generalizing attemptedAny errors with
  | nil => simp [priorityLoop] at h
  | cons x rest ih =>
    obtain ⟨c, _ | fut⟩ := x
    · obtain ⟨pre, x, post, rfl, hgives, hpre, hasked⟩ := ih h
      refine ⟨(c, none) :: pre, x, post, rfl, hgives, ?_, ?_⟩
      · exact List.forall_mem_cons.2 ⟨by simp [Gives], hpre⟩
      · simp [priorityLoop, hasked]
    · rw [priorityLoop] at h ⊢
      cases hres : providerCallWithTimeout c.name capability fut with
      | ok w =>
        obtain rfl : w = v := by simpa [hres] using h
        exact ⟨[], (c, some fut), rest, rfl, ⟨fut, rfl, hres⟩, by simp, by simp⟩
      | error e =>
        rw [hres] at h
        obtain ⟨pre, x, post, rfl, hgives, hpre, hasked⟩ := ih h
        refine ⟨(c, some fut) :: pre, x, post, rfl, hgives, ?_, ?_⟩
        · exact List.forall_mem_cons.2 ⟨by simp [Gives, hres], hpre⟩
        · exact congrArg (c :: ·) hasked

/-- `fetch_single_priority_with_fallback` by the results of the calls. -/
theorem fetchSinglePriorityWithFallback_fst (inst : Instrument K E) (capability : Capability)
    (label : String) (ordered : List (Connector K × Option (Fut T))) :
    (fetchSinglePriorityWithFallback inst capability label ordered).1 =
      match (values (outcomes capability ordered)).head? with
      | some v => .ok v
      | none => .error (collapseErrors capability (!(outcomes capability ordered).isEmpty)
          (taggedErrors (outcomes capability ordered)) (some (targetLabel inst label))) := by
  have hloop := priorityLoop_fst capability false [] ordered
  rw [fetchSinglePriorityWithFallback]
  generalize priorityLoop capability false [] ordered = r at hloop ⊢
  obtain ⟨res, asked⟩ := r
  cases hv : (values (outcomes capability ordered)).head? <;> simp_all

/-- `fetch_single_latency` by the results of the calls as they arrive. -/
theorem fetchSingleLatency_eq (inst : Instrument K E) (capability : Capability) (label : String)
    (order : CompletionOrder) (ordered : List (Connector K × Option (Fut T))) :
    fetchSingleLatency inst capability label order ordered =
      match (values (order.arrange (outcomes capability ordered))).head? with
      | some v => .ok v
      | none => .error (collapseErrors capability (!(outcomes capability ordered).isEmpty)
          (taggedErrors (order.arrange (outcomes capability ordered)))
          (some (targetLabel inst label))) := by
  simp only [fetchSingleLatency, latencyLoop_eq, List.nil_append]
  cases (values (order.arrange (outcomes capability ordered))).head? with
  | some v => rfl
  | none =>
    -- without a call `collapse_errors` would say `Unsupported` as well
    cases hempty : (outcomes capability ordered).isEmpty <;> simp [collapseErrors]

/-- One strategy gives a value exactly when the other does. -/
theorem fetchSingle_isOk_iff (inst : Instrument K E) (capability : Capability) (label : String)
    (order : CompletionOrder) (ordered : List (Connector K × Option (Fut T))) :
    (∃ v, fetchSingleLatency inst capability label order ordered = .ok v) ↔
      ∃ v, (fetchSinglePriorityWithFallback inst capability label ordered).1 = .ok v := by
  have hvalues : (values (order.arrange (outcomes capability ordered))).Perm
      (values (outcomes capability ordered)) := (order.perm _).filterMap _
  have hnil := hvalues.isEmpty_eq
  rw [fetchSingleLatency_eq, fetchSinglePriorityWithFallback_fst]
  cases hv : values (outcomes capability ordered) <;>
    cases hw : values (order.arrange (outcomes capability ordered)) <;> simp_all

/-- Whether `fetch_single` gives a value depends neither on the strategy nor on the order in which the
providers answer. -/
theorem Borsa.fetchSingle_isOk_congr [DecidableEq K] [DecidableEq E] (self : Borsa K E)
    (strategy strategy' : FetchStrategy) (order order' : CompletionOrder) (inst : Instrument K E)
    (capability : Capability) (label : String)
    (call : Connector K → Instrument K E → Option (Fut T)) :
    (∃ v, self.fetchSingle strategy order inst capability label call = .ok v) ↔
      ∃ v, self.fetchSingle strategy' order' inst capability label call = .ok v := by
  have hpriority : ∀ strategy order,
      (∃ v, self.fetchSingle strategy order inst capability label call = .ok v) ↔
        ∃ v, self.fetchSingle .priorityWithFallback order inst capability label call = .ok v := by
    intro strategy order
    cases strategy with
    | priorityWithFallback => rfl
    | latency => exact fetchSingle_isOk_iff inst capability label order _
  rw [hpriority strategy order, hpriority strategy' order']
  rfl

/-- The two strategies agree: either both give a value, or both fail, and with the same error. The
value of the latency race is that of some provider. The value of the other strategy is that of the
first provider that has one, and no provider after it is asked. -/
theorem fetchSingle_strategies_agree (inst : Instrument K E) (capability : Capability)
    (label : String) (order : CompletionOrder)
    (ordered : List (Connector K × Option (Fut T))) :
    let priority := fetchSinglePriorityWithFallback inst capability label ordered
    let latency := fetchSingleLatency inst capability label order ordered
    ((∃ v, latency = .ok v) ↔ ∃ v, priority.1 = .ok v) ∧
    (∀ v, latency = .ok v → ∃ x ∈ ordered, Gives capability v x) ∧
    (∀ v, priority.1 = .ok v → ∃ pre x post, ordered = pre ++ x :: post ∧
      Gives capability v x ∧ (∀ y ∈ pre, ∀ w, ¬ Gives capability w y) ∧
      priority.2 = pre.map Prod.fst ++ [x.1]) ∧
    (∀ e e', priority.1 = .error e → latency = .error e' →
      SameFailure capability (targetLabel inst label) e e') := by
  intro priority latency
  have hperm := order.perm (outcomes capability ordered)
  have hvalues : (values (order.arrange (outcomes capability ordered))).Perm
      (values (outcomes capability ordered)) := hperm.filterMap _
  have hp : priority.1 = _ := fetchSinglePriorityWithFallback_fst inst capability label ordered
  have hl : latency = _ := fetchSingleLatency_eq inst capability label order ordered
  refine ⟨fetchSingle_isOk_iff inst capability label order ordered, ?_, ?_, ?_⟩
  · intro v h
    refine mem_values_outcomes.1 (hvalues.mem_iff.1 (List.mem_of_mem_head? ?_))
    rw [hl] at h
    cases hw : (values (order.arrange (outcomes capability ordered))).head? <;> simp_all
  · intro v h
    have hasked : priority.2 = (priorityLoop capability false [] ordered).2 := by
      simp only [priority, fetchSinglePriorityWithFallback]
      split <;> simp_all
    rw [hasked]
    refine priorityLoop_asked ?_
    rw [priorityLoop_fst]
    rw [hp] at h
    cases hv : (values (outcomes capability ordered)).head? <;> simp_all
  · intro e e' he he'
    have herrors : (taggedErrors (outcomes capability ordered)).Perm
        (taggedErrors (order.arrange (outcomes capability ordered))) :=
      (hperm.filterMap _).symm
    rw [hp] at he
    rw [hl] at he'
    cases hv : (values (outcomes capability ordered)).head? <;>
      cases hw : (values (order.arrange (outcomes capability ordered))).head? <;>
      simp only [hv, hw, reduceCtorEq, Except.error.injEq] at he he'
    rw [← he, ← he']
    exact sameFailure_collapseErrors _ _ _ herrors

end

end Borsa
