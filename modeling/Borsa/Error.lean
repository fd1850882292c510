import Borsa.Types

/-!
# Errors

`BorsaError`, its recursive classifiers, and `collapse_stream_errors`, which turns the errors of
a failed stream start into the one error the caller sees.
-/

namespace Borsa

/-- The error type of the workspace. -/
inductive BorsaError where
  /-- The capability is not implemented by the connector. -/
  | unsupported (capability : String)
  /-- An issue with the returned data. -/
  | data (message : String)
  | invalidArg (message : String)
  /-- An error tagged with the connector that returned it. -/
  | connector (connector : String) (error : BorsaError)
  | inconsistentCurrencyData
  | other (message : String)
  | notFound (what : String)
  /-- The aggregate of several providers' failures. -/
  | allProvidersFailed (errors : List BorsaError)
  | providerTimeout (connector capability : String)
  | requestTimeout (capability : String)
  | allProvidersTimedOut (capability : String)
  /-- Symbols that a strict routing rule excludes from every streaming provider. -/
  | strictSymbolsRejected (rejected : List Symbol)
  | quotaExceeded (remaining resetInMs : UInt64)
  | rateLimitExceeded (limit windowMs : UInt64)
  | temporarilyBlacklisted (resetInMs : UInt64)
  | invalidMiddlewareStack (message : String)

namespace BorsaError

mutual

/-- Whether the error should be surfaced: not a capability's absence and not a missing resource. An
aggregate is as actionable as its contents. -/
def isActionable : BorsaError → Bool
  | .unsupported _ | .notFound _ => false
  | .allProvidersFailed inner => isActionableAny inner
  | _ => true

/-- `isActionable` of some element. -/
def isActionableAny : List BorsaError → Bool
  | [] => false
  | e :: rest => isActionable e || isActionableAny rest
end

mutual

/-- The errors of nested aggregates as one flat list. -/
def flatten : BorsaError → List BorsaError
  | .allProvidersFailed list => flattenAll list
  | e => [e]

/-- `flatten` over a list. -/
def flattenAll : List BorsaError → List BorsaError
  | [] => []
  | e :: rest => flatten e ++ flattenAll rest
end

/-- `isActionableAny` in the natural per-element form. -/
theorem isActionableAny_eq_any (l : List BorsaError) :
    isActionableAny l = l.any isActionable := by
  induction l with
  | nil => rfl
  | cons e rest ih => rw [isActionableAny, ih, List.any_cons]

/-- `flattenAll` in the natural per-element form. -/
theorem flattenAll_eq_flatMap (l : List BorsaError) : flattenAll l = l.flatMap flatten := by
  induction l with
  | nil => rfl
  | cons e rest ih => rw [flattenAll, ih, List.flatMap_cons]

mutual

/-- An error is actionable when one of the errors it aggregates is. -/
theorem any_flatten : ∀ e : BorsaError, (flatten e).any isActionable = isActionable e
  | .allProvidersFailed list => any_flattenAll list
  | .unsupported _ | .data _ | .invalidArg _ | .connector .. | .inconsistentCurrencyData | .other _
  | .notFound _ | .providerTimeout .. | .requestTimeout _ | .allProvidersTimedOut _
  | .strictSymbolsRejected _ | .quotaExceeded .. | .rateLimitExceeded ..
  | .temporarilyBlacklisted _ | .invalidMiddlewareStack _ => rfl

/-- `any_flatten` over a list. -/
theorem any_flattenAll : ∀ l : List BorsaError,
    (flattenAll l).any isActionable = isActionableAny l
  | [] => rfl
  | e :: rest => by
    rw [flattenAll, List.any_append, any_flatten e, any_flattenAll rest, isActionableAny]
end

end BorsaError

/-- Whether a failed request may succeed when it is made again. -/
inductive RetryClass where
  | permanent | transient | unknown
  deriving DecidableEq

namespace BorsaError

mutual

/-- `retry_class`. An error tagged with its connector is classified as itself, and an aggregate by its
contents. -/
def retryClass : BorsaError → RetryClass
  | .unsupported _ | .notFound _ | .strictSymbolsRejected _ | .invalidArg _
  | .invalidMiddlewareStack _ | .inconsistentCurrencyData => .permanent
  | .providerTimeout .. | .requestTimeout _ | .allProvidersTimedOut _ | .quotaExceeded ..
  | .rateLimitExceeded .. | .temporarilyBlacklisted _ => .transient
  | .allProvidersFailed inner =>
    if anyPermanent inner then .permanent
    else if allTransient inner then .transient
    else .unknown
  | .connector _ error => retryClass error
  | _ => .unknown

/-- Some element is permanent. -/
def anyPermanent : List BorsaError → Bool
  | [] => false
  | e :: rest => decide (retryClass e = .permanent) || anyPermanent rest

/-- All elements are transient. -/
def allTransient : List BorsaError → Bool
  | [] => true
  | e :: rest => decide (retryClass e = .transient) && allTransient rest
end

/-- `is_permanent`. -/
def isPermanent (e : BorsaError) : Bool := decide (e.retryClass = .permanent)

end BorsaError

/-- `collapse_stream_errors`: the actionable errors of a failed start, flattened; none of them is
reported as the capability being unsupported, and a single one as itself. -/
def collapseStreamErrors (capability : Capability) (errors : List BorsaError) : BorsaError :=
  let actionable := (errors.flatMap BorsaError.flatten).filter BorsaError.isActionable
  match actionable with
  | [] => .unsupported capability.asStr
  | [e] => e
  | es => .allProvidersFailed es

/-- The error the caller sees is actionable exactly when one of the errors of the start is. -/
theorem isActionable_collapseStreamErrors (capability : Capability) (errors : List BorsaError) :
    (collapseStreamErrors capability errors).isActionable =
      errors.any BorsaError.isActionable := by
  have hany : (errors.flatMap BorsaError.flatten).any BorsaError.isActionable =
      errors.any BorsaError.isActionable := by
    rw [← BorsaError.flattenAll_eq_flatMap, BorsaError.any_flattenAll,
      BorsaError.isActionableAny_eq_any]
  rw [← hany, collapseStreamErrors]
  have hmem : ∀ e ∈ (errors.flatMap BorsaError.flatten).filter BorsaError.isActionable,
      e.isActionable = true ∧
        (errors.flatMap BorsaError.flatten).any BorsaError.isActionable = true := by
    intro e he
    obtain ⟨he, hact⟩ := List.mem_filter.1 he
    exact ⟨hact, List.any_eq_true.2 ⟨e, he, hact⟩⟩
  split
  · next hnil =>
    refine (Bool.eq_false_iff.2 fun h => ?_).symm
    obtain ⟨e, he, hact⟩ := List.any_eq_true.1 h
    exact List.filter_eq_nil_iff.1 hnil e he hact
  · next e hone =>
    obtain ⟨hact, h⟩ := hmem e (hone ▸ List.mem_singleton_self e)
    rw [hact, h]
  · next es hne _ =>
    obtain ⟨e, he⟩ := List.exists_mem_of_ne_nil _ hne
    obtain ⟨hact, h⟩ := hmem e he
    rw [h, BorsaError.isActionable, BorsaError.isActionableAny_eq_any]
    exact List.any_eq_true.2 ⟨e, he, hact⟩

/-- `tag_err`: an error is tagged with its connector unless it already names its origin or needs
none. -/
def tagErr (connector : String) (e : BorsaError) : BorsaError :=
  match e with
  | .notFound _ | .providerTimeout .. | .connector .. | .requestTimeout _
  | .allProvidersTimedOut _ | .allProvidersFailed _ => e
  | other => .connector connector other

end Borsa
