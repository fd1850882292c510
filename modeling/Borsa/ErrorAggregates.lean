import Borsa.Error
import Mathlib

/-!
# Aggregates as their leaves

An `allProvidersFailed` may hold further aggregates, to any depth, and the router builds them by
grouping errors as its callers return them. `Groups e leaves` says that `e` is some nesting of the
errors `leaves`, in their order; `flatten` computes the leaves, and both classifiers are functions of
the leaves alone.

The retry class of an aggregate is a three-way verdict. `RetryClass` is ordered by how little hope it
leaves, and the verdict is the supremum of the contents' classes: `transient`, the class of an empty
aggregate, is the least element, and `permanent` the greatest.
-/

namespace Borsa

namespace RetryClass

/-- The worse of two classes. -/
def worse : RetryClass → RetryClass → RetryClass
  | .permanent, _ | _, .permanent => .permanent
  | .transient, c | c, .transient => c
  | .unknown, .unknown => .unknown

instance : Max RetryClass := ⟨worse⟩

instance : SemilatticeSup RetryClass :=
  SemilatticeSup.mk' (by rintro (_ | _ | _) (_ | _ | _) <;> rfl)
    (by rintro (_ | _ | _) (_ | _ | _) (_ | _ | _) <;> rfl) (by rintro (_ | _ | _) <;> rfl)

instance : OrderBot RetryClass where
  bot := .transient
  bot_le c := by cases c <;> rfl

end RetryClass

namespace BorsaError

/-! ## The verdict of an aggregate -/

/-- The class of an aggregate is the supremum of its contents' classes, one element at a time. -/
theorem retryClass_allProvidersFailed_cons (e : BorsaError) (l : List BorsaError) :
    retryClass (.allProvidersFailed (e :: l)) =
      retryClass e ⊔ retryClass (.allProvidersFailed l) := by
  simp only [retryClass, anyPermanent, allTransient]
  obtain ⟨c, hc⟩ : ∃ c, retryClass e = c := ⟨_, rfl⟩
  simp only [hc]
  cases c <;> cases anyPermanent l <;> cases allTransient l <;> rfl

/-- `retry_class` of an aggregate as a supremum. -/
theorem retryClass_allProvidersFailed (l : List BorsaError) :
    retryClass (.allProvidersFailed l) = (l.map retryClass : Multiset RetryClass).sup := by
  induction l with
  | nil => rfl
  | cons e rest ih =>
    rw [retryClass_allProvidersFailed_cons, ih, List.map_cons, ← Multiset.cons_coe,
      Multiset.sup_cons]

mutual

/-- The class of an error is the supremum of its leaves' classes. -/
theorem sup_flatten : ∀ e : BorsaError,
    ((flatten e).map retryClass : Multiset RetryClass).sup = retryClass e
  | .allProvidersFailed list => sup_flattenAll list
  | .unsupported _ | .data _ | .invalidArg _ | .connector .. | .inconsistentCurrencyData | .other _
  | .notFound _ | .providerTimeout .. | .requestTimeout _ | .allProvidersTimedOut _
  | .strictSymbolsRejected _ | .quotaExceeded .. | .rateLimitExceeded ..
  | .temporarilyBlacklisted _ | .invalidMiddlewareStack _ => Multiset.sup_singleton

/-- `sup_flatten` over a list. -/
theorem sup_flattenAll : ∀ l : List BorsaError,
    ((flattenAll l).map retryClass : Multiset RetryClass).sup =
      retryClass (.allProvidersFailed l)
  | [] => rfl
  | e :: rest => by
    rw [flattenAll, List.map_append, ← Multiset.coe_add, Multiset.sup_add, sup_flatten e,
      sup_flattenAll rest, retryClass_allProvidersFailed_cons]
end

/-! ## Groupings -/

/-- Whether the error is itself an aggregate. -/
def isAggregate : BorsaError → Bool
  | .allProvidersFailed _ => true
  | _ => false

/-- `e` is a nesting of the errors `leaves`, in their order. -/
inductive Groups : BorsaError → List BorsaError → Prop
  | leaf {e : BorsaError} (h : e.isAggregate = false) : Groups e [e]
  | aggregate (parts : List (BorsaError × List BorsaError)) (h : ∀ p ∈ parts, Groups p.1 p.2) :
    Groups (.allProvidersFailed (parts.map Prod.fst)) (parts.flatMap Prod.snd)

/-- An error that is no aggregate is its own only leaf. -/
theorem flatten_of_isAggregate {e : BorsaError} (h : e.isAggregate = false) : flatten e = [e] := by
  cases e with
  | allProvidersFailed list => cases h
  | _ => rfl

/-- An error groups no leaves but those `flatten` gives. -/
theorem Groups.flatten_eq {e : BorsaError} {leaves : List BorsaError} (h : Groups e leaves) :
    flatten e = leaves := by
  induction h with
  | leaf h => exact flatten_of_isAggregate h
  | aggregate parts _ ih =>
    show flattenAll (parts.map Prod.fst) = parts.flatMap Prod.snd
    rw [flattenAll_eq_flatMap, List.flatMap_map]
    exact List.flatMap_congr ih

mutual

/-- Every error groups the leaves `flatten` gives. -/
theorem groups_flatten : ∀ e : BorsaError, Groups e (flatten e)
  | .allProvidersFailed list => by
    obtain ⟨parts, hfst, hsnd, hparts⟩ := groups_flattenAll list
    rw [flatten, hsnd, hfst]
    exact .aggregate parts hparts
  | .unsupported _ | .data _ | .invalidArg _ | .connector .. | .inconsistentCurrencyData | .other _
  | .notFound _ | .providerTimeout .. | .requestTimeout _ | .allProvidersTimedOut _
  | .strictSymbolsRejected _ | .quotaExceeded .. | .rateLimitExceeded ..
  | .temporarilyBlacklisted _ | .invalidMiddlewareStack _ => .leaf rfl

/-- `groups_flatten` over a list. -/
theorem groups_flattenAll : ∀ l : List BorsaError, ∃ parts : List (BorsaError × List BorsaError),
    l = parts.map Prod.fst ∧ flattenAll l = parts.flatMap Prod.snd ∧
      ∀ p ∈ parts, Groups p.1 p.2
  | [] => ⟨[], rfl, rfl, by simp⟩
  | e :: rest => by
    obtain ⟨parts, hfst, hsnd, hparts⟩ := groups_flattenAll rest
    refine ⟨(e, flatten e) :: parts, by rw [List.map_cons, ← hfst], ?_, ?_⟩
    · rw [flattenAll, hsnd, List.flatMap_cons]
    · intro p hp
      rcases List.mem_cons.1 hp with rfl | hp
      · exact groups_flatten e
      · exact hparts p hp
end

/-- No leaf is an aggregate. -/
theorem Groups.isAggregate_of_mem {e : BorsaError} {leaves : List BorsaError}
    (h : Groups e leaves) : ∀ leaf ∈ leaves, leaf.isAggregate = false := by
  induction h with
  | leaf h =>
    intro leaf hleaf
    rwa [List.mem_singleton.1 hleaf]
  | aggregate parts _ ih =>
    intro leaf hleaf
    obtain ⟨p, hp, hleaf⟩ := List.mem_flatMap.1 hleaf
    exact ih p hp leaf hleaf

/-- Both classifiers read the leaves alone, and not their order. -/
theorem Groups.classifiers_eq {e e' : BorsaError} {leaves leaves' : List BorsaError}
    (h : Groups e leaves) (h' : Groups e' leaves') (hperm : leaves.Perm leaves') :
    isActionable e = isActionable e' ∧ retryClass e = retryClass e' := by
  constructor
  · rw [← any_flatten e, ← any_flatten e', h.flatten_eq, h'.flatten_eq]
    exact hperm.any_eq
  · rw [← sup_flatten e, ← sup_flatten e', h.flatten_eq, h'.flatten_eq,
      Multiset.coe_eq_coe.2 (hperm.map retryClass)]

/-- **An error behaves as the flat list of its leaves.** Flattening leaves no aggregate, an error is
actionable exactly when one of its leaves is, its retry class is that of the one aggregate of its
leaves, another nesting of the same leaves flattens and classifies alike, and a nesting of the leaves
in another order classifies alike. -/
theorem aggregate_eq_leaves (e : BorsaError) :
    (∀ leaf ∈ flatten e, leaf.isAggregate = false) ∧
    (isActionable e = true ↔ ∃ leaf ∈ flatten e, isActionable leaf = true) ∧
    retryClass e = retryClass (.allProvidersFailed (flatten e)) ∧
    ∀ leaves leaves' e', Groups e leaves → Groups e' leaves' →
      (leaves' = leaves → flatten e' = flatten e) ∧
      (leaves'.Perm leaves → isActionable e' = isActionable e ∧ retryClass e' = retryClass e) := by
  refine ⟨(groups_flatten e).isAggregate_of_mem, ?_, ?_, fun leaves leaves' e' h h' => ⟨?_, ?_⟩⟩
  · rw [← any_flatten e, List.any_eq_true]
  · rw [retryClass_allProvidersFailed, sup_flatten]
  · intro heq
    rw [h.flatten_eq, h'.flatten_eq, heq]
  · intro hperm
    exact h'.classifiers_eq h hperm

end BorsaError

end Borsa
