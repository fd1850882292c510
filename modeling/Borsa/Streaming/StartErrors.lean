import Borsa.ErrorAggregates
import Borsa.Fetch

/-!
# The errors of failed starts

The controller tags what a provider start raises with the provider's name, and the supervisor
collapses the tagged errors with `collapse_stream_errors`, which flattens them and keeps the
actionable ones. `tag_err` leaves an aggregate as it is and wraps an `Unsupported`, and the wrapped
form is actionable: `reportsLeaves_iff` says that the collapsed error reports what the starts raised
exactly when none of them raised an `Unsupported` of its own.
-/

set_option linter.dupNamespace false

namespace Borsa

/-- The error is an `Unsupported`. -/
def BorsaError.isUnsupported : BorsaError → Bool
  | .unsupported _ => true
  | _ => false

open BorsaError

/-! ## Tagging one error -/

/-- Tagging keeps the classification of every error but an `Unsupported`. -/
theorem isActionable_tagErr (name : String) (e : BorsaError) :
    (tagErr name e).isActionable = e.isActionable ↔ e.isUnsupported = false := by
  cases e <;> simp [tagErr, isActionable, isUnsupported]

/-- An aggregate is not tagged, and any other error is tagged as its only leaf. -/
theorem flatten_tagErr (name : String) (e : BorsaError) :
    flatten (tagErr name e) = if e.isAggregate then flatten e else [tagErr name e] := by
  cases e <;> rfl

/-- An error that is no aggregate is not actionable when it is an `Unsupported` or a `NotFound`. -/
theorem isActionable_eq_false_iff {e : BorsaError} (h : e.isAggregate = false) :
    e.isActionable = false ↔ e.isUnsupported = true ∨ e.isNotFound = true := by
  cases e <;> simp_all [isAggregate, isActionable, isUnsupported, isNotFound]

/-! ## What the collapsed error lists -/

/-- The actionable leaves of the errors. -/
def actionableLeaves (errors : List BorsaError) : List BorsaError :=
  (errors.flatMap flatten).filter isActionable

theorem mem_actionableLeaves {errors : List BorsaError} {e : BorsaError}
    (h : e ∈ actionableLeaves errors) : e.isActionable = true ∧ e.isAggregate = false := by
  obtain ⟨hmem, hact⟩ := List.mem_filter.1 h
  obtain ⟨raised, _, hmem⟩ := List.mem_flatMap.1 hmem
  exact ⟨hact, (groups_flatten raised).isAggregate_of_mem e hmem⟩

theorem isUnsupported_of_isActionable {e : BorsaError} (h : e.isActionable = true) :
    e.isUnsupported = false := by
  cases e with
  | unsupported capability => exact absurd h Bool.false_ne_true
  | _ => rfl

/-- Leaves flatten to themselves. -/
theorem flattenAll_leaves {l : List BorsaError} (h : ∀ e ∈ l, e.isAggregate = false) :
    flattenAll l = l := by
  induction l with
  | nil => rfl
  | cons e rest ih =>
    rw [flattenAll, flatten_of_isAggregate (h e List.mem_cons_self),
      ih fun e' h' => h e' (List.mem_cons_of_mem e h'), List.singleton_append]

/-- The collapsed error is an `Unsupported` when no leaf is actionable. -/
theorem isUnsupported_collapseStreamErrors {capability : Capability} {errors : List BorsaError}
    (h : actionableLeaves errors = []) :
    (collapseStreamErrors capability errors).isUnsupported = true := by
  rw [collapseStreamErrors, show (errors.flatMap flatten).filter isActionable = [] from h]
  rfl

/-- The collapsed error lists the actionable leaves when there are any. -/
theorem flatten_collapseStreamErrors (capability : Capability) {errors : List BorsaError}
    (h : actionableLeaves errors ≠ []) :
    (collapseStreamErrors capability errors).isUnsupported = false ∧
      flatten (collapseStreamErrors capability errors) = actionableLeaves errors := by
  have hleaf := @mem_actionableLeaves errors
  rw [collapseStreamErrors,
    show (errors.flatMap flatten).filter isActionable = actionableLeaves errors from rfl]
  cases hl : actionableLeaves errors with
  | nil => exact absurd hl h
  | cons e rest =>
    rw [hl] at hleaf
    cases rest with
    | nil =>
      obtain ⟨hact, hagg⟩ := hleaf (List.mem_singleton_self e)
      exact ⟨isUnsupported_of_isActionable hact, flatten_of_isAggregate hagg⟩
    | cons e' rest => exact ⟨rfl, flattenAll_leaves fun x hx => (hleaf hx).2⟩

/-! ## Starts -/

/-- What a provider start raised, with the provider's name. -/
abbrev Raised := String × BorsaError

/-- The errors the controller collects from the starts. -/
def startErrors (raised : List Raised) : List BorsaError := raised.map fun r => tagErr r.1 r.2

/-- The leaves of the raised errors, in order, each with the form in which the controller collects
it. -/
def startLeaves (raised : List Raised) : List (BorsaError × BorsaError) :=
  raised.flatMap fun r => (flatten r.2).map fun leaf =>
    (leaf, if r.2.isAggregate then leaf else tagErr r.1 leaf)

theorem map_fst_startLeaves (raised : List Raised) :
    (startLeaves raised).map Prod.fst = raised.flatMap fun r => flatten r.2 := by
  simp [startLeaves, List.map_flatMap, Function.comp_def]

/-- The collected forms are the leaves of what the controller collects. -/
theorem map_snd_startLeaves (raised : List Raised) :
    (startLeaves raised).map Prod.snd = (startErrors raised).flatMap flatten := by
  rw [startLeaves, startErrors, List.map_flatMap, List.flatMap_map]
  refine List.flatMap_congr fun r _ => ?_
  rw [List.map_map, flatten_tagErr]
  cases hagg : r.2.isAggregate with
  | true => simp [Function.comp_def]
  | false => simp [flatten_of_isAggregate hagg]

/-- The collapsed error reports what the starts raised: it is an `Unsupported` exactly when every
leaf of the raised errors is an `Unsupported` or a `NotFound`, and otherwise it lists the actionable
ones among them, in order, each in its collected form. -/
def ReportsLeaves (capability : Capability) (raised : List Raised) : Prop :=
  ((collapseStreamErrors capability (startErrors raised)).isUnsupported = true ↔
    ∀ leaf ∈ raised.flatMap fun r => flatten r.2,
      leaf.isUnsupported = true ∨ leaf.isNotFound = true) ∧
  ((collapseStreamErrors capability (startErrors raised)).isUnsupported = false →
    flatten (collapseStreamErrors capability (startErrors raised)) =
      ((startLeaves raised).filter fun p => p.1.isActionable).map Prod.snd)

/-- What the collapsed error lists, as the leaves whose collected form is actionable. -/
theorem actionableLeaves_startErrors (raised : List Raised) :
    actionableLeaves (startErrors raised) =
      ((startLeaves raised).filter fun p => p.2.isActionable).map Prod.snd := by
  rw [actionableLeaves, ← map_snd_startLeaves, List.filter_map]
  rfl

/-- An actionable leaf is collected in an actionable form. -/
theorem isActionable_snd {raised : List Raised} {p : BorsaError × BorsaError}
    (hp : p ∈ startLeaves raised) (h : p.1.isActionable = true) : p.2.isActionable = true := by
  obtain ⟨r, _, hp⟩ := List.mem_flatMap.1 hp
  obtain ⟨leaf, _, rfl⟩ := List.mem_map.1 hp
  split
  · exact h
  · rw [(isActionable_tagErr r.1 leaf).2 (isUnsupported_of_isActionable h)]
    exact h

/-- A leaf and its collected form are classified alike unless its start raised an `Unsupported`. -/
theorem isActionable_fst {raised : List Raised} (h : ∀ r ∈ raised, r.2.isUnsupported = false)
    {p : BorsaError × BorsaError} (hp : p ∈ startLeaves raised) :
    p.2.isActionable = p.1.isActionable := by
  obtain ⟨r, hr, hp⟩ := List.mem_flatMap.1 hp
  obtain ⟨leaf, hleaf, rfl⟩ := List.mem_map.1 hp
  split
  · rfl
  · next hagg =>
    rw [flatten_of_isAggregate (Bool.eq_false_iff.2 hagg), List.mem_singleton] at hleaf
    rw [hleaf]
    exact (isActionable_tagErr r.1 r.2).2 (h r hr)

/-- No leaf of the raised errors is actionable exactly when each is an `Unsupported` or a
`NotFound`. -/
theorem filter_startLeaves_eq_nil (raised : List Raised) :
    (startLeaves raised).filter (fun p => p.1.isActionable) = [] ↔
      ∀ leaf ∈ raised.flatMap fun r => flatten r.2,
        leaf.isUnsupported = true ∨ leaf.isNotFound = true := by
  rw [← map_fst_startLeaves, List.filter_eq_nil_iff, List.forall_mem_map]
  refine forall₂_congr fun p hp => ?_
  have hagg : p.1.isAggregate = false := by
    obtain ⟨r, _, hp⟩ := List.mem_flatMap.1 hp
    obtain ⟨leaf, hleaf, rfl⟩ := List.mem_map.1 hp
    exact (groups_flatten r.2).isAggregate_of_mem leaf hleaf
  rw [Bool.not_eq_true]
  exact isActionable_eq_false_iff hagg

/-- With no `Unsupported` among the raised errors, the collapsed error reports them. -/
theorem reportsLeaves_of_isUnsupported (capability : Capability) {raised : List Raised}
    (h : ∀ r ∈ raised, r.2.isUnsupported = false) : ReportsLeaves capability raised := by
  have hkept : actionableLeaves (startErrors raised) =
      ((startLeaves raised).filter fun p => p.1.isActionable).map Prod.snd := by
    rw [actionableLeaves_startErrors]
    congr 1
    exact List.filter_congr fun p hp => isActionable_fst h hp
  constructor
  · rw [← filter_startLeaves_eq_nil, ← List.map_eq_nil_iff (f := Prod.snd), ← hkept]
    constructor
    · intro hunsupported
      by_contra hne
      rw [(flatten_collapseStreamErrors capability hne).1] at hunsupported
      exact absurd hunsupported Bool.false_ne_true
    · exact isUnsupported_collapseStreamErrors
  · intro hunsupported
    rw [← hkept]
    refine (flatten_collapseStreamErrors capability fun hnil => ?_).2
    rw [isUnsupported_collapseStreamErrors hnil] at hunsupported
    exact absurd hunsupported Bool.false_ne_true.symm

/-- An `Unsupported` among the raised errors is collected in an actionable form. -/
theorem exists_mem_startLeaves {raised : List Raised} {r : Raised} (hr : r ∈ raised)
    (h : r.2.isUnsupported = true) :
    ∃ p ∈ startLeaves raised, p.1.isActionable = false ∧ p.2.isActionable = true := by
  obtain ⟨name, e⟩ := r
  cases e with
  | unsupported capability =>
    refine ⟨(.unsupported capability, .connector name (.unsupported capability)), ?_, rfl, rfl⟩
    exact List.mem_flatMap.2 ⟨_, hr, List.mem_singleton_self _⟩
  | _ => exact absurd h Bool.false_ne_true

/-- An `Unsupported` among the raised errors is listed although it is not actionable. -/
theorem not_reportsLeaves {capability : Capability} {raised : List Raised} {r : Raised}
    (hr : r ∈ raised) (h : r.2.isUnsupported = true) : ¬ ReportsLeaves capability raised := by
  rintro ⟨_, hlist⟩
  obtain ⟨p, hp, hfst, hsnd⟩ := exists_mem_startLeaves hr h
  have hmem : p ∈ (startLeaves raised).filter fun p => p.2.isActionable :=
    List.mem_filter.2 ⟨hp, hsnd⟩
  have hne : actionableLeaves (startErrors raised) ≠ [] := by
    rw [actionableLeaves_startErrors]
    exact List.ne_nil_of_mem (List.mem_map_of_mem hmem)
  obtain ⟨hunsupported, hflatten⟩ := flatten_collapseStreamErrors capability hne
  have heq := hflatten.symm.trans (hlist hunsupported)
  rw [actionableLeaves_startErrors] at heq
  -- the leaves that should be listed are among those that are, and as many
  have hsub : ((startLeaves raised).filter fun p => p.1.isActionable).Sublist
      ((startLeaves raised).filter fun p => p.2.isActionable) := by
    have hboth : (startLeaves raised).filter (fun p => p.1.isActionable) =
        ((startLeaves raised).filter fun p => p.2.isActionable).filter
          fun p => p.1.isActionable := by
      rw [List.filter_filter]
      refine List.filter_congr fun q hq => ?_
      cases hact : q.1.isActionable with
      | false => rfl
      | true => rw [isActionable_snd hq hact, Bool.and_self]
    rw [hboth]
    exact List.filter_sublist
  have hlen : ((startLeaves raised).filter fun p => p.1.isActionable).length =
      ((startLeaves raised).filter fun p => p.2.isActionable).length := by
    simpa using (congrArg List.length heq).symm
  rw [← hsub.eq_of_length hlen] at hmem
  rw [(List.mem_filter.1 hmem).2] at hfst
  exact absurd hfst Bool.false_ne_true.symm

/-- **Tagging an error keeps its classification exactly when it is not an `Unsupported`**, and the
error a failed startup reports lists what the starts raised exactly when none of them raised an
`Unsupported`. -/
theorem reportsLeaves_iff (capability : Capability) (raised : List Raised) :
    (∀ name e, (tagErr name e).isActionable = e.isActionable ↔ e.isUnsupported = false) ∧
    (ReportsLeaves capability raised ↔ ∀ r ∈ raised, r.2.isUnsupported = false) := by
  refine ⟨isActionable_tagErr, ?_, reportsLeaves_of_isUnsupported capability⟩
  intro h r hr
  by_contra hunsupported
  exact not_reportsLeaves hr (Bool.not_eq_false _ ▸ hunsupported) h

/-- A provider that cannot stream after all: its `Unsupported` is actionable once tagged, and the
startup reports it in place of its own `Unsupported`. -/
theorem tagged_unsupported_is_reported :
    (tagErr "p" (.unsupported "stream_quotes")).isActionable ≠
        (BorsaError.unsupported "stream_quotes").isActionable ∧
      ¬ ReportsLeaves .streamQuotes [("p", .unsupported "stream_quotes")] := by
  refine ⟨by decide, ?_⟩
  rintro ⟨hiff, _⟩
  exact absurd (hiff.2 (by decide)) (by decide)

end Borsa
