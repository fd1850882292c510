import Mathlib.Algebra.BigOperators.Group.Finset.Piecewise
import Mathlib.Algebra.BigOperators.Group.List.Basic
import Mathlib.Data.List.Perm.Basic
import Mathlib.Data.Fintype.Basic

/-!
# One entry replaced

What a list, or a family over a finite type, comes to when one of its entries is replaced: the
entries that a function collects from it, and what its entries add up to. A component of a composed
system that takes a step replaces one entry, so these are the frame rules of such systems.
-/

namespace Slots

universe u v w
variable {α : Type u} {β : Type v} {ι : Type w}

section List
variable {l : List α} {j : Nat} {a a' : α}

/-- An entry in front of the others. -/
theorem perm_cons_eraseIdx (h : l[j]? = some a) : l.Perm (a :: l.eraseIdx j) := by
  obtain ⟨hj, rfl⟩ := List.getElem?_eq_some_iff.1 h
  exact (List.getElem_cons_eraseIdx_perm hj).symm

/-- What replaces an entry in front of the others. -/
theorem set_perm_cons_eraseIdx (h : l[j]? = some a) (a' : α) :
    (l.set j a').Perm (a' :: l.eraseIdx j) :=
  List.set_perm_cons_eraseIdx (List.getElem?_eq_some_iff.1 h).1 a'

/-- An entry replaced by one that gives the same. -/
theorem filterMap_set_of_eq {f : α → Option β} (h : l[j]? = some a) (hf : f a' = f a) :
    (l.set j a').filterMap f = l.filterMap f := by
  induction l generalizing j with
  | nil => cases h
  | cons b l ih =>
    cases j with
    | zero =>
      cases h
      rw [List.set_cons_zero, List.filterMap_cons, List.filterMap_cons, hf]
    | succ j => rw [List.set_cons_succ, List.filterMap_cons, List.filterMap_cons, ih h]

/-- An entry that gives `b` replaced by one that gives nothing. -/
theorem filterMap_perm_set {f : α → Option β} {b : β} (h : l[j]? = some a) (hf : f a = some b)
    (hf' : f a' = none) : (l.filterMap f).Perm (b :: (l.set j a').filterMap f) := by
  have hl := (perm_cons_eraseIdx h).filterMap f
  have hs := (set_perm_cons_eraseIdx h a').filterMap f
  rw [List.filterMap_cons_some hf] at hl
  rw [List.filterMap_cons_none hf'] at hs
  exact hl.trans (hs.symm.cons b)

/-- An entry that gives nothing replaced by one that gives `b`. -/
theorem filterMap_set_perm {f : α → Option β} {b : β} (h : l[j]? = some a) (hf : f a = none)
    (hf' : f a' = some b) : ((l.set j a').filterMap f).Perm (b :: l.filterMap f) := by
  have hl := (perm_cons_eraseIdx h).filterMap f
  have hs := (set_perm_cons_eraseIdx h a').filterMap f
  rw [List.filterMap_cons_none hf] at hl
  rw [List.filterMap_cons_some hf'] at hs
  exact hs.trans (hl.symm.cons b)

/-- A function that collects less. -/
theorem filterMap_sublist_of {f g : α → Option β} (h : ∀ a, f a = none ∨ f a = g a)
    (l : List α) : (l.filterMap f).Sublist (l.filterMap g) := by
  induction l with
  | nil => exact .slnil
  | cons a l ih =>
    rw [List.filterMap_cons, List.filterMap_cons]
    rcases h a with hf | hf <;> rw [hf]
    · cases g a with
      | none => exact ih
      | some b => exact ih.cons b
    · cases g a with
      | none => exact ih
      | some b => exact ih.cons_cons b

/-- An entry replaced by one that gives the same, or more. -/
theorem filterMap_subperm_set {f : α → Option β} (h : l[j]? = some a)
    (hf : f a = none ∨ f a' = f a) : (l.filterMap f).Subperm ((l.set j a').filterMap f) := by
  rcases hf with hf | hf
  · cases hf' : f a' with
    | none => rw [filterMap_set_of_eq h (hf'.trans hf.symm)]
    | some b =>
      exact (List.sublist_cons_self ..).subperm.trans (filterMap_set_perm h hf hf').symm.subperm
  · rw [filterMap_set_of_eq h hf]

/-- An entry replaced by one that is left out as it was. -/
theorem filter_set_of_neg {p : α → Bool} (h : l[j]? = some a) (ha : p a = false)
    (ha' : p a' = false) : (l.set j a').filter p = l.filter p := by
  induction l generalizing j with
  | nil => cases h
  | cons b l ih =>
    cases j with
    | zero =>
      cases h
      rw [List.set_cons_zero, List.filter_cons_of_neg (by simp [ha']),
        List.filter_cons_of_neg (by simp [ha])]
    | succ j => rw [List.set_cons_succ, List.filter_cons, List.filter_cons, ih h]

/-- An entry replaced by one that is kept as it was. -/
theorem exists_filter_set {p : α → Bool} (h : l[j]? = some a) (ha : p a = true)
    (ha' : p a' = true) :
    ∃ k, (l.filter p)[k]? = some a ∧ (l.set j a').filter p = (l.filter p).set k a' := by
  induction l generalizing j with
  | nil => cases h
  | cons b l ih =>
    cases j with
    | zero =>
      cases h
      refine ⟨0, ?_, ?_⟩
      · rw [List.filter_cons_of_pos ha, List.getElem?_cons_zero]
      · rw [List.set_cons_zero, List.filter_cons_of_pos ha', List.filter_cons_of_pos ha,
          List.set_cons_zero]
    | succ j =>
      obtain ⟨k, hk, hset⟩ := ih h
      rw [List.set_cons_succ, List.filter_cons, List.filter_cons, hset]
      cases p b with
      | true => exact ⟨k + 1, hk, rfl⟩
      | false => exact ⟨k, hk, rfl⟩

/-- The entries counted before and after. -/
theorem countP_set_add {p : α → Bool} (h : l[j]? = some a) (a' : α) :
    (l.set j a').countP p + (if p a then 1 else 0) = l.countP p + if p a' then 1 else 0 := by
  rw [(perm_cons_eraseIdx h).countP_eq, (set_perm_cons_eraseIdx h a').countP_eq, List.countP_cons,
    List.countP_cons]
  omega

variable {M : Type v} [AddCommMonoid M]

/-- The sum over a list, with an entry taken out and another put in its place. -/
theorem exists_sum_set (f : α → M) (h : l[j]? = some a) :
    ∃ rest, (l.map f).sum = f a + rest ∧ ∀ a', ((l.set j a').map f).sum = f a' + rest := by
  refine ⟨((l.eraseIdx j).map f).sum, ?_, fun a' => ?_⟩
  · rw [((perm_cons_eraseIdx h).map f).sum_eq, List.map_cons, List.sum_cons]
  · rw [((set_perm_cons_eraseIdx h a').map f).sum_eq, List.map_cons, List.sum_cons]

end List

section Family
variable {M : Type v} [AddCommMonoid M] [Fintype ι] [DecidableEq ι]

/-- The sum over a family, with a member taken out and another put in its place. -/
theorem exists_sum_update (f : ι → α → M) (c : ι → α) (i : ι) :
    ∃ rest, ∑ k, f k (c k) = f i (c i) + rest ∧
      ∀ a, ∑ k, f k (Function.update c i a k) = f i a + rest := by
  have hupd : ∀ a, ∑ k, f k (Function.update c i a k) =
      f i a + ∑ k ∈ Finset.univ \ {i}, f k (c k) := by
    intro a
    rw [← Finset.sum_update_of_mem (Finset.mem_univ i)]
    refine Finset.sum_congr rfl fun k _ => ?_
    rcases eq_or_ne k i with rfl | hk
    · rw [Function.update_self, Function.update_self]
    · rw [Function.update_of_ne hk, Function.update_of_ne hk]
  refine ⟨∑ k ∈ Finset.univ \ {i}, f k (c k), ?_, hupd⟩
  rw [← hupd, Function.update_eq_self]

end Family

end Slots
