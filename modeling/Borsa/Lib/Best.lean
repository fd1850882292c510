import Mathlib

/-!
# The best of a list, in one pass

A loop that keeps the best candidate so far: `value` says which elements are candidates and what they
are worth, and `Keeps` what one step may do. Of two candidates of one worth a step may keep either, so
that the rules hold of loops that take the first of the best and of those that take the last.
-/

namespace Best

variable {α β : Type} [LinearOrder β] {value : α → Option β}
  {step : Option (α × β) → α → Option (α × β)}

/-- The candidate is worth the most of the list, or there is none. -/
def IsBest (value : α → Option β) (l : List α) : Option (α × β) → Prop
  | none => ∀ x ∈ l, value x = none
  | some (x, m) => x ∈ l ∧ value x = some m ∧ ∀ y ∈ l, ∀ n, value y = some n → n ≤ m

/-- A step skips what is no candidate, and takes a candidate or stays with one that is as good. -/
structure Keeps (value : α → Option β) (step : Option (α × β) → α → Option (α × β)) : Prop where
  skip : ∀ best x, value x = none → step best x = best
  take : ∀ best x m, value x = some m →
    step best x = some (x, m) ∧ (∀ b ∈ best, b.2 ≤ m) ∨ step best x = best ∧ ∃ b ∈ best, m ≤ b.2

/-- One more element. -/
theorem Keeps.isBest_concat (hstep : Keeps value step) {l : List α} {best : Option (α × β)}
    (h : IsBest value l best) (x : α) : IsBest value (l ++ [x]) (step best x) := by
  cases hx : value x with
  | none =>
    rw [hstep.skip best x hx]
    rcases best with _ | ⟨b, m⟩
    · exact List.forall_mem_append.2 ⟨h, List.forall_mem_singleton.2 hx⟩
    · obtain ⟨hb, hm, hall⟩ := h
      refine ⟨List.mem_append_left _ hb, hm, List.forall_mem_append.2 ⟨hall, ?_⟩⟩
      exact List.forall_mem_singleton.2 fun n hn => by rw [hx] at hn; cases hn
  | some m =>
    rcases hstep.take best x m hx with ⟨heq, hle⟩ | ⟨heq, ⟨b, n⟩, hb, hle⟩
    · rw [heq]
      refine ⟨List.mem_append_right _ List.mem_cons_self, hx, List.forall_mem_append.2 ⟨?_, ?_⟩⟩
      · intro y hy k hk
        rcases best with _ | ⟨b, n⟩
        · rw [h y hy] at hk
          cases hk
        · exact (h.2.2 y hy k hk).trans (hle (b, n) rfl)
      · exact List.forall_mem_singleton.2 fun k hk => by rw [hx] at hk; cases hk; exact le_rfl
    · obtain rfl : best = some (b, n) := hb
      rw [heq]
      obtain ⟨hb, hn, hall⟩ := h
      refine ⟨List.mem_append_left _ hb, hn, List.forall_mem_append.2 ⟨hall, ?_⟩⟩
      exact List.forall_mem_singleton.2 fun k hk => by rw [hx] at hk; cases hk; exact hle

/-- The loop ends with the best candidate of the list. -/
theorem Keeps.isBest_foldl (hstep : Keeps value step) (l : List α) :
    IsBest value l (l.foldl step none) := by
  induction l using List.reverseRecOn with
  | nil => exact List.forall_mem_nil _
  | append_singleton l x ih =>
    rw [List.foldl_append]
    exact hstep.isBest_concat ih x

end Best
