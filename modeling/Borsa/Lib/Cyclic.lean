import Mathlib.Data.List.Basic

/-!
# A do-while loop over a cyclic index

The loop

    let mut i = start; let mut first = true;
    loop { body(i); if !first && i == stop { break } first = false; i = (i + 1) % n }

visits `start`, `start + 1`, …, `stop` modulo `n`; the exit test is off in the first iteration, so a
scan that starts at its own stop index goes once around and visits that index twice. `Cyclic.loop`
is the loop with an explicit bound on its iterations, `Cyclic.arc` the list of indices it visits, and
`loop_eq` says that `n + 1` iterations are enough and that the loop folds its body over the arc.
-/

namespace Cyclic

universe u
variable {σ : Type u}

/-- The loop, `none` when it runs out of iterations. -/
def loop (n stop : Nat) (body : Nat → σ → σ) : Nat → Nat → Bool → σ → Option σ
  | 0, _, _, _ => none
  | fuel + 1, i, first, st =>
    if !first && i == stop then some (body i st)
    else loop n stop body fuel ((i + 1) % n) false (body i st)

/-- How many increments modulo `n` lead from `a` to `b`. -/
def dist (n a b : Nat) : Nat := if a ≤ b then b - a else b + n - a

/-- The `k` indices from `i` on, modulo `n`. -/
def indices (n i k : Nat) : List Nat := (List.range k).map fun d => (i + d) % n

/-- The indices the loop visits when it is entered at `i`, in order. -/
def arc (n i stop : Nat) : List Nat := i :: indices n (i + 1) (dist n ((i + 1) % n) stop + 1)

/-- A remainder below twice the modulus. -/
theorem mod_of_lt_two_mul {n x : Nat} (h : x < 2 * n) : x % n = if x < n then x else x - n := by
  split
  · next hx => exact Nat.mod_eq_of_lt hx
  · next hx => rw [Nat.mod_eq_sub_mod (by omega), Nat.mod_eq_of_lt (by omega)]

/-- Stepping once from an index that is not the stop index brings it one closer. -/
theorem dist_succ {n i stop : Nat} (hi : i < n) (hs : stop < n) (hne : i ≠ stop) :
    dist n i stop = dist n ((i + 1) % n) stop + 1 := by
  rw [mod_of_lt_two_mul (by omega)]
  unfold dist
  split <;> split <;> split <;> omega

theorem indices_succ (n i k : Nat) :
    indices n i (k + 1) = i % n :: indices n (i + 1) k := by
  simp only [indices, List.range_succ_eq_map, List.map_cons, List.map_map, Nat.add_zero]
  congr 2
  funext d
  simp only [Function.comp_apply]
  congr 1
  omega

theorem indices_mod (n i k : Nat) : indices n (i % n) k = indices n i k := by
  simp [indices]

theorem dist_lt {n i stop : Nat} (hi : i < n) (hs : stop < n) : dist n i stop < n := by
  unfold dist
  split <;> omega

/-- `dist` increments lead to the stop index, and no fewer do. -/
theorem add_mod_eq_iff {n i stop d : Nat} (hi : i < n) (hs : stop < n) (hd : d < n) :
    (i + d) % n = stop ↔ d = dist n i stop := by
  rw [mod_of_lt_two_mul (by omega)]
  unfold dist
  split <;> split <;> omega

/-- Past the first iteration the loop runs up to the stop index. -/
theorem loop_false {n stop : Nat} (hs : stop < n) (body : Nat → σ → σ) :
    ∀ (fuel i : Nat) (st : σ), i < n → dist n i stop < fuel →
      loop n stop body fuel i false st =
        some ((indices n i (dist n i stop + 1)).foldl (fun st i => body i st) st) := by
  intro fuel
  induction fuel with
  | zero => intro i st _ h; omega
  | succ fuel ih =>
    intro i st hi hd
    rw [indices_succ, Nat.mod_eq_of_lt hi, List.foldl_cons, loop]
    by_cases heq : i = stop
    · subst heq
      simp [dist, indices]
    · have hstep := dist_succ hi hs heq
      rw [if_neg (by simpa using heq), ih _ _ (Nat.mod_lt _ (by omega)) (by omega), indices_mod,
        hstep]

/-- `n + 1` iterations are enough, and the loop folds its body over the arc. -/
theorem loop_eq {n stop i : Nat} (hs : stop < n) (body : Nat → σ → σ) {fuel : Nat}
    (hf : n + 1 ≤ fuel) (st : σ) :
    loop n stop body fuel i true st =
      some ((arc n i stop).foldl (fun st i => body i st) st) := by
  obtain ⟨fuel, rfl⟩ : ∃ f, fuel = f + 1 := ⟨fuel - 1, by omega⟩
  have hlt : (i + 1) % n < n := Nat.mod_lt _ (by omega)
  have hd : dist n ((i + 1) % n) stop < fuel := by unfold dist; split <;> omega
  rw [loop, if_neg (by simp), loop_false hs body _ _ _ hlt hd, indices_mod, arc, List.foldl_cons]

/-- How many iterations the loop makes when it is entered at `i`. -/
def span (n i stop : Nat) : Nat := dist n ((i + 1) % n) stop + 2

theorem arc_eq_indices {n i : Nat} (hi : i < n) (stop : Nat) :
    arc n i stop = indices n i (span n i stop) := by
  rw [span, indices_succ, Nat.mod_eq_of_lt hi, arc]

/-- The loop makes two iterations or more and at most `n + 1`, the last of them is the first after
the opening one to visit the stop index, and it makes `n + 1` exactly when it starts there. -/
theorem span_spec {n i stop : Nat} (hi : i < n) (hs : stop < n) :
    (2 ≤ span n i stop ∧ span n i stop ≤ n + 1) ∧
    (∀ d, 0 < d → d < span n i stop → ((i + d) % n = stop ↔ d + 1 = span n i stop)) ∧
    (span n i stop = n + 1 ↔ i = stop) := by
  have hnext : (i + 1) % n < n := Nat.mod_lt _ (by omega)
  have hd := dist_lt hnext hs
  refine ⟨by unfold span; omega, fun d h0 hlt => ?_, ?_⟩
  · rw [span] at hlt ⊢
    rw [show i + d = i + 1 + (d - 1) by omega, ← Nat.mod_add_mod,
      add_mod_eq_iff hnext hs (by omega)]
    omega
  · rw [span, mod_of_lt_two_mul (by omega)]
    unfold dist
    split <;> split <;> omega

/-- A loop that also notes the indices it visits notes the arc. -/
theorem loop_trace {n stop i : Nat} (hs : stop < n) (body : Nat → σ → σ) {fuel : Nat}
    (hf : n + 1 ≤ fuel) (st : σ) :
    loop n stop (fun i (acc : σ × List Nat) => (body i acc.1, acc.2 ++ [i])) fuel i true (st, []) =
      some ((arc n i stop).foldl (fun st i => body i st) st, arc n i stop) := by
  have hfold : ∀ (is visited : List Nat) (st : σ),
      is.foldl (fun (acc : σ × List Nat) i => (body i acc.1, acc.2 ++ [i])) (st, visited) =
        (is.foldl (fun st i => body i st) st, visited ++ is) := by
    intro is
    induction is with
    | nil => simp
    | cons i is ih =>
      intro visited st
      rw [List.foldl_cons, ih, List.foldl_cons, List.append_assoc, List.singleton_append]
  rw [loop_eq hs _ hf, hfold, List.nil_append]

/-- The indices of an arc: all of them when it starts at its stop index, else those from its start
on, wrapping around, up to the stop index. -/
theorem mem_arc {n i stop x : Nat} (hi : i < n) (hs : stop < n) :
    x ∈ arc n i stop ↔ x < n ∧ (i = stop ∨ (i < stop ∧ i ≤ x ∧ x ≤ stop) ∨
      (stop < i ∧ (i ≤ x ∨ x ≤ stop))) := by
  have hnext := mod_of_lt_two_mul (n := n) (x := i + 1) (by omega)
  have hd : dist n ((i + 1) % n) stop < n := by
    have := Nat.mod_lt (i + 1) (by omega : 0 < n)
    unfold dist; split <;> omega
  simp only [arc, indices, List.mem_cons, List.mem_map, List.mem_range]
  constructor
  · rintro (rfl | ⟨d, hlt, rfl⟩)
    · omega
    · rw [mod_of_lt_two_mul (by omega)]
      rw [hnext] at hlt
      unfold dist at hlt
      split at hlt <;> split at hlt <;> split <;> omega
  · rintro ⟨hx, h⟩
    by_cases hxi : x = i
    · exact .inl hxi
    · -- the offset of `x` from the second visited index
      refine .inr ⟨if i < x then x - (i + 1) else x + n - (i + 1), ?_, ?_⟩
      · rw [hnext]
        unfold dist
        split <;> split <;> split <;> omega
      · split
        · rw [show i + 1 + (x - (i + 1)) = x by omega, Nat.mod_eq_of_lt hx]
        · rw [show i + 1 + (x + n - (i + 1)) = x + n by omega, Nat.add_mod_right,
            Nat.mod_eq_of_lt hx]

/-- A scan entered at its stop index visits every index. -/
theorem mem_arc_self {n i x : Nat} (hi : i < n) : x ∈ arc n i i ↔ x < n := by
  simp [mem_arc hi hi]

end Cyclic
