import Mathlib

/-!
# Mode and lower median

The representative of a list of values: its only most frequent value if there is one, and the lower
median otherwise. Both are told by counting, so that a list and its permutations have the same
representative (`IsStep.perm`), and a list has at most one (`IsStep.unique`).
-/

namespace Mode

universe u
variable {α : Type u} [LinearOrder α]

/-- `a` is in the list, more often than any other value. -/
def IsMode (l : List α) (a : α) : Prop := a ∈ l ∧ ∀ b, b ≠ a → l.count b < l.count a

/-- `a` is in the list, less than half of it is below `a`, and at least half of it is at most `a`. -/
def IsLowerMedian (l : List α) (a : α) : Prop :=
  a ∈ l ∧ 2 * l.countP (· < a) < l.length ∧ l.length ≤ 2 * l.countP (· ≤ a)

/-- `a` is the mode of the list, or its lower median if it has no mode. -/
def IsStep (l : List α) (a : α) : Prop :=
  IsMode l a ∨ (∀ b, ¬ IsMode l b) ∧ IsLowerMedian l a

variable {l l' : List α} {a b : α}

theorem IsMode.unique (h : IsMode l a) (h' : IsMode l b) : a = b := by
  by_contra hne
  have hlt := h.2 b (Ne.symm hne)
  have hgt := h'.2 a hne
  omega

/-- Of two values, the lower one is at most the count below the other. -/
theorem countP_le_le_countP_lt (hlt : a < b) (l : List α) :
    l.countP (· ≤ a) ≤ l.countP (· < b) :=
  List.countP_mono_left fun x _ hx => by
    simp only [decide_eq_true_eq] at hx ⊢
    exact hx.trans_lt hlt

theorem IsLowerMedian.unique (h : IsLowerMedian l a) (h' : IsLowerMedian l b) : a = b := by
  rcases lt_trichotomy a b with hlt | heq | hlt
  · have := countP_le_le_countP_lt hlt l
    have := h.2.2
    have := h'.2.1
    omega
  · exact heq
  · have := countP_le_le_countP_lt hlt l
    have := h.2.1
    have := h'.2.2
    omega

theorem IsStep.unique (h : IsStep l a) (h' : IsStep l b) : a = b := by
  rcases h with h | ⟨hno, h⟩
  · rcases h' with h' | ⟨hno, -⟩
    · exact h.unique h'
    · exact absurd h (hno a)
  · rcases h' with h' | ⟨-, h'⟩
    · exact absurd h' (hno b)
    · exact h.unique h'

theorem IsStep.mem (h : IsStep l a) : a ∈ l := by
  rcases h with h | ⟨-, h⟩
  · exact h.1
  · exact h.1

theorem isMode_perm (h : l.Perm l') : IsMode l a ↔ IsMode l' a := by
  simp only [IsMode, h.mem_iff, h.count_eq]

/-- The representative does not depend on the order of the list. -/
theorem isStep_perm (h : l.Perm l') : IsStep l a ↔ IsStep l' a := by
  simp only [IsStep, IsLowerMedian, isMode_perm h, h.mem_iff, h.countP_eq, h.length_eq]

/-- Relabelling the values in their order relabels the representative. -/
theorem isStep_map {β : Type u} [LinearOrder β] {f : α → β} (hf : StrictMono f) :
    IsStep (l.map f) (f a) ↔ IsStep l a := by
  have hcount : ∀ x, (l.map f).count (f x) = l.count x :=
    fun x => List.count_map_of_injective l f hf.injective x
  have hmode : ∀ x, IsMode (l.map f) (f x) ↔ IsMode l x := by
    intro x
    simp only [IsMode, List.mem_map_of_injective hf.injective, hcount]
    refine and_congr_right fun hx => ⟨fun h y hy => ?_, fun h y hy => ?_⟩
    · rw [← hcount y]
      exact h (f y) (hf.injective.ne hy)
    · by_cases hmem : y ∈ l.map f
      · obtain ⟨z, -, rfl⟩ := List.mem_map.1 hmem
        rw [hcount z]
        exact h z fun hz => hy (hz ▸ rfl)
      · rw [List.count_eq_zero_of_not_mem hmem]
        exact List.count_pos_iff.2 hx
  have hnone : (∀ y, ¬ IsMode (l.map f) y) ↔ ∀ x, ¬ IsMode l x := by
    refine ⟨fun h x hx => h (f x) ((hmode x).2 hx), fun h y hy => ?_⟩
    obtain ⟨x, -, rfl⟩ := List.mem_map.1 hy.1
    exact h x ((hmode x).1 hy)
  simp only [IsStep, IsLowerMedian, hmode, hnone, List.mem_map_of_injective hf.injective,
    List.countP_map, List.length_map, Function.comp_def, hf.lt_iff_lt, hf.le_iff_le]

/-- Two values do not fill more than the list. -/
theorem count_add_count_le (hne : a ≠ b) : l.count a + l.count b ≤ l.length := by
  have hle : l.count b ≤ l.countP fun x => decide ¬ (x == a) = true :=
    List.countP_mono_left fun x _ hx => by
      rw [eq_of_beq hx]
      simpa using hne.symm
  rw [List.length_eq_countP_add_countP (p := (· == a))]
  exact Nat.add_le_add_left hle _

/-- The least value of a list represents it when it fills half of the list or is the most
frequent. -/
theorem isStep_least_iff (hleast : ∀ x ∈ l, a ≤ x) :
    IsStep l a ↔
      l ≠ [] ∧ (l.length ≤ 2 * l.count a ∨ ∀ b, b ≠ a → l.count b < l.count a) := by
  have hle : l.countP (· ≤ a) = l.count a :=
    List.countP_congr fun x hx => by simpa using (hleast x hx).ge_iff_eq'
  have hlt : l.countP (· < a) = 0 :=
    List.countP_eq_zero.2 fun x hx => by simpa using hleast x hx
  constructor
  · intro h
    refine ⟨List.ne_nil_of_mem h.mem, ?_⟩
    rcases h with h | ⟨-, h⟩
    · exact .inr h.2
    · exact .inl (hle ▸ h.2.2)
  · rintro ⟨hne, h⟩
    have hpos : 0 < l.length := List.length_pos_iff.2 hne
    by_cases hmode : ∀ b, b ≠ a → l.count b < l.count a
    · obtain ⟨x, hx⟩ := List.exists_mem_of_ne_nil l hne
      refine .inl ⟨?_, hmode⟩
      rcases eq_or_ne x a with rfl | hxa
      · exact hx
      · exact List.count_pos_iff.1 ((Nat.zero_le _).trans_lt (hmode x hxa))
    · have hhalf := h.resolve_right hmode
      have hmem : a ∈ l := List.count_pos_iff.1 (by omega)
      refine .inr ⟨fun b hb => ?_, hmem, by omega, by omega⟩
      rcases eq_or_ne b a with rfl | hba
      · exact hmode hb.2
      · have hmore := hb.2 a hba.symm
        have := count_add_count_le (l := l) hba
        omega

/-! ## A run of a new value -/

section
variable {k : ℕ}

theorem count_append_run_self (hb : b ∉ l) : (l ++ List.replicate k b).count b = k := by
  rw [List.count_append, List.count_eq_zero_of_not_mem hb, List.count_replicate_self, Nat.zero_add]

theorem count_append_run_of_ne (hne : a ≠ b) : (l ++ List.replicate k b).count a = l.count a := by
  rw [List.count_append, List.count_replicate, if_neg (by simpa using hne.symm), Nat.add_zero]

/-- A run longer than any before it makes its value the mode. -/
theorem isMode_append_run (hb : b ∉ l) (hlt : ∀ a, l.count a < k) :
    IsMode (l ++ List.replicate k b) b := by
  have hk : k ≠ 0 := (Nat.zero_le _).trans_lt (hlt b) |>.ne'
  refine ⟨by simp [hk], fun a ha => ?_⟩
  rw [count_append_run_of_ne ha, count_append_run_self hb]
  exact hlt a

/-- A value as frequent as a new run is not the mode. -/
theorem not_isMode_append_run (hb : b ∉ l) (hne : a ≠ b) (hk : l.count a = k) :
    ¬ IsMode (l ++ List.replicate k b) a := by
  intro hmode
  have hlt := hmode.2 b hne.symm
  rw [count_append_run_self hb, count_append_run_of_ne hne] at hlt
  omega

/-- A shorter run does not change whether a value is the mode. -/
theorem isMode_append_run_iff (hb : b ∉ l) (hk : k < l.count a) :
    IsMode (l ++ List.replicate k b) a ↔ IsMode l a := by
  have hne : a ≠ b := by
    rintro rfl
    rw [List.count_eq_zero_of_not_mem hb] at hk
    omega
  constructor
  · rintro ⟨-, hmax⟩
    refine ⟨List.count_pos_iff.1 (by omega), fun x hx => ?_⟩
    have hlt := hmax x hx
    rw [count_append_run_of_ne hne] at hlt
    rw [List.count_append] at hlt
    omega
  · rintro ⟨hmem, hmax⟩
    refine ⟨List.mem_append_left _ hmem, fun x hx => ?_⟩
    rw [count_append_run_of_ne hne]
    rcases eq_or_ne x b with rfl | hxb
    · rw [count_append_run_self hb]
      exact hk
    · rw [count_append_run_of_ne hxb]
      exact hmax x hx

end

/-! ## The middle of a sorted list -/

/-- In a sorted list a down-closed property that fails at the head fails everywhere. -/
theorem eq_false_of_mem {p : α → Bool} {x y : α} (hs : (x :: l).Pairwise (· ≤ ·))
    (hp : ∀ x y, x ≤ y → p y = true → p x = true) (hx : p x = false) (hy : y ∈ l) :
    p y = false := by
  cases hpy : p y with
  | false => rfl
  | true => rw [← hx, hp x y (List.rel_of_pairwise_cons hs hy) hpy]

/-- In a sorted list the entries of a down-closed property come first, as many as it counts. -/
theorem lt_countP_iff {p : α → Bool} {i : ℕ} (hs : l.Pairwise (· ≤ ·))
    (hp : ∀ x y, x ≤ y → p y = true → p x = true) (ha : l[i]? = some a) :
    i < l.countP p ↔ p a = true := by
  induction l generalizing i with
  | nil => cases ha
  | cons x l ih =>
    cases hx : p x with
    | true =>
      rw [List.countP_cons_of_pos hx]
      cases i with
      | zero =>
        obtain rfl : x = a := by simpa using ha
        simp [hx]
      | succ i => simpa using ih hs.of_cons (by simpa using ha)
    | false =>
      have hnone : l.countP p = 0 :=
        List.countP_eq_zero.2 fun y hy => by simp [eq_false_of_mem hs hp hx hy]
      rw [List.countP_cons_of_neg (by simp [hx]), hnone]
      rcases List.mem_cons.1 (List.mem_of_getElem? ha) with rfl | hmem
      · simp [hx]
      · simp [eq_false_of_mem hs hp hx hmem]

/-- The lower median of a sorted list is the entry in the middle, the lower one if there are two. -/
theorem isLowerMedian_getElem (hs : l.Pairwise (· ≤ ·)) (ha : l[(l.length - 1) / 2]? = some a) :
    IsLowerMedian l a := by
  have hlen : (l.length - 1) / 2 < l.length := (List.getElem?_eq_some_iff.1 ha).1
  have hlt := lt_countP_iff (p := fun x => decide (x < a)) hs
    (fun x y hxy hy => by simp only [decide_eq_true_eq] at hy ⊢; exact hxy.trans_lt hy) ha
  have hle := lt_countP_iff (p := fun x => decide (x ≤ a)) hs
    (fun x y hxy hy => by simp only [decide_eq_true_eq] at hy ⊢; exact hxy.trans hy) ha
  simp only [lt_irrefl, le_refl, decide_false, decide_true, Bool.false_eq_true, iff_false,
    iff_true] at hlt hle
  refine ⟨List.mem_of_getElem? ha, ?_, ?_⟩ <;> omega

end Mode
