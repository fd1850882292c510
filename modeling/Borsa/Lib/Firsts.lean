import Borsa.Lib.SortKey

/-!
# The first of each class

A pass over a list that keeps an item when no item of its class has been kept before
(`firsts`). Over a list sorted by an injective key it keeps the least of each class
(`mem_leasts`), so what it keeps depends only on which items there are (`leasts_congr`), and
keeping the least of each class in parts first changes nothing (`leasts_leasts_append`).
-/

namespace SortKey

universe u v w
variable {α : Type u} {R : Type v} {β : Type w} [LinearOrder R] [DecidableEq β]

/-- The items whose class is not in `seen`, of each class the first. -/
def firsts (cls : α → β) : List β → List α → List α
  | _, [] => []
  | seen, a :: l =>
    if cls a ∈ seen then firsts cls seen l else a :: firsts cls (cls a :: seen) l

/-- The pass with the classes seen and the items kept as accumulators. -/
theorem foldl_firsts (cls : α → β) (l : List α) (seen : List β) (out : List α) :
    (l.foldl (fun (acc : List β × List α) a =>
      if cls a ∈ acc.1 then (acc.1, acc.2) else (cls a :: acc.1, acc.2 ++ [a])) (seen, out)).2 =
      out ++ firsts cls seen l := by
  induction l generalizing seen out with
  | nil => simp [firsts]
  | cons a l ih =>
    rw [List.foldl_cons, firsts]
    dsimp only
    split
    · exact ih seen out
    · rw [ih, List.append_assoc]
      rfl

theorem firsts_sublist (cls : α → β) (seen : List β) (l : List α) :
    (firsts cls seen l).Sublist l := by
  induction l generalizing seen with
  | nil => exact .slnil
  | cons a l ih =>
    rw [firsts]
    split
    · exact (ih seen).cons a
    · exact (ih _).cons_cons a

/-- No kept item has a class seen before. -/
theorem not_mem_of_mem_firsts {cls : α → β} {seen : List β} {l : List α} {a : α}
    (h : a ∈ firsts cls seen l) : cls a ∉ seen := by
  induction l generalizing seen with
  | nil => cases h
  | cons b l ih =>
    rw [firsts] at h
    split at h
    · exact ih h
    · next hb =>
      rcases List.mem_cons.1 h with rfl | h
      · exact hb
      · exact fun hm => ih h (List.mem_cons_of_mem _ hm)

/-- No two kept items have one class. -/
theorem pairwise_firsts (cls : α → β) (seen : List β) (l : List α) :
    (firsts cls seen l).Pairwise fun a b => cls a ≠ cls b := by
  induction l generalizing seen with
  | nil => exact .nil
  | cons a l ih =>
    rw [firsts]
    split
    · exact ih seen
    · refine List.pairwise_cons.2 ⟨fun b hb heq => not_mem_of_mem_firsts hb ?_, ih _⟩
      rw [heq]
      exact List.mem_cons_self ..

/-- An item of a class not seen before has a first of its class. -/
theorem exists_mem_firsts {cls : α → β} {seen : List β} {l : List α} {a : α} (ha : a ∈ l)
    (hs : cls a ∉ seen) : ∃ b ∈ firsts cls seen l, cls b = cls a := by
  induction l generalizing seen with
  | nil => cases ha
  | cons c l ih =>
    rw [firsts]
    rcases List.mem_cons.1 ha with rfl | ha
    · rw [if_neg hs]
      exact ⟨a, List.mem_cons_self .., rfl⟩
    · split
      · exact ih ha hs
      · by_cases hc : cls c = cls a
        · exact ⟨c, List.mem_cons_self .., hc⟩
        · have hnew : cls a ∉ cls c :: seen := by simp [Ne.symm hc, hs]
          obtain ⟨b, hb, heq⟩ := ih ha hnew
          exact ⟨b, List.mem_cons_of_mem _ hb, heq⟩

/-- In a sorted list the first of a class is the least. -/
theorem key_le_of_mem_firsts {key : α → R} {cls : α → β} {seen : List β} {l : List α}
    (hl : l.Pairwise fun a b => key a ≤ key b) {a : α} (ha : a ∈ firsts cls seen l) {b : α}
    (hb : b ∈ l) (heq : cls b = cls a) : key a ≤ key b := by
  induction l generalizing seen with
  | nil => cases ha
  | cons c l ih =>
    obtain ⟨hc, hl⟩ := List.pairwise_cons.1 hl
    rw [firsts] at ha
    split at ha
    · next hseen =>
      rcases List.mem_cons.1 hb with rfl | hb
      · rw [heq] at hseen
        exact absurd hseen (not_mem_of_mem_firsts ha)
      · exact ih hl ha hb
    · rcases List.mem_cons.1 ha with rfl | ha
      · rcases List.mem_cons.1 hb with rfl | hb
        · exact le_rfl
        · exact hc b hb
      · rcases List.mem_cons.1 hb with rfl | hb
        · exact absurd (heq ▸ List.mem_cons_self ..) (not_mem_of_mem_firsts ha)
        · exact ih hl ha hb

/-! ## The least of each class -/

/-- The items in the order of the key, of each class the first. -/
def leasts (key : α → R) (cls : α → β) (l : List α) : List α := firsts cls [] (sortByKey key l)

variable {key : α → R} {cls : α → β} {l l' : List α} {a b : α}

theorem mem_of_mem_leasts (h : a ∈ leasts key cls l) : a ∈ l :=
  mem_sortByKey.1 ((firsts_sublist _ _ _).subset h)

/-- Every item has the least of its class. -/
theorem exists_mem_leasts (key : α → R) (cls : α → β) (h : a ∈ l) :
    ∃ b ∈ leasts key cls l, cls b = cls a ∧ key b ≤ key a := by
  have hmem : a ∈ sortByKey key l := mem_sortByKey.2 h
  have hnew : cls a ∉ ([] : List β) := List.not_mem_nil
  obtain ⟨b, hb, heq⟩ := exists_mem_firsts hmem hnew
  exact ⟨b, hb, heq, key_le_of_mem_firsts (pairwise_sortByKey key l) hb hmem heq.symm⟩

/-- What is kept are the least items of the classes. -/
theorem mem_leasts (hkey : Function.Injective key) :
    a ∈ leasts key cls l ↔ a ∈ l ∧ ∀ b ∈ l, cls b = cls a → key a ≤ key b := by
  constructor
  · intro h
    exact ⟨mem_of_mem_leasts h, fun b hb heq =>
      key_le_of_mem_firsts (pairwise_sortByKey key l) h (mem_sortByKey.2 hb) heq⟩
  · rintro ⟨ha, hmin⟩
    obtain ⟨b, hb, heq, hle⟩ := exists_mem_leasts key cls ha
    rwa [hkey (le_antisymm (hmin b (mem_of_mem_leasts hb) heq) hle)]

/-- The kept items are in strict order. -/
theorem pairwise_leasts (hkey : Function.Injective key) (cls : α → β) (l : List α) :
    (leasts key cls l).Pairwise fun a b => key a < key b := by
  have hle := (pairwise_sortByKey key l).sublist (firsts_sublist cls [] (sortByKey key l))
  refine (hle.and (pairwise_firsts cls [] (sortByKey key l))).imp ?_
  intro a b ⟨hab, hne⟩
  exact lt_of_le_of_ne hab fun heq => hne (congrArg cls (hkey heq))

/-- Two lists in strict order of a key with the same items are equal. -/
theorem eq_of_pairwise_lt (hl : l.Pairwise fun a b => key a < key b)
    (hl' : l'.Pairwise fun a b => key a < key b) (h : ∀ a, a ∈ l ↔ a ∈ l') : l = l' := by
  have hnodup : ∀ {l : List α}, (l.Pairwise fun a b => key a < key b) → l.Nodup :=
    fun hl => hl.imp fun hlt heq => by rw [heq] at hlt; exact lt_irrefl _ hlt
  have hperm : l.Perm l' := (List.perm_ext_iff_of_nodup (hnodup hl) (hnodup hl')).2 h
  exact (sortByKey_eq_of_perm hperm hl).symm.trans (sortByKey_eq_of_perm (List.Perm.refl l') hl')

/-- What is kept depends only on which items there are. -/
theorem leasts_congr (hkey : Function.Injective key) (cls : α → β) (h : ∀ a, a ∈ l ↔ a ∈ l') :
    leasts key cls l = leasts key cls l' := by
  refine eq_of_pairwise_lt (pairwise_leasts hkey cls l) (pairwise_leasts hkey cls l') fun a => ?_
  simp only [mem_leasts hkey, h]

/-- Keeping the least items of a part first changes nothing. -/
theorem leasts_leasts_append (hkey : Function.Injective key) (cls : α → β) (l l' : List α) :
    leasts key cls (leasts key cls l ++ l') = leasts key cls (l ++ l') := by
  refine eq_of_pairwise_lt (pairwise_leasts hkey cls _) (pairwise_leasts hkey cls _) fun a => ?_
  simp only [mem_leasts hkey, List.mem_append]
  constructor
  · rintro ⟨ha, hmin⟩
    refine ⟨ha.imp_left And.left, fun b hb heq => ?_⟩
    rcases hb with hb | hb
    · obtain ⟨c, hc, hcb, hle⟩ := exists_mem_leasts key cls hb
      exact (hmin c (.inl ((mem_leasts hkey).1 hc)) (hcb.trans heq)).trans hle
    · exact hmin b (.inr hb) heq
  · rintro ⟨ha, hmin⟩
    refine ⟨ha.imp_left fun ha => ⟨ha, fun b hb => hmin b (.inl hb)⟩, fun b hb => ?_⟩
    exact hmin b (hb.imp_left And.left)

/-- Keeping the least items again changes nothing. -/
theorem leasts_leasts (hkey : Function.Injective key) (cls : α → β) (l : List α) :
    leasts key cls (leasts key cls l) = leasts key cls l := by
  have h := leasts_leasts_append hkey cls l []
  rwa [List.append_nil, List.append_nil] at h

end SortKey
