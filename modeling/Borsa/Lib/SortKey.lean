import Mathlib.Data.List.Sort
import Mathlib.Data.Prod.Lex

/-!
# Sorting by a key

A stable sort by a key, and the case of a key made of a rank and the item's position in a list. There
the sort lists the items rank by rank, each rank in the order of the original list
(`map_fst_sortByKey_ranked`).
-/

namespace SortKey

universe u v w
variable {α : Type u} {R : Type v} [LinearOrder R]

/-- A stable sort of a list by a key. -/
def sortByKey (key : α → R) (l : List α) : List α := l.insertionSort fun a b => key a ≤ key b

theorem sortByKey_perm (key : α → R) (l : List α) : (sortByKey key l).Perm l :=
  List.perm_insertionSort _ l

@[simp] theorem mem_sortByKey {key : α → R} {l : List α} {a : α} : a ∈ sortByKey key l ↔ a ∈ l :=
  (sortByKey_perm key l).mem_iff

theorem pairwise_sortByKey (key : α → R) (l : List α) :
    (sortByKey key l).Pairwise fun a b => key a ≤ key b := by
  have : Std.Total fun a b => key a ≤ key b := ⟨fun a b => le_total (key a) (key b)⟩
  have : IsTrans α fun a b => key a ≤ key b := ⟨fun _ _ _ => le_trans⟩
  exact List.pairwise_insertionSort _ l

/-- Sorting commutes with relabelling the items. -/
theorem sortByKey_map {β : Type u} (key : β → R) (f : α → β) (l : List α) :
    sortByKey key (l.map f) = (sortByKey (fun a => key (f a)) l).map f :=
  (List.map_insertionSort _ _ f l fun _ _ _ _ => Iff.rfl).symm

/-- A list with strictly increasing keys is the sort of each of its permutations. -/
theorem sortByKey_eq_of_perm {key : α → R} {l l' : List α} (hperm : l'.Perm l)
    (hlt : l'.Pairwise fun a b => key a < key b) : sortByKey key l = l' := by
  have hnodup : (l'.map key).Nodup := List.pairwise_map.2 (hlt.imp ne_of_lt)
  have hinj : ∀ a b, a ∈ sortByKey key l → b ∈ l' → key a ≤ key b → key b ≤ key a → a = b := by
    intro a b ha hb hab hba
    have ha' : a ∈ l' := hperm.mem_iff.2 (mem_sortByKey.1 ha)
    exact List.inj_on_of_nodup_map hnodup ha' hb (le_antisymm hab hba)
  exact List.Perm.eq_of_pairwise hinj (pairwise_sortByKey key l) (hlt.imp le_of_lt)
    ((sortByKey_perm key l).trans hperm.symm)

/-- The first item of a sorted list has the least key. -/
theorem key_head_le {key : α → R} {l : List α} {a b : α} (ha : (sortByKey key l).head? = some a)
    (hb : b ∈ l) : key a ≤ key b := by
  have hsorted := pairwise_sortByKey key l
  have hb' : b ∈ sortByKey key l := mem_sortByKey.2 hb
  cases hs : sortByKey key l with
  | nil => simp [hs] at ha
  | cons x rest =>
    rw [hs] at ha hb' hsorted
    obtain rfl : x = a := by simpa using ha
    rcases List.mem_cons.1 hb' with rfl | hb'
    · exact le_rfl
    · exact List.rel_of_pairwise_cons hsorted hb'

/-- The sort depends only on how the keys of the items compare. -/
theorem sortByKey_congr {S : Type w} [LinearOrder S] {key : α → R} {key' : α → S} {l : List α}
    (h : ∀ a ∈ l, ∀ b ∈ l, key a ≤ key b ↔ key' a ≤ key' b) :
    sortByKey key l = sortByKey key' l := by
  have hmap := List.map_insertionSort (fun a b => key a ≤ key b) (fun a b => key' a ≤ key' b) id l h
  rwa [List.map_id, List.map_id] at hmap

/-- Sorting commutes with selecting items. -/
theorem filter_sortByKey (key : α → R) (p : α → Bool) (l : List α) :
    (sortByKey key l).filter p = sortByKey key (l.filter p) := by
  have : Std.Total fun a b => key a ≤ key b := ⟨fun a b => le_total (key a) (key b)⟩
  have : IsTrans α fun a b => key a ≤ key b := ⟨fun _ _ _ => le_trans⟩
  -- the selected items come in the same order, whether the others are sorted in or not
  have hsub : (sortByKey key (l.filter p)).Sublist (sortByKey key l) := by
    induction l with
    | nil => exact .slnil
    | cons a l ih =>
      rw [sortByKey, sortByKey, List.insertionSort_cons]
      by_cases ha : p a
      · rw [List.filter_cons_of_pos ha, List.insertionSort_cons]
        exact ih.orderedInsert_sublist a (pairwise_sortByKey key l)
      · rw [List.filter_cons_of_neg ha]
        exact ih.trans (List.sublist_orderedInsert a _)
  have hself : (sortByKey key (l.filter p)).filter p = sortByKey key (l.filter p) :=
    List.filter_eq_self.2 fun a ha => (List.mem_filter.1 (mem_sortByKey.1 ha)).2
  have hsub := hself ▸ hsub.filter p
  refine (hsub.eq_of_length ?_).symm
  rw [(sortByKey_perm key (l.filter p)).length_eq, ((sortByKey_perm key l).filter p).length_eq]

/-! ## Rank and position -/

/-- The key of an item at a position: its rank first, then the position. -/
def ranked (rank : α → R) (x : α × ℕ) : R ×ₗ ℕ := toLex (rank x.1, x.2)

theorem ranked_lt_ranked {rank : α → R} {x y : α × ℕ} :
    ranked rank x < ranked rank y ↔ rank x.1 < rank y.1 ∨ rank x.1 = rank y.1 ∧ x.2 < y.2 :=
  Prod.Lex.toLex_lt_toLex

/-- Items sorted by rank and position are in the order of their ranks. -/
theorem pairwise_rank (rank : α → R) (xs : List (α × ℕ)) :
    (sortByKey (ranked rank) xs).Pairwise fun x y => rank x.1 ≤ rank y.1 :=
  (pairwise_sortByKey (ranked rank) xs).imp fun {x y} h =>
    Prod.Lex.monotone_fst (ranked rank x) (ranked rank y) h

/-- The positions of a list are increasing. -/
theorem pairwise_zipIdx (l : List α) (n : ℕ) : (l.zipIdx n).Pairwise fun x y => x.2 < y.2 := by
  induction l generalizing n with
  | nil => exact .nil
  | cons a l ih =>
    refine List.pairwise_cons.2 ⟨fun x hx => ?_, ih (n + 1)⟩
    have := List.le_snd_of_mem_zipIdx hx
    omega

/-- Selecting items with their positions and dropping the positions selects the items. -/
theorem map_fst_filter_zipIdx (p : α → Bool) (l : List α) (n : ℕ) :
    ((l.zipIdx n).filter fun x => p x.1).map Prod.fst = l.filter p := by
  induction l generalizing n with
  | nil => rfl
  | cons a l ih =>
    rw [List.zipIdx_cons, List.filter_cons, List.filter_cons]
    cases p a <;> simp [ih (n + 1)]

/-- Items at increasing positions, sorted by rank and position, are listed rank by rank. -/
theorem sortByKey_ranked (rank : α → R) {xs : List (α × ℕ)} (hpos : xs.Pairwise fun x y => x.2 < y.2)
    {rs : List R} (hrs : rs.Pairwise (· < ·)) (hmem : ∀ x ∈ xs, rank x.1 ∈ rs) :
    sortByKey (ranked rank) xs = rs.flatMap fun r => xs.filter fun x => rank x.1 == r := by
  have hlt : (rs.flatMap fun r => xs.filter fun x => rank x.1 == r).Pairwise
      fun x y => ranked rank x < ranked rank y := by
    refine List.pairwise_flatMap.2 ⟨fun r _ => ?_, hrs.imp fun h x hx y hy => ?_⟩
    · refine List.pairwise_filter.2 (hpos.imp fun h hx hy => ?_)
      exact ranked_lt_ranked.2 (.inr ⟨by rw [eq_of_beq hx, eq_of_beq hy], h⟩)
    · have hx' := eq_of_beq (List.mem_filter.1 hx).2
      have hy' := eq_of_beq (List.mem_filter.1 hy).2
      exact ranked_lt_ranked.2 (.inl (by rw [hx', hy']; exact h))
  have hnodup : xs.Nodup := hpos.imp fun h he => by rw [he] at h; omega
  refine sortByKey_eq_of_perm ?_ hlt
  refine (List.perm_ext_iff_of_nodup (hlt.imp fun h he => by rw [he] at h; exact lt_irrefl _ h)
    hnodup).2 fun x => ?_
  simp only [List.mem_flatMap, List.mem_filter, beq_iff_eq]
  constructor
  · intro ⟨_, _, hx, _⟩
    exact hx
  · intro hx
    exact ⟨_, hmem x hx, hx, rfl⟩

/-- The items of a list that satisfy `p`, sorted by rank and position, are listed rank by rank, each
rank in the order of the list. -/
theorem map_fst_sortByKey_ranked (rank : α → R) (p : α → Bool) (l : List α) {rs : List R}
    (hrs : rs.Pairwise (· < ·)) (hmem : ∀ a ∈ l, p a = true → rank a ∈ rs) :
    (sortByKey (ranked rank) (l.zipIdx.filter fun x => p x.1)).map Prod.fst =
      rs.flatMap fun r => (l.filter p).filter fun a => rank a == r := by
  have hpos : (l.zipIdx.filter fun x => p x.1).Pairwise fun x y => x.2 < y.2 :=
    (pairwise_zipIdx l 0).filter _
  rw [sortByKey_ranked rank hpos hrs, List.map_flatMap]
  · congr 1
    funext r
    rw [← map_fst_filter_zipIdx p l 0, List.filter_map]
    rfl
  · intro x hx
    obtain ⟨hx, hp⟩ := List.mem_filter.1 hx
    exact hmem _ (List.fst_mem_of_mem_zipIdx hx) hp

/-- A list in the order of a key is listed key by key. -/
theorem flatMap_filter_of_pairwise {key : α → R} {l : List α}
    (hsorted : l.Pairwise fun a b => key a ≤ key b) {rs : List R} (hrs : rs.Pairwise (· < ·))
    (hmem : ∀ a ∈ l, key a ∈ rs) : (rs.flatMap fun r => l.filter fun a => key a == r) = l := by
  have hranked : l.zipIdx.Pairwise fun x y => ranked key x < ranked key y := by
    have hkeys : l.zipIdx.Pairwise fun x y => key x.1 ≤ key y.1 := by
      rw [← List.pairwise_map (f := Prod.fst) (R := fun a b => key a ≤ key b)]
      simpa using hsorted
    refine (hkeys.and (pairwise_zipIdx l 0)).imp fun ⟨hle, hlt⟩ => ranked_lt_ranked.2 ?_
    rcases hle.lt_or_eq with h | h
    · exact .inl h
    · exact .inr ⟨h, hlt⟩
  have hsort := map_fst_sortByKey_ranked key (fun _ => true) l hrs fun a ha _ => hmem a ha
  rw [List.filter_eq_self.2 fun _ _ => rfl, sortByKey_eq_of_perm (List.Perm.refl _) hranked,
    List.filter_eq_self.2 fun _ _ => rfl] at hsort
  simpa using hsort.symm

end SortKey
