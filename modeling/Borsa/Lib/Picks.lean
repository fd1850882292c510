import Mathlib
import Borsa.Lib.SortKey

/-!
# The best of each class, in order of first appearance

The items of a list fall into classes, or into none. A list picks the best of each class when it has
one item of each class that occurs, the one whose key is the least, in the order in which the classes
first occur (`Picks`). There is one such list (`Picks.unique`). It comes out when the list is divided
into groups by class, in whatever order, the best item of each group is selected with the position at
which its class first occurs, and the selected items are sorted by that position (`picks_of_groups`).
-/

namespace SortKey

universe u v w
variable {α : Type u} {β : Type v} {R : Type w} [DecidableEq β] [LinearOrder R]
  {cls : α → Option β} {key : α × ℕ → R} {l out out' : List α}

/-- The position at which a class first occurs. -/
def firstIndex (cls : α → Option β) (l : List α) (b : Option β) : ℕ := l.findIdx fun a => cls a = b

/-- At the first position of a class that occurs is an item of the class. -/
theorem exists_getElem?_firstIndex (cls : α → Option β) {a : α} (h : a ∈ l) :
    ∃ a', l[firstIndex cls l (cls a)]? = some a' ∧ cls a' = cls a := by
  have hex : ∃ x ∈ l, decide (cls x = cls a) = true := ⟨a, h, by simp⟩
  have hlt : firstIndex cls l (cls a) < l.length := List.findIdx_lt_length_of_exists hex
  have hget := List.getElem?_eq_getElem hlt
  have hcls := List.findIdx_of_getElem?_eq_some (p := fun x => decide (cls x = cls a)) hget
  exact ⟨_, hget, of_decide_eq_true hcls⟩

/-- No item of a class is at an earlier position. -/
theorem firstIndex_le {a : α} {i : ℕ} (h : l[i]? = some a) : firstIndex cls l (cls a) ≤ i := by
  by_contra hlt
  obtain ⟨hi, rfl⟩ := List.getElem?_eq_some_iff.1 h
  exact absurd (List.not_of_lt_findIdx (not_le.1 hlt)) (by simp)

/-- Classes that first occur at one position are one class. -/
theorem firstIndex_inj {a a' : α} (h : a ∈ l) (h' : a' ∈ l)
    (heq : firstIndex cls l (cls a) = firstIndex cls l (cls a')) : cls a = cls a' := by
  obtain ⟨x, hx, hcls⟩ := exists_getElem?_firstIndex cls h
  obtain ⟨x', hx', hcls'⟩ := exists_getElem?_firstIndex cls h'
  rw [heq, hx'] at hx
  rw [← hcls, ← hcls', Option.some.inj hx]

/-- The item at the position has the least key of its class. -/
def IsLeastAt (cls : α → Option β) (key : α × ℕ → R) (l : List α) (x : α × ℕ) : Prop :=
  l[x.2]? = some x.1 ∧ ∀ y : α × ℕ, l[y.2]? = some y.1 → cls y.1 = cls x.1 → key x ≤ key y

/-- The list has the best item of each class that occurs, in order of first appearance. -/
structure Picks (cls : α → Option β) (key : α × ℕ → R) (l out : List α) : Prop where
  /-- No two items have one class. -/
  nodup : (out.map cls).Nodup
  isSome : ∀ a ∈ out, (cls a).isSome
  classes : ∀ b, (∃ a ∈ out, cls a = some b) ↔ ∃ a ∈ l, cls a = some b
  best : ∀ a ∈ out, ∃ i, IsLeastAt cls key l (a, i)
  ordered : out.Pairwise fun a a' => firstIndex cls l (cls a) < firstIndex cls l (cls a')

/-- Two lists that pick the best of each class have the same items. -/
theorem Picks.mem_of_mem (hkey : ∀ x y : α × ℕ, key x = key y → x.2 = y.2)
    (h : Picks cls key l out) (h' : Picks cls key l out') {a : α} (ha : a ∈ out) : a ∈ out' := by
  obtain ⟨b, hb⟩ := Option.isSome_iff_exists.1 (h.isSome a ha)
  obtain ⟨a', ha', hb'⟩ := (h'.classes b).2 ((h.classes b).1 ⟨a, ha, hb⟩)
  have hcls : cls a' = cls a := hb'.trans hb.symm
  obtain ⟨i, hi, hmin⟩ := h.best a ha
  obtain ⟨i', hi', hmin'⟩ := h'.best a' ha'
  have heq : i = i' :=
    hkey (a, i) (a', i') (le_antisymm (hmin _ hi' hcls) (hmin' _ hi hcls.symm))
  dsimp only at hi hi'
  rw [← heq, hi] at hi'
  rwa [Option.some.inj hi']

/-- One list picks the best of each class. -/
theorem Picks.unique (hkey : ∀ x y : α × ℕ, key x = key y → x.2 = y.2) (h : Picks cls key l out)
    (h' : Picks cls key l out') : out = out' := by
  have hperm : out.Perm out' :=
    (List.perm_ext_iff_of_nodup h.nodup.of_map h'.nodup.of_map).2
      fun a => ⟨h.mem_of_mem hkey h', h'.mem_of_mem hkey h⟩
  exact (sortByKey_eq_of_perm hperm h.ordered).symm.trans
    (sortByKey_eq_of_perm (List.Perm.refl out') h'.ordered)

/-- The best items of the classes, each with the first position of its class, sorted by position. -/
theorem picks_sortByKey {selected : List (WithTop ℕ × α)}
    (hnodup : (selected.map fun x => cls x.2).Nodup) (hsome : ∀ x ∈ selected, (cls x.2).isSome)
    (hclasses : ∀ b, (∃ x ∈ selected, cls x.2 = some b) ↔ ∃ a ∈ l, cls a = some b)
    (hfirst : ∀ x ∈ selected, x.1 = WithTop.some (firstIndex cls l (cls x.2)))
    (hbest : ∀ x ∈ selected, ∃ i, IsLeastAt cls key l (x.2, i)) :
    Picks cls key l ((sortByKey Prod.fst selected).map Prod.snd) := by
  have hperm := sortByKey_perm Prod.fst selected
  have hdistinct : ((sortByKey Prod.fst selected).map fun x => cls x.2).Nodup :=
    (hperm.map _).nodup_iff.2 hnodup
  have hmem : ∀ x ∈ sortByKey Prod.fst selected, x ∈ selected := fun x => mem_sortByKey.1
  refine ⟨?_, ?_, fun b => ?_, ?_, ?_⟩
  · rw [List.map_map]
    exact hdistinct
  · exact List.forall_mem_map.2 fun x hx => hsome x (hmem x hx)
  · rw [← hclasses]
    simp only [List.mem_map, mem_sortByKey, exists_exists_and_eq_and]
  · exact List.forall_mem_map.2 fun x hx => hbest x (hmem x hx)
  · -- the positions of distinct classes are distinct
    rw [List.pairwise_map]
    have hpos := (pairwise_sortByKey Prod.fst selected).and (List.pairwise_map.1 hdistinct)
    refine hpos.imp_of_mem ?_
    rintro x y hx hy ⟨hle, hne⟩
    rw [hfirst x (hmem x hx), hfirst y (hmem y hy)] at hle
    refine lt_of_le_of_ne (WithTop.coe_le_coe.1 hle) fun heq => hne ?_
    obtain ⟨i, hi, -⟩ := hbest x (hmem x hx)
    obtain ⟨j, hj, -⟩ := hbest y (hmem y hy)
    exact firstIndex_inj (List.mem_of_getElem? hi) (List.mem_of_getElem? hj) heq

/-- The items selected group by group, each with the first position of its class, sorted by position.
The groups come in any order. -/
theorem picks_of_groups {γ : Type*} {groups : List γ} (name : γ → β)
    {select : γ → Option (WithTop ℕ × α)} (hnodup : (groups.map name).Nodup)
    (hnames : ∀ b, (∃ g ∈ groups, name g = b) ↔ ∃ a ∈ l, cls a = some b)
    (hselect : ∀ g ∈ groups, ∃ a i,
      select g = some (WithTop.some (firstIndex cls l (some (name g))), a) ∧
        cls a = some (name g) ∧ IsLeastAt cls key l (a, i)) :
    Picks cls key l ((sortByKey Prod.fst (groups.filterMap select)).map Prod.snd) := by
  have hselected : ∀ x ∈ groups.filterMap select, ∃ g ∈ groups, cls x.2 = some (name g) ∧
      x.1 = WithTop.some (firstIndex cls l (some (name g))) ∧
      ∃ i, IsLeastAt cls key l (x.2, i) := by
    intro x hx
    obtain ⟨g, hg, hsel⟩ := List.mem_filterMap.1 hx
    obtain ⟨a, i, ha, hcls, hleast⟩ := hselect g hg
    obtain rfl := Option.some.inj (ha.symm.trans hsel)
    exact ⟨g, hg, hcls, rfl, i, hleast⟩
  refine picks_sortByKey ?_ (fun x hx => ?_) (fun b => ⟨?_, ?_⟩) (fun x hx => ?_) fun x hx => ?_
  · -- the selected items have the names of the groups as their classes
    have hcls : (groups.filterMap select).map (fun x => cls x.2) =
        groups.map fun g => some (name g) := by
      rw [List.map_filterMap, ← List.filterMap_eq_map]
      refine List.filterMap_congr fun g hg => ?_
      obtain ⟨a, i, ha, hcls, -⟩ := hselect g hg
      rw [ha, Option.map_some, hcls]
      rfl
    have hnames := hnodup.map (Option.some_injective β)
    rw [List.map_map] at hnames
    rw [hcls]
    exact hnames
  · obtain ⟨g, -, hcls, -⟩ := hselected x hx
    rw [hcls]
    rfl
  · rintro ⟨x, hx, hb⟩
    obtain ⟨g, hg, hcls, -⟩ := hselected x hx
    exact (hnames b).1 ⟨g, hg, Option.some.inj (hcls.symm.trans hb)⟩
  · intro hb
    obtain ⟨g, hg, rfl⟩ := (hnames b).2 hb
    obtain ⟨a, i, ha, hcls, -⟩ := hselect g hg
    exact ⟨_, List.mem_filterMap.2 ⟨g, hg, ha⟩, hcls⟩
  · obtain ⟨g, -, hcls, hfirst, -⟩ := hselected x hx
    rw [hfirst, hcls]
  · obtain ⟨g, -, -, -, hleast⟩ := hselected x hx
    exact hleast

end SortKey
