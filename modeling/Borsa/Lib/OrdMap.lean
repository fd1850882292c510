import Mathlib

/-!
# Ordered maps in which the first entry of a key stays

A map from ordered keys to values, as its entries in ascending order of the keys. `orInsert` adds an
entry for a key the map does not hold yet. A map filled with `orInsert` from a list holds, for each
key of the list, the first entry of that key (`mem_ofList`).
-/

universe u v

/-- A map as its entries in strictly ascending order of the keys. -/
@[ext]
structure OrdMap (κ : Type u) (ν : Type v) [LT κ] where
  entries : List (κ × ν)
  sorted : entries.Pairwise fun x y => x.1 < y.1

namespace OrdMap

variable {κ : Type u} {ν : Type v} [LinearOrder κ]

/-- The map without entries. -/
def empty : OrdMap κ ν := ⟨[], .nil⟩

/-- The map holds an entry for the key. -/
def contains (m : OrdMap κ ν) (k : κ) : Bool := m.entries.any fun x => x.1 = k

/-- The value of a key. -/
def get (m : OrdMap κ ν) (k : κ) : Option ν := (m.entries.find? fun x => x.1 = k).map Prod.snd

/-- The values, in the order of their keys. -/
def values (m : OrdMap κ ν) : List ν := m.entries.map Prod.snd

/-- Inserts an entry at its place in a sorted list, unless its key is there. -/
def insertEntry (k : κ) (v : ν) : List (κ × ν) → List (κ × ν)
  | [] => [(k, v)]
  | x :: rest =>
    if k < x.1 then (k, v) :: x :: rest
    else if k = x.1 then x :: rest
    else x :: insertEntry k v rest

theorem mem_insertEntry {k : κ} {v : ν} {l : List (κ × ν)}
    (hs : l.Pairwise fun x y => x.1 < y.1) {x : κ × ν} :
    x ∈ insertEntry k v l ↔ x ∈ l ∨ x = (k, v) ∧ ∀ y ∈ l, y.1 ≠ k := by
  induction l with
  | nil => simp [insertEntry]
  | cons y rest ih =>
    obtain ⟨hy, hrest⟩ := List.pairwise_cons.1 hs
    rw [insertEntry]
    split
    · next hlt =>
      have hne : ∀ z ∈ y :: rest, z.1 ≠ k := by
        intro z hz
        rcases List.mem_cons.1 hz with rfl | hz
        · exact hlt.ne'
        · exact (hlt.trans (hy z hz)).ne'
      rw [List.mem_cons, or_comm]
      exact or_congr_right (iff_self_and.2 fun _ => hne)
    · split
      · next heq =>
        refine (or_iff_left ?_).symm
        rintro ⟨-, h⟩
        exact h y List.mem_cons_self heq.symm
      · next hne =>
        rw [List.mem_cons, ih hrest, List.mem_cons, List.forall_mem_cons, or_assoc]
        simp [Ne.symm hne]

theorem sorted_insertEntry {k : κ} {v : ν} {l : List (κ × ν)}
    (hs : l.Pairwise fun x y => x.1 < y.1) :
    (insertEntry k v l).Pairwise fun x y => x.1 < y.1 := by
  induction l with
  | nil => simp [insertEntry]
  | cons y rest ih =>
    obtain ⟨hy, hrest⟩ := List.pairwise_cons.1 hs
    rw [insertEntry]
    split
    · next hlt =>
      refine List.pairwise_cons.2 ⟨fun z hz => ?_, hs⟩
      rcases List.mem_cons.1 hz with rfl | hz
      · exact hlt
      · exact hlt.trans (hy z hz)
    · split
      · exact hs
      · refine List.pairwise_cons.2 ⟨fun z hz => ?_, ih hrest⟩
        rcases (mem_insertEntry hrest).1 hz with hz | ⟨rfl, -⟩
        · exact hy z hz
        · exact lt_of_le_of_ne (not_lt.1 (by assumption)) (Ne.symm (by assumption))

/-- `entry(k).or_insert(v)`: adds an entry unless the key is there. -/
def orInsert (m : OrdMap κ ν) (k : κ) (v : ν) : OrdMap κ ν :=
  ⟨insertEntry k v m.entries, sorted_insertEntry m.sorted⟩

/-- The map filled from a list, in which the first entry of each key stays. -/
def ofList (l : List (κ × ν)) : OrdMap κ ν := l.foldl (fun m x => m.orInsert x.1 x.2) empty

@[simp] theorem ofList_nil : ofList ([] : List (κ × ν)) = empty := rfl

theorem ofList_concat (l : List (κ × ν)) (x : κ × ν) :
    ofList (l ++ [x]) = (ofList l).orInsert x.1 x.2 := by
  rw [ofList, List.foldl_append]
  rfl

theorem mem_orInsert {m : OrdMap κ ν} {k : κ} {v : ν} {x : κ × ν} :
    x ∈ (m.orInsert k v).entries ↔ x ∈ m.entries ∨ x = (k, v) ∧ ∀ y ∈ m.entries, y.1 ≠ k :=
  mem_insertEntry m.sorted

theorem contains_iff {m : OrdMap κ ν} {k : κ} : m.contains k ↔ ∃ x ∈ m.entries, x.1 = k := by
  simp [contains]

/-- Inserting under a key that is there changes nothing. -/
theorem orInsert_of_contains {m : OrdMap κ ν} {k : κ} (v : ν) (h : m.contains k) :
    m.orInsert k v = m := by
  obtain ⟨entries, sorted⟩ := m
  rw [contains_iff] at h
  suffices hs : insertEntry k v entries = entries by
    simp only [orInsert, hs]
  induction entries with
  | nil => simp at h
  | cons y rest ih =>
    obtain ⟨hy, hrest⟩ := List.pairwise_cons.1 sorted
    obtain ⟨x, hx, rfl⟩ := h
    rw [insertEntry]
    rcases List.mem_cons.1 hx with rfl | hx
    · simp
    · rw [if_neg (hy x hx).not_gt, if_neg (hy x hx).ne', ih hrest ⟨x, hx, rfl⟩]

/-- The keys of a map filled from a list are those of the list. -/
theorem contains_ofList {l : List (κ × ν)} {k : κ} :
    (ofList l).contains k ↔ ∃ x ∈ l, x.1 = k := by
  rw [contains_iff]
  induction l using List.reverseRecOn with
  | nil => simp [empty]
  | append_singleton l x ih =>
    simp only [ofList_concat, mem_orInsert, List.mem_append, List.mem_singleton]
    constructor
    · rintro ⟨y, hy | ⟨rfl, -⟩, rfl⟩
      · obtain ⟨z, hz, hk⟩ := ih.1 ⟨y, hy, rfl⟩
        exact ⟨z, .inl hz, hk⟩
      · exact ⟨x, .inr rfl, rfl⟩
    · rintro ⟨y, hy | rfl, rfl⟩
      · obtain ⟨z, hz, hk⟩ := ih.2 ⟨y, hy, rfl⟩
        exact ⟨z, .inl hz, hk⟩
      · by_cases h : ∃ z ∈ (ofList l).entries, z.1 = y.1
        · obtain ⟨z, hz, hk⟩ := h
          exact ⟨z, .inl hz, hk⟩
        · exact ⟨_, .inr ⟨rfl, fun z hz hk => h ⟨z, hz, hk⟩⟩, rfl⟩

/-- A map filled from a list holds the first entry of each key. -/
theorem mem_ofList {l : List (κ × ν)} {x : κ × ν} :
    x ∈ (ofList l).entries ↔ l.find? (fun y => y.1 = x.1) = some x := by
  induction l using List.reverseRecOn with
  | nil => simp [empty]
  | append_singleton l y ih =>
    rw [ofList_concat, mem_orInsert, ih, List.find?_append, Option.or_eq_some_iff]
    refine or_congr_right ?_
    have hkeys : (∀ z ∈ (ofList l).entries, z.1 ≠ y.1) ↔ ∀ z ∈ l, z.1 ≠ y.1 := by
      have := not_congr ((contains_iff (m := ofList l) (k := y.1)).symm.trans contains_ofList)
      simpa only [not_exists, not_and] using this
    rw [hkeys]
    constructor
    · rintro ⟨rfl, h⟩
      exact ⟨by simpa using h, by simp⟩
    · rintro ⟨h, hy⟩
      obtain ⟨-, rfl⟩ : y.1 = x.1 ∧ y = x := by simpa using hy
      exact ⟨rfl, by simpa using h⟩

theorem insertEntry_of_lt {k : κ} {v : ν} {l : List (κ × ν)} (h : ∀ x ∈ l, x.1 < k) :
    insertEntry k v l = l ++ [(k, v)] := by
  induction l with
  | nil => rfl
  | cons x rest ih =>
    obtain ⟨hx, hrest⟩ := List.forall_mem_cons.1 h
    rw [insertEntry, if_neg hx.not_gt, if_neg hx.ne', ih hrest]
    rfl

/-- A map filled from entries in ascending order of the keys holds these. -/
theorem entries_ofList {l : List (κ × ν)} (h : l.Pairwise fun x y => x.1 < y.1) :
    (ofList l).entries = l := by
  induction l using List.reverseRecOn with
  | nil => rfl
  | append_singleton l x ih =>
    obtain ⟨hl, -, hx⟩ := List.pairwise_append.1 h
    rw [ofList_concat]
    show insertEntry x.1 x.2 (ofList l).entries = _
    rw [ih hl, insertEntry_of_lt fun y hy => hx y hy x (List.mem_singleton_self x)]

@[simp] theorem ofList_entries (m : OrdMap κ ν) : ofList m.entries = m :=
  OrdMap.ext (entries_ofList m.sorted)

/-! ## Values under a function -/

section
variable {μ : Type*} (f : ν → μ)

theorem insertEntry_map (k : κ) (v : ν) (l : List (κ × ν)) :
    insertEntry k (f v) (l.map fun x => (x.1, f x.2)) =
      (insertEntry k v l).map fun x => (x.1, f x.2) := by
  induction l with
  | nil => rfl
  | cons x rest ih =>
    rw [List.map_cons, insertEntry, insertEntry]
    split
    · rfl
    · split
      · rfl
      · rw [ih, List.map_cons]

/-- A function of the values can be applied before a map is filled. -/
theorem entries_ofList_map (l : List (κ × ν)) :
    (ofList (l.map fun x => (x.1, f x.2))).entries =
      (ofList l).entries.map fun x => (x.1, f x.2) := by
  induction l using List.reverseRecOn with
  | nil => rfl
  | append_singleton l x ih =>
    rw [List.map_append, List.map_singleton, ofList_concat, ofList_concat]
    show insertEntry x.1 (f x.2) (ofList _).entries = (insertEntry x.1 x.2 _).map _
    rw [ih, insertEntry_map]

theorem values_ofList_map (l : List (κ × ν)) :
    (ofList (l.map fun x => (x.1, f x.2))).values = (ofList l).values.map f := by
  rw [values, values, entries_ofList_map, List.map_map, List.map_map]
  rfl

end

end OrdMap
