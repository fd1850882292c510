import Mathlib.Data.List.Induction

/-!
# Lists of tagged items

A list of pairs used as a bag of items tagged with a key: `atKey l k` lists the items of key `k`, and
the lemmas say what adding and removing an item does to the items of each key.

`groupBy` collects the items of a list by key, as a map from keys to lists is filled.
-/

namespace Keyed

universe u v
variable {κ : Type u} {ι : Type v} [DecidableEq κ]

/-- The items of key `k`, in order. -/
def atKey (l : List (κ × ι)) (k : κ) : List ι := (l.filter fun x => x.1 == k).map (·.2)

@[simp] theorem atKey_nil (k : κ) : atKey ([] : List (κ × ι)) k = [] := rfl

theorem atKey_cons (x : κ × ι) (l : List (κ × ι)) (k : κ) :
    atKey (x :: l) k = if x.1 = k then x.2 :: atKey l k else atKey l k := by
  unfold atKey
  rw [List.filter_cons]
  by_cases h : x.1 = k <;> simp [h]

@[simp] theorem atKey_append (l l' : List (κ × ι)) (k : κ) :
    atKey (l ++ l') k = atKey l k ++ atKey l' k := by
  simp [atKey]

theorem length_atKey (l : List (κ × ι)) (k : κ) :
    (atKey l k).length = l.countP fun x => x.1 == k := by
  rw [atKey, List.length_map, List.countP_eq_length_filter]

theorem mem_atKey {l : List (κ × ι)} {k : κ} {i : ι} : i ∈ atKey l k ↔ (k, i) ∈ l := by
  simp [atKey]

section
variable {p : κ × ι → Bool} {k : κ}

/-- Removing the first item that satisfies a predicate on one key removes it from the items of that
key. -/
theorem atKey_eraseP (hp : ∀ x, p x = true → x.1 = k) (l : List (κ × ι)) :
    atKey (l.eraseP p) k = (atKey l k).eraseP fun i => p (k, i) := by
  induction l with
  | nil => rfl
  | cons x l ih =>
    obtain ⟨k', i⟩ := x
    cases hx : p (k', i) with
    | true =>
      obtain rfl : k' = k := hp _ hx
      rw [List.eraseP_cons_of_pos hx, atKey_cons, if_pos rfl]
      exact (List.eraseP_cons_of_pos (p := fun i => p (k', i)) hx).symm
    | false =>
      rw [List.eraseP_cons_of_neg (by simp [hx]), atKey_cons, atKey_cons, ih]
      split
      · next hk =>
        obtain rfl : k' = k := hk
        exact (List.eraseP_cons_of_neg (by simp [hx])).symm
      · rfl

/-- It leaves the items of other keys. -/
theorem atKey_eraseP_of_forall (hp : ∀ x, p x = true → x.1 = k) (l : List (κ × ι)) {k' : κ}
    (h : k' ≠ k) : atKey (l.eraseP p) k' = atKey l k' := by
  induction l with
  | nil => rfl
  | cons x l ih =>
    cases hx : p x with
    | true => rw [List.eraseP_cons_of_pos hx, atKey_cons, if_neg (hp x hx ▸ Ne.symm h)]
    | false => rw [List.eraseP_cons_of_neg (by simp [hx]), atKey_cons, atKey_cons, ih]

end

/-- Removing an item removes it from its key's items. -/
theorem atKey_erase_self [BEq ι] [LawfulBEq ι] (l : List (κ × ι)) (k : κ) (i : ι) :
    atKey (l.erase (k, i)) k = (atKey l k).erase i := by
  have hp : ∀ x : κ × ι, ((k, i) == x) = true → x.1 = k := fun x hx => by rw [← eq_of_beq hx]
  rw [List.erase_eq_eraseP, List.erase_eq_eraseP, atKey_eraseP hp]
  refine congrArg (fun p => (atKey l k).eraseP p) (funext fun j => ?_)
  rw [Bool.eq_iff_iff, beq_iff_eq, beq_iff_eq, Prod.mk.injEq]
  exact and_iff_right rfl

/-- Removing an item leaves the items of other keys. -/
theorem atKey_erase_of_ne [BEq ι] [LawfulBEq ι] (l : List (κ × ι)) {k k' : κ} (i : ι) (h : k' ≠ k) :
    atKey (l.erase (k, i)) k' = atKey l k' := by
  have hp : ∀ x : κ × ι, ((k, i) == x) = true → x.1 = k := fun x hx => by rw [← eq_of_beq hx]
  rw [List.erase_eq_eraseP, atKey_eraseP_of_forall hp l h]

/-- Removing the first item of a key drops the head of its items. -/
theorem atKey_eraseP_self (l : List (κ × ι)) (k : κ) :
    atKey (l.eraseP fun x => x.1 == k) k = (atKey l k).tail := by
  rw [atKey_eraseP fun _ hx => eq_of_beq hx]
  cases atKey l k with
  | nil => rfl
  | cons i l => exact List.eraseP_cons_of_pos (beq_self_eq_true k)

/-- Removing the first item of a key leaves the items of other keys. -/
theorem atKey_eraseP_of_ne (l : List (κ × ι)) {k k' : κ} (h : k' ≠ k) :
    atKey (l.eraseP fun x => x.1 == k) k' = atKey l k' :=
  atKey_eraseP_of_forall (fun _ hx => eq_of_beq hx) l h

/-! ## Groups -/

/-- Appends an item to the group of its key, which is opened if there is none. -/
def pushEntry (groups : List (κ × List ι)) (k : κ) (i : ι) : List (κ × List ι) :=
  match groups with
  | [] => [(k, [i])]
  | g :: rest => if g.1 = k then (g.1, g.2 ++ [i]) :: rest else g :: pushEntry rest k i

/-- The items of a list grouped by key; items without a key are left out. -/
def groupBy (key : ι → Option κ) (l : List ι) : List (κ × List ι) :=
  l.foldl (fun groups i =>
    match key i with
    | some k => pushEntry groups k i
    | none => groups) []

theorem keys_pushEntry (groups : List (κ × List ι)) (k : κ) (i : ι) :
    (pushEntry groups k i).map (·.1) =
      if k ∈ groups.map (·.1) then groups.map (·.1) else groups.map (·.1) ++ [k] := by
  induction groups with
  | nil => rfl
  | cons g rest ih =>
    rw [pushEntry]
    rcases eq_or_ne g.1 k with rfl | hk
    · simp
    · rw [if_neg hk, List.map_cons, ih]
      split <;> simp_all [Ne.symm hk]

theorem mem_pushEntry {groups : List (κ × List ι)} (hnodup : (groups.map (·.1)).Nodup) {k k' : κ}
    {i : ι} {is : List ι} : (k', is) ∈ pushEntry groups k i ↔
      if k' = k then (∃ js, (k, js) ∈ groups ∧ is = js ++ [i]) ∨ (k ∉ groups.map (·.1) ∧ is = [i])
      else (k', is) ∈ groups := by
  induction groups with
  | nil => by_cases hk : k' = k <;> simp [pushEntry, hk]
  | cons g rest ih =>
    obtain ⟨hg, hrest⟩ := List.nodup_cons.1 hnodup
    obtain ⟨k₀, js₀⟩ := g
    rw [pushEntry]
    rcases eq_or_ne k₀ k with rfl | hk
    · have hnot : ∀ js, (k₀, js) ∉ rest := fun js h => hg (List.mem_map.2 ⟨_, h, rfl⟩)
      rcases eq_or_ne k' k₀ with rfl | hk'
      · simp [hnot]
      · simp [hk']
    · rw [if_neg hk, List.mem_cons, ih hrest]
      rcases eq_or_ne k' k with rfl | hk'
      · simp [hk.symm]
      · simp [hk']

variable (key : ι → Option κ) (l : List ι)

theorem nodup_keys_groupBy : ((groupBy key l).map (·.1)).Nodup := by
  induction l using List.reverseRecOn with
  | nil => exact .nil
  | append_singleton l i ih =>
    rw [groupBy, List.foldl_append, List.foldl_cons, List.foldl_nil]
    cases key i with
    | none => exact ih
    | some k =>
      refine (keys_pushEntry (groupBy key l) k i).symm ▸ ?_
      split
      · exact ih
      · next h => exact List.nodup_append.2 ⟨ih, by simp, by grind⟩

/-- The groups are the nonempty lists of the items of one key. -/
theorem mem_groupBy {k : κ} {is : List ι} :
    (k, is) ∈ groupBy key l ↔ is = l.filter (fun i => key i = some k) ∧ is ≠ [] := by
  induction l using List.reverseRecOn generalizing is with
  | nil => simp [groupBy]
  | append_singleton l i ih =>
    have hstep : groupBy key (l ++ [i]) = match key i with
        | some k => pushEntry (groupBy key l) k i
        | none => groupBy key l := by
      rw [groupBy, List.foldl_append]
      rfl
    rw [hstep, List.filter_append]
    cases hkey : key i with
    | none => simp [hkey, ih]
    | some k₀ =>
      simp only [mem_pushEntry (nodup_keys_groupBy key l)]
      rcases eq_or_ne k k₀ with rfl | hk
      · have hkeys : k ∈ (groupBy key l).map (·.1) ↔
            l.filter (fun i => key i = some k) ≠ [] := by
          simp [ih]
        have hlast : [i].filter (fun i => key i = some k) = [i] := by simp [hkey]
        rw [if_pos rfl, hkeys, hlast]
        simp only [ih]
        constructor
        · intro h
          rcases h with ⟨js, ⟨rfl, -⟩, rfl⟩ | ⟨hnil, rfl⟩
          · simp
          · simp [not_not.1 hnil]
        · intro ⟨h, _⟩
          rcases eq_or_ne (l.filter fun i => key i = some k) [] with hnil | hne
          · exact .inr ⟨not_not.2 hnil, by simpa [hnil] using h⟩
          · exact .inl ⟨_, ⟨rfl, hne⟩, h⟩
      · simp [hk, hkey, Ne.symm hk, ih]

end Keyed
