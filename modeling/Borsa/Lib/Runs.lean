import Mathlib

/-!
# Runs of adjacent items with one key

A loop that keeps one group open, and closes it when an item of another key arrives, splits its
input into the runs of adjacent items with one key. Such a loop meets its specification, one group
for each key, exactly when the input is in the order of the keys (`pairwise_runs_iff`,
`mem_runs_of_sorted`).
-/

namespace Runs

universe u v
variable {α : Type u} {κ : Type v} {key : α → κ}

/-- The items of a list all have one key. -/
def SameKey (key : α → κ) (l : List α) : Prop := ∀ a ∈ l, ∀ b ∈ l, key a = key b

theorem SameKey.singleton (a : α) : SameKey key [a] := by
  intro b hb c hc
  rw [List.mem_singleton.1 hb, List.mem_singleton.1 hc]

theorem SameKey.key_eq {a : α} {g : List α} (h : SameKey key (a :: g)) :
    ∀ b ∈ g, key b = key a := fun b hb => h b (List.mem_cons_of_mem a hb) a List.mem_cons_self

theorem SameKey.concat {a b : α} {g : List α} (h : SameKey key (a :: g)) (hb : key b = key a) :
    SameKey key (a :: (g ++ [b])) := by
  have hall : ∀ c ∈ a :: (g ++ [b]), key c = key a := by
    intro c hc
    rcases List.mem_cons.1 hc with rfl | hc
    · rfl
    · rcases List.mem_append.1 hc with hc | hc
      · exact h.key_eq c hc
      · rw [List.mem_singleton.1 hc, hb]
  exact fun c hc d hd => (hall c hc).trans (hall d hd).symm

variable [DecidableEq κ]

/-- The runs of adjacent items with one key. -/
def runs (key : α → κ) (l : List α) : List (List α) := l.splitBy fun a b => key a == key b

@[simp] theorem runs_nil : runs key ([] : List α) = [] := rfl

@[simp] theorem flatten_runs (key : α → κ) (l : List α) : (runs key l).flatten = l :=
  List.flatten_splitBy _ l

theorem ne_nil_of_mem_runs {l r : List α} (h : r ∈ runs key l) : r ≠ [] :=
  List.ne_nil_of_mem_splitBy (r := fun a b => key a == key b) h

theorem exists_mem_runs (key : α → κ) {l : List α} {a : α} (h : a ∈ l) :
    ∃ r ∈ runs key l, a ∈ r :=
  List.mem_flatten.1 ((flatten_runs key l).symm ▸ h)

theorem mem_of_mem_runs {l r : List α} (hr : r ∈ runs key l) {a : α} (ha : a ∈ r) : a ∈ l :=
  flatten_runs key l ▸ List.mem_flatten_of_mem hr ha

/-- Items of one key are a single run. -/
theorem runs_of_sameKey {g : List α} (hne : g ≠ []) (hsame : SameKey key g) :
    runs key g = [g] := by
  refine List.splitBy_of_isChain hne (List.Pairwise.isChain ?_)
  exact List.pairwise_iff_forall_sublist.2 fun {a b} h =>
    beq_iff_eq.2 (hsame a (h.subset (by simp)) b (h.subset (by simp)))

/-- The open run is closed by an item of another key. -/
theorem runs_append_cons {g : List α} (hne : g ≠ []) (hsame : SameKey key g) {a : α} {l : List α}
    (ha : ∀ b ∈ g, key b ≠ key a) : runs key (g ++ a :: l) = g :: runs key (a :: l) := by
  have hsplit : runs key (g ++ a :: l) = runs key g ++ runs key (a :: l) :=
    List.splitBy_append_cons l fun b hb => beq_eq_false_iff_ne.2 (ha b (List.mem_of_mem_getLast? hb))
  rw [hsplit, runs_of_sameKey hne hsame, List.singleton_append]

/-- The first run is what leads the list under the first key. -/
theorem runs_cons (a : α) (l : List α) :
    runs key (a :: l) = (a :: l.takeWhile fun b => key b = key a) ::
      runs key (l.dropWhile fun b => key b = key a) := by
  have hall : ∀ b ∈ a :: l.takeWhile (fun b => key b = key a), key b = key a := by
    intro b hb
    rcases List.mem_cons.1 hb with rfl | hb
    · rfl
    · simpa using List.mem_takeWhile_imp hb
  have hsame : SameKey key (a :: l.takeWhile fun b => key b = key a) :=
    fun b hb c hc => (hall b hb).trans (hall c hc).symm
  have hl := List.takeWhile_append_dropWhile (p := fun b => decide (key b = key a)) (l := l)
  cases hd : l.dropWhile fun b => key b = key a with
  | nil =>
    rw [hd, List.append_nil] at hl
    rw [runs_nil, ← runs_of_sameKey (List.cons_ne_nil _ _) hsame, hl]
  | cons b rest =>
    rw [← runs_append_cons (List.cons_ne_nil _ _) hsame, List.cons_append, ← hd, hl]
    intro c hc
    have hb : ¬ decide (key b = key a) = true :=
      (List.head?_dropWhile_not (fun b => decide (key b = key a)) l) |> fun h => by
        simpa [hd] using h
    rw [hall c hc]
    exact fun h => hb (by simp [h])

/-- The first run takes in what follows under its key. -/
theorem runs_cons_append {a : α} {g : List α} (hsame : SameKey key (a :: g)) (l : List α) :
    runs key (a :: g ++ l) = (a :: g ++ l.takeWhile fun b => key b = key a) ::
      runs key (l.dropWhile fun b => key b = key a) := by
  have hg : ∀ b ∈ g, decide (key b = key a) = true := fun b hb => decide_eq_true (hsame.key_eq b hb)
  rw [List.cons_append, runs_cons, List.takeWhile_append_of_pos hg, List.dropWhile_append_of_pos hg,
    List.cons_append]

/-- The runs of a list that is not empty have a last one. -/
theorem exists_runs_eq_concat (key : α → κ) (a : α) (l : List α) :
    ∃ closed last, runs key (a :: l) = closed ++ [last] := by
  rcases List.eq_nil_or_concat (runs key (a :: l)) with h | ⟨closed, last, h⟩
  · rw [runs_cons] at h
    cases h
  · exact ⟨closed, last, h.trans (List.concat_eq_append ..)⟩

theorem sameKey_of_mem_runs {l r : List α} (h : r ∈ runs key l) : SameKey key r := by
  have hchain : r.IsChain fun a b => key a = key b :=
    (List.isChain_of_mem_splitBy h).imp fun _ _ hab => beq_iff_eq.1 hab
  have htrans : IsTrans α fun a b => key a = key b := ⟨fun _ _ _ => Eq.trans⟩
  have hsymm : Std.Symm fun a b => key a = key b := ⟨fun _ _ => Eq.symm⟩
  have hpair := List.isChain_iff_pairwise.1 hchain
  exact fun a ha b hb => List.Pairwise.forall_of_forall (R := fun a b => key a = key b)
    (fun _ _ => rfl) hpair ha hb

/-- Adjacent runs have different keys. -/
theorem isChain_runs (l : List α) :
    (runs key l).IsChain fun r s => ∀ a ∈ r, ∀ b ∈ s, key a ≠ key b := by
  refine (List.isChain_getLast_head_splitBy (fun a b => key a == key b) l).imp_of_mem_imp ?_
  intro r s hr hs ⟨hne, hne', hkey⟩ a ha b hb h
  refine beq_eq_false_iff_ne.1 hkey ?_
  rw [sameKey_of_mem_runs hr _ (List.getLast_mem hne) a ha, h,
    sameKey_of_mem_runs hs b hb _ (List.head_mem hne')]

/-! ## Lists in the order of their keys -/

section
variable [LinearOrder κ]

/-- The runs of a list are in strictly ascending order of their keys exactly when the list is in the
order of its keys. -/
theorem pairwise_runs_iff (key : α → κ) (l : List α) :
    (runs key l).Pairwise (fun r s => ∀ a ∈ r, ∀ b ∈ s, key a < key b) ↔
      l.Pairwise fun a b => key a ≤ key b := by
  constructor
  · intro h
    rw [← flatten_runs key l, List.pairwise_flatten]
    refine ⟨fun r hr => ?_, h.imp fun hlt a ha b hb => (hlt a ha b hb).le⟩
    exact List.pairwise_of_forall_mem_list fun a ha b hb => (sameKey_of_mem_runs hr a ha b hb).le
  · intro h
    induction hn : l.length using Nat.strong_induction_on generalizing l with
    | _ n ih =>
      cases l with
      | nil => exact .nil
      | cons a l =>
        rw [runs_cons]
        have hsub : (l.dropWhile fun b => key b = key a).Sublist l := List.dropWhile_sublist _
        have hle := (List.pairwise_cons.1 h).2.sublist hsub
        refine List.pairwise_cons.2 ⟨fun s hs b hb c hc => ?_, ih _ ?_ _ hle rfl⟩
        · -- what follows the leading run is above its key
          have hb' : key b = key a := by
            rcases List.mem_cons.1 hb with rfl | hb
            · rfl
            · simpa using List.mem_takeWhile_imp hb
          have hc' := mem_of_mem_runs hs hc
          rw [hb']
          refine lt_of_le_of_ne ((List.pairwise_cons.1 h).1 c (hsub.subset hc')) fun heq => ?_
          cases hd : l.dropWhile fun b => key b = key a with
          | nil => simp [hd] at hc'
          | cons d rest =>
            have hd' : key d ≠ key a := by
              have := List.head?_dropWhile_not (fun b => decide (key b = key a)) l
              simpa [hd] using this
            have hdc : key d ≤ key c := by
              rw [hd] at hc' hle
              rcases List.mem_cons.1 hc' with rfl | hc'
              · exact le_rfl
              · exact (List.pairwise_cons.1 hle).1 c hc'
            have had : key a ≤ key d :=
              (List.pairwise_cons.1 h).1 d (hsub.subset (hd ▸ List.mem_cons_self))
            exact hd' (le_antisymm (heq ▸ hdc) had)
        · have := hsub.length_le
          simp only [List.length_cons] at hn
          omega

/-- In a list in the order of its keys the runs are the classes of items with one key. -/
theorem mem_runs_of_sorted {l r : List α} (h : l.Pairwise fun a b => key a ≤ key b) :
    r ∈ runs key l ↔ ∃ a ∈ l, r = l.filter fun b => key b = key a := by
  have hlt := (pairwise_runs_iff key l).2 h
  have hclass : ∀ r ∈ runs key l, ∀ a ∈ r, r = l.filter fun b => key b = key a := by
    intro r hr a ha
    obtain ⟨pre, post, hsplit⟩ := List.append_of_mem hr
    have hflat : l = pre.flatten ++ (r ++ post.flatten) := by
      rw [← flatten_runs key l, hsplit, List.flatten_append, List.flatten_cons]
    rw [hsplit, List.pairwise_append, List.pairwise_cons] at hlt
    have hpre : pre.flatten.filter (fun b => key b = key a) = [] := by
      refine List.filter_eq_nil_iff.2 fun b hb => ?_
      obtain ⟨s, hs, hb⟩ := List.mem_flatten.1 hb
      simpa using (hlt.2.2 s hs r List.mem_cons_self b hb a ha).ne
    have hpost : post.flatten.filter (fun b => key b = key a) = [] := by
      refine List.filter_eq_nil_iff.2 fun b hb => ?_
      obtain ⟨s, hs, hb⟩ := List.mem_flatten.1 hb
      simpa using (hlt.2.1.1 s hs a ha b hb).ne'
    have hr' : r.filter (fun b => key b = key a) = r :=
      List.filter_eq_self.2 fun b hb => decide_eq_true (sameKey_of_mem_runs hr b hb a ha)
    conv_rhs => rw [hflat]
    rw [List.filter_append, List.filter_append, hpre, hpost, hr', List.nil_append, List.append_nil]
  constructor
  · intro hr
    obtain ⟨a, ha⟩ := List.exists_mem_of_ne_nil r (ne_nil_of_mem_runs hr)
    exact ⟨a, mem_of_mem_runs hr ha, hclass r hr a ha⟩
  · rintro ⟨a, ha, rfl⟩
    obtain ⟨s, hs, has⟩ := exists_mem_runs key ha
    exact hclass s hs a has ▸ hs

end

end Runs
