import Borsa.Lib.Firsts
import Borsa.Timeseries.Merge

/-!
# Which actions `dedup_actions` keeps

`compare_actions` orders actions by instant, variant and payload, all of them in full: it is the order
of an injective key (`compareActions_eq`). `hash_action` reads the instant in whole seconds. So of the
actions of one variant and payload within one second only the earliest is kept
(`mem_dedupActions`), and no action is lost exactly when there are no two such
(`dedupExact_iff`).
-/

namespace Borsa

variable {A : Type} [LinearOrder A]

/-! ## The order of actions -/

/-- What two actions are compared by: the instant, the variant, the amount and its currency, and the
two numbers of a split. -/
abbrev ActionKey (A : Type) := DateTime ×ₗ ℕ ×ₗ WithBot A ×ₗ String ×ₗ ℕ ×ₗ ℕ

/-- The key of an action. -/
def MarketAction.sortKey : MarketAction A → ActionKey A
  | .dividend ts amount =>
    toLex (ts, toLex (0, toLex (amount.amount, toLex (amount.currency.debug, toLex (0, 0)))))
  | .split ts numerator denominator =>
    toLex (ts, toLex (1, toLex (⊥, toLex ("", toLex (numerator.toNat, denominator.toNat)))))
  | .capitalGain ts gain =>
    toLex (ts, toLex (2, toLex (gain.amount, toLex (gain.currency.debug, toLex (0, 0)))))

theorem compare_toLex {α β : Type} [LinearOrder α] [LinearOrder β] (a a' : α) (b b' : β) :
    compare (toLex (a, b)) (toLex (a', b')) = (compare a a').then (compare b b') := by
  rw [Prod.Lex.compare_def]
  rfl

theorem compare_uint32 (a b : UInt32) : compare a b = compare a.toNat b.toNat := by
  simp only [compare, compareOfLessAndEq, UInt32.lt_iff_toNat_lt, UInt32.toNat_inj]

theorem compare_coe (a b : A) : compare (a : WithBot A) b = compare a b := by
  rcases lt_trichotomy a b with h | rfl | h
  · rw [compare_lt_iff_lt.2 h, compare_lt_iff_lt.2 (WithBot.coe_lt_coe.2 h)]
  · rw [compare_eq_iff_eq.2 rfl, compare_eq_iff_eq.2 rfl]
  · rw [compare_gt_iff_gt.2 h, compare_gt_iff_gt.2 (WithBot.coe_lt_coe.2 h)]

/-- Actions are compared by their keys. -/
theorem compareActions_eq (a b : MarketAction A) :
    compareActions a b = compare a.sortKey b.sortKey := by
  cases a <;> cases b <;>
    simp only [compareActions, MarketAction.tsKind, MarketAction.sortKey, compareMoney,
      compare_toLex, compare_coe, compare_uint32]
  all_goals first | rfl | simp

omit [LinearOrder A] in
/-- Two actions with one key are equal. -/
theorem MarketAction.sortKey_injective : Function.Injective (sortKey : MarketAction A → _) := by
  intro a b h
  have hu : ∀ {x y : UInt32}, x.toNat = y.toNat → x = y := fun h => UInt32.toNat_inj.1 h
  have hm : ∀ {x y : Money A}, x.amount = y.amount → x.currency.debug = y.currency.debug →
      x = y := by
    rintro ⟨x, ⟨c⟩⟩ ⟨y, ⟨d⟩⟩ hamt hcur
    cases hamt
    cases hcur
    rfl
  cases a <;> cases b <;>
    simp only [sortKey, EmbeddingLike.apply_eq_iff_eq, Prod.mk.injEq, WithBot.coe_inj] at h
  · obtain ⟨rfl, -, hamt, hcur, -⟩ := h
    rw [hm hamt hcur]
  · cases h.2.1
  · cases h.2.1
  · cases h.2.1
  · obtain ⟨rfl, -, -, -, hn, hd⟩ := h
    rw [hu hn, hu hd]
  · cases h.2.1
  · cases h.2.1
  · cases h.2.1
  · obtain ⟨rfl, -, hamt, hcur, -⟩ := h
    rw [hm hamt hcur]

/-! ## What is kept -/

section
variable [DefaultHasher A]

/-- The hash an action is remembered under. -/
def MarketAction.hash64 (a : MarketAction A) : UInt64 := DefaultHasher.finish (hashAction a)

/-- `dedup_actions` keeps, of the actions of one hash, the least. -/
theorem dedupActions_eq (actions : List (MarketAction A)) :
    dedupActions actions = SortKey.leasts MarketAction.sortKey MarketAction.hash64 actions := by
  have hsort : actions.insertionSort (fun a b => compareActions a b ≠ .gt) =
      SortKey.sortByKey MarketAction.sortKey actions := by
    unfold SortKey.sortByKey
    simp only [compareActions_eq, compare_le_iff_le]
  have hfold := SortKey.foldl_firsts MarketAction.hash64
    (SortKey.sortByKey MarketAction.sortKey actions) [] []
  unfold dedupActions
  rw [hsort]
  exact hfold

theorem mem_dedupActions {actions : List (MarketAction A)} {a : MarketAction A} :
    a ∈ dedupActions actions ↔
      a ∈ actions ∧ ∀ b ∈ actions, b.hash64 = a.hash64 → compareActions a b ≠ .gt := by
  rw [dedupActions_eq, SortKey.mem_leasts MarketAction.sortKey_injective]
  simp only [compareActions_eq, compare_le_iff_le]

/-- The kept actions are in strict order. -/
theorem pairwise_dedupActions (actions : List (MarketAction A)) :
    (dedupActions actions).Pairwise fun a b => compareActions a b = .lt := by
  rw [dedupActions_eq]
  simp only [compareActions_eq, compare_lt_iff_lt]
  exact SortKey.pairwise_leasts MarketAction.sortKey_injective _ actions

/-- Which actions are kept depends only on which there are. -/
theorem dedupActions_congr {actions actions' : List (MarketAction A)}
    (h : ∀ a, a ∈ actions ↔ a ∈ actions') : dedupActions actions = dedupActions actions' := by
  rw [dedupActions_eq, dedupActions_eq]
  exact SortKey.leasts_congr MarketAction.sortKey_injective _ h

/-- Deduplicating a part first changes nothing. -/
theorem dedupActions_dedupActions_append (actions more : List (MarketAction A)) :
    dedupActions (dedupActions actions ++ more) = dedupActions (actions ++ more) := by
  simp only [dedupActions_eq]
  exact SortKey.leasts_leasts_append MarketAction.sortKey_injective _ actions more

theorem dedupActions_dedupActions (actions : List (MarketAction A)) :
    dedupActions (dedupActions actions) = dedupActions actions := by
  simp only [dedupActions_eq]
  exact SortKey.leasts_leasts MarketAction.sortKey_injective _ actions

/-! ## Which actions are lost -/

/-- The actions are of one variant, with one payload, within the same second. -/
def MarketAction.SameSecond : MarketAction A → MarketAction A → Prop
  | .dividend ts amount, .dividend ts' amount' => ts.timestamp = ts'.timestamp ∧ amount = amount'
  | .split ts numerator denominator, .split ts' numerator' denominator' =>
    ts.timestamp = ts'.timestamp ∧ numerator = numerator' ∧ denominator = denominator'
  | .capitalGain ts gain, .capitalGain ts' gain' => ts.timestamp = ts'.timestamp ∧ gain = gain'
  | _, _ => False

omit [LinearOrder A] [DefaultHasher A] in
/-- What is hashed tells actions apart by variant, payload and second. -/
theorem hashAction_eq_iff {a b : MarketAction A} :
    hashAction a = hashAction b ↔ a.SameSecond b := by
  have hm : ∀ {x y : Money A}, x.amount = y.amount ∧ x.currency.debug = y.currency.debug ↔
      x = y := by
    rintro ⟨x, ⟨c⟩⟩ ⟨y, ⟨d⟩⟩
    simp
  cases a <;> cases b <;> simp [hashAction, MarketAction.SameSecond, hm]

/-- The output holds one copy of every action of the list, in strict order of instant, variant and
payload; it is the same for every list with the same actions, and deduplicating it changes
nothing. -/
structure DedupExact (actions : List (MarketAction A)) : Prop where
  mem : ∀ a, a ∈ dedupActions actions ↔ a ∈ actions
  nodup : (dedupActions actions).Nodup
  sorted : (dedupActions actions).Pairwise fun a b => a.sortKey < b.sortKey
  congr : ∀ actions', (∀ a, a ∈ actions' ↔ a ∈ actions) →
    dedupActions actions' = dedupActions actions
  idem : dedupActions (dedupActions actions) = dedupActions actions

/-- Where different bytes have different hashes, `dedup_actions` keeps exactly the distinct actions of
a list that has no two actions of one variant and payload at different instants of the same second,
and of no other list. -/
theorem dedupExact_iff (actions : List (MarketAction A))
    (hcol : ∀ a ∈ actions, ∀ b ∈ actions, a.hash64 = b.hash64 → hashAction a = hashAction b) :
    DedupExact actions ↔ ∀ a ∈ actions, ∀ b ∈ actions, a.SameSecond b → a = b := by
  have hsorted : (dedupActions actions).Pairwise fun a b => a.sortKey < b.sortKey :=
    (pairwise_dedupActions actions).imp fun h => by
      rwa [compareActions_eq, compare_lt_iff_lt] at h
  constructor
  · intro h a ha b hb hab
    have hhash : a.hash64 = b.hash64 := congrArg DefaultHasher.finish (hashAction_eq_iff.2 hab)
    have hle := (mem_dedupActions.1 ((h.mem a).2 ha)).2 b hb hhash.symm
    have hge := (mem_dedupActions.1 ((h.mem b).2 hb)).2 a ha hhash
    rw [compareActions_eq, compare_le_iff_le] at hle hge
    exact MarketAction.sortKey_injective (le_antisymm hle hge)
  · intro h
    refine ⟨fun a => ?_, ?_, hsorted, fun _ hmem => dedupActions_congr hmem,
      dedupActions_dedupActions actions⟩
    · rw [mem_dedupActions, and_iff_left_iff_imp]
      intro ha b hb hhash
      rw [h b hb a ha (hashAction_eq_iff.1 (hcol b hb a ha hhash)), compareActions_eq,
        compare_le_iff_le]
    · exact hsorted.imp fun hlt heq => by
        rw [heq] at hlt
        exact lt_irrefl _ hlt

end

/-- Two splits of one ratio, a nanosecond apart. -/
def closeSplits : List (MarketAction ℕ) :=
  [.split ⟨0, by decide⟩ 2 1, .split ⟨1, by decide⟩ 2 1]

theorem closeSplits_hash {a b : MarketAction ℕ} (ha : a ∈ closeSplits) (hb : b ∈ closeSplits) :
    hashAction a = hashAction b := by
  have hall : ∀ a ∈ closeSplits, hashAction a = .split 0 2 1 := by
    simp [closeSplits, hashAction, DateTime.timestamp]
  rw [hall a ha, hall b hb]

/-- The later of the two splits is lost. -/
theorem closeSplits_not_dedupExact :
    (∀ a ∈ closeSplits, ∀ b ∈ closeSplits, a.hash64 = b.hash64 → hashAction a = hashAction b) ∧
      ¬ DedupExact closeSplits := by
  refine ⟨fun a ha b hb _ => closeSplits_hash ha hb, fun h => ?_⟩
  let first : MarketAction ℕ := .split ⟨0, by decide⟩ 2 1
  let later : MarketAction ℕ := .split ⟨1, by decide⟩ 2 1
  have hfirst : first ∈ closeSplits := List.mem_cons_self ..
  have hlater : later ∈ closeSplits := List.mem_cons_of_mem _ (List.mem_singleton_self _)
  have hhash : first.hash64 = later.hash64 :=
    congrArg DefaultHasher.finish (closeSplits_hash hfirst hlater)
  exact (mem_dedupActions.1 ((h.mem later).2 hlater)).2 first hfirst hhash (by decide)

/-- The exact condition at these splits. -/
theorem closeSplits_dedupExact_iff :
    DedupExact closeSplits ↔
      ∀ a ∈ closeSplits, ∀ b ∈ closeSplits, a.SameSecond b → a = b :=
  dedupExact_iff closeSplits fun _ ha _ hb _ => closeSplits_hash ha hb

end Borsa
