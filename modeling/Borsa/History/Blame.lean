import Borsa.History.Pipeline
import Borsa.Timeseries.MergePriority

/-!
# Blame for mixed currencies

When the answers of several providers are not in one currency, `identify_faulty_provider` names one of
them. Of the two searches it makes, the second goes through the answers in order of priority, but the
first goes through a hash map. `blamesByPriority_iff` says when the answer is the one that priority
gives, whatever the order of the map: when at most one provider mixes currencies on its own. The last
resort of the code, to name the last provider, is never needed after a failed merge.
-/

namespace Borsa

/-! ## Searches in an arbitrary order -/

/-- The order that starts at a position and goes around. -/
def HashOrder.rotated (k : ℕ) : HashOrder :=
  ⟨fun entries => entries.rotate k, fun entries => entries.rotate_perm k⟩

/-- A search finds the same entry in every order exactly when only that entry is sought. -/
theorem HashOrder.find?_iter_iff {α : Type} {p : α → Bool} {l : List α} {x : α} :
    (∀ order : HashOrder, (order.iter l).find? p = some x) ↔
      (x ∈ l ∧ p x) ∧ ∀ y ∈ l, p y → y = x := by
  constructor
  · intro h
    have hx := h .insertion
    refine ⟨⟨List.mem_of_find?_eq_some hx, List.find?_some hx⟩, fun y hy hpy => ?_⟩
    obtain ⟨pre, post, rfl⟩ := List.append_of_mem hy
    -- the order that starts at `y` finds `y`
    have hrot : (HashOrder.rotated pre.length).iter (pre ++ y :: post) = y :: (post ++ pre) :=
      List.rotate_append_length_eq pre (y :: post)
    have hy := h (.rotated pre.length)
    rw [hrot, List.find?_cons_of_pos hpy] at hy
    exact Option.some.inj hy
  · rintro ⟨⟨hx, hpx⟩, huniq⟩ order
    have hmem {y : α} : y ∈ order.iter l ↔ y ∈ l := (order.perm l).mem_iff
    cases hfind : (order.iter l).find? p with
    | none => exact absurd hpx (List.find?_eq_none.1 hfind x (hmem.2 hx))
    | some y =>
      exact congrArg some
        (huniq y (hmem.1 (List.mem_of_find?_eq_some hfind)) (List.find?_some hfind))

section
variable {A : Type}

/-! ## The currency of an answer -/

instance decidableSingleCurrency (candles : List (Candle A)) : Decidable (SingleCurrency candles) :=
  match candles with
  | [] => isTrue ⟨⟨""⟩, List.forall_mem_nil _⟩
  | c :: rest =>
    decidable_of_iff (∀ d ∈ c :: rest, d.In c.open.currency)
      ⟨fun h => ⟨_, h⟩, fun ⟨_, h⟩ => (h c List.mem_cons_self).1 ▸ h⟩

/-- The currency of an answer that has candles: that of the first one. -/
def HistoryResponse.currency (hr : HistoryResponse A) : Option Currency :=
  hr.candles.head?.map (·.open.currency)

theorem currencyStateFrom_some (cur : Currency) (cs : List (Candle A)) :
    currencyStateFrom (some cur) cs =
      if ∀ c ∈ cs, c.In cur then .consistent cur else .inconsistent := by
  induction cs with
  | nil => simp [currencyStateFrom]
  | cons c cs ih =>
    rw [currencyStateFrom]
    cases hres : ensureCandleCurrencyUniform c with
    | error e =>
      have hnot : ¬ c.In cur := fun hin => by
        rw [ensureCandleCurrencyUniform_eq_ok.2 hin.uniform] at hres
        cases hres
      simp [hnot]
    | ok _ =>
      have huni := ensureCandleCurrencyUniform_eq_ok.1 hres
      by_cases hcur : cur = c.open.currency
      · subst hcur
        have hin : c.In c.open.currency := huni
        simp [ih, hin]
      · have hnot : ¬ c.In cur := fun hin => hcur hin.1.symm
        simp [hcur, hnot]

/-- The loop over a provider's candles finds out whether they are in one currency, and in which. -/
theorem currencyStateFrom_none (hr : HistoryResponse A) :
    currencyStateFrom none hr.candles =
      if SingleCurrency hr.candles then hr.currency.elim .noData .consistent else .inconsistent := by
  rw [HistoryResponse.currency]
  cases hr.candles with
  | nil => exact (if_pos ⟨⟨""⟩, List.forall_mem_nil _⟩).symm
  | cons c cs =>
    have hsingle : SingleCurrency (c :: cs) ↔ c.Uniform ∧ ∀ d ∈ cs, d.In c.open.currency := by
      constructor
      · rintro ⟨cur, hall⟩
        have hcur : c.open.currency = cur := (hall c List.mem_cons_self).1
        subst hcur
        exact List.forall_mem_cons.1 hall
      · exact fun h => ⟨_, List.forall_mem_cons.2 h⟩
    rw [currencyStateFrom]
    cases hres : ensureCandleCurrencyUniform c with
    | error e =>
      have hnot : ¬ c.Uniform := fun huni => by
        rw [ensureCandleCurrencyUniform_eq_ok.2 huni] at hres
        cases hres
      simp [hsingle, hnot]
    | ok _ =>
      have huni := ensureCandleCurrencyUniform_eq_ok.1 hres
      simp [hsingle, huni, currencyStateFrom_some]

theorem currencyStateFrom_eq_inconsistent {hr : HistoryResponse A} :
    currencyStateFrom none hr.candles = .inconsistent ↔ ¬ SingleCurrency hr.candles := by
  rw [currencyStateFrom_none]
  split
  · next h => cases hr.currency <;> simp [h]
  · next h => simp [h]

/-! ## The map from providers to currencies -/

/-- The map over providers with distinct names has an entry for each of them, in their order. -/
theorem perProviderCurrency_eq {results : List (String × HistoryResponse A)}
    (hnames : (results.map Prod.fst).Nodup) :
    perProviderCurrency results =
      results.map fun x => (x.1, currencyStateFrom none x.2.candles) := by
  induction results using List.reverseRecOn with
  | nil => rfl
  | append_singleton results x ih =>
    rw [List.map_append, List.nodup_append'] at hnames
    obtain ⟨hnodup, -, hdisj⟩ := hnames
    -- no entry has the name of `x`, so none is replaced
    have hkeep : (perProviderCurrency results).filter (fun y => y.1 ≠ x.1) =
        perProviderCurrency results := by
      rw [ih hnodup]
      refine List.filter_eq_self.2 (List.forall_mem_map.2 fun y hy => ?_)
      have hne : y.1 ≠ x.1 := fun heq =>
        hdisj (List.mem_map_of_mem hy) (heq ▸ List.mem_cons_self)
      simpa using hne
    have hstep : perProviderCurrency (results ++ [x]) =
        (perProviderCurrency results).filter (fun y => y.1 ≠ x.1) ++
          [(x.1, currencyStateFrom none x.2.candles)] := by
      rw [perProviderCurrency, List.foldl_append]
      rfl
    rw [hstep, hkeep, ih hnodup, List.map_append]
    rfl

/-- The map holds for each provider what its candles say. -/
theorem lookup_perProviderCurrency {results : List (String × HistoryResponse A)}
    (hnames : (results.map Prod.fst).Nodup) {x : String × HistoryResponse A} (hx : x ∈ results) :
    (perProviderCurrency results).lookup x.1 = some (currencyStateFrom none x.2.candles) := by
  rw [perProviderCurrency_eq hnames]
  induction results with
  | nil => cases hx
  | cons y rest ih =>
    rw [List.map_cons, List.nodup_cons] at hnames
    rw [List.map_cons, List.lookup_cons]
    rcases List.mem_cons.1 hx with rfl | hmem
    · simp
    · have hne : x.1 ≠ y.1 := fun heq => hnames.1 (heq ▸ List.mem_map_of_mem hmem)
      rw [beq_eq_false_iff_ne.2 hne]
      exact ih hnames.2 hmem

/-! ## The two searches -/

/-- The currency of a provider whose candles are all in one. -/
def CurrencyState.currency : CurrencyState → Option Currency
  | .consistent cur => some cur
  | _ => none

/-- The search of `identify_faulty_provider` for a currency other than the reference. -/
def otherCurrency (results : List (String × HistoryResponse A)) : Option String :=
  let currencyOf (name : String) := ((perProviderCurrency results).lookup name).bind (·.currency)
  (results.findSome? fun x => currencyOf x.1).bind fun refCur =>
    results.findSome? fun x =>
      (currencyOf x.1).bind fun cur => if cur ≠ refCur then some x.1 else none

/-- What the searches of `identify_faulty_provider` find. -/
def faultyProvider (order : HashOrder) (results : List (String × HistoryResponse A)) :
    Option String :=
  (((order.iter (perProviderCurrency results)).find? fun x => x.2 = .inconsistent).map Prod.fst).or
    (otherCurrency results)

theorem findSome?_congr {α β : Type} {f g : α → Option β} {l : List α} (h : ∀ x ∈ l, f x = g x) :
    l.findSome? f = l.findSome? g := by
  induction l with
  | nil => rfl
  | cons x l ih =>
    rw [List.findSome?_cons, List.findSome?_cons, h x List.mem_cons_self,
      ih fun y hy => h y (List.mem_cons_of_mem x hy)]

/-- The answer is what the searches find, or else the last provider. -/
theorem identifyFaultyProvider_eq (order : HashOrder)
    (results : List (String × HistoryResponse A)) :
    identifyFaultyProvider order results =
      .connector ((faultyProvider order results).getD
        ((results.getLast?.map Prod.fst).getD "unknown")) .inconsistentCurrencyData := by
  rw [identifyFaultyProvider, faultyProvider]
  cases (order.iter (perProviderCurrency results)).find? fun x => x.2 = .inconsistent with
  | some bad => rfl
  | none =>
    rw [Option.map_none, Option.none_or, otherCurrency]
    dsimp only
    rw [findSome?_congr (g := fun x =>
      ((perProviderCurrency results).lookup x.1).bind (·.currency)) fun x _ => ?_]
    · cases results.findSome? fun x => ((perProviderCurrency results).lookup x.1).bind (·.currency)
        with
      | none => rfl
      | some refCur =>
        rw [Option.bind_some, Option.bind_some, findSome?_congr fun x _ => ?_]
        · cases results.findSome? _ <;> rfl
        · rcases (perProviderCurrency results).lookup x.1 with _ | (_ | _ | _) <;> rfl
    · rcases (perProviderCurrency results).lookup x.1 with _ | (_ | _ | _) <;> rfl

/-- The provider to blame by priority: the first whose candles are not in one currency, or else the
first whose currency differs from that of the first provider with data. -/
def priorityBlame (results : List (String × HistoryResponse A)) : Option String :=
  let referenceCurrency := results.findSome? (·.2.currency)
  ((results.find? fun x => ¬ SingleCurrency x.2.candles).or
    (results.find? fun x => x.2.currency.any fun cur => referenceCurrency ≠ some cur)).map Prod.fst

variable {results : List (String × HistoryResponse A)}

/-- The first search finds nothing exactly when every provider's candles are in one currency. -/
theorem find?_perProviderCurrency_eq_none (hnames : (results.map Prod.fst).Nodup)
    (order : HashOrder) :
    ((order.iter (perProviderCurrency results)).find? fun x => x.2 = .inconsistent) = none ↔
      ∀ x ∈ results, SingleCurrency x.2.candles := by
  have hmem {y : String × CurrencyState} :
      y ∈ order.iter (perProviderCurrency results) ↔ y ∈ perProviderCurrency results :=
    (order.perm _).mem_iff
  rw [List.find?_eq_none]
  simp only [hmem]
  rw [perProviderCurrency_eq hnames, List.forall_mem_map]
  simp only [decide_eq_true_eq, currencyStateFrom_eq_inconsistent, not_not]

/-- The first search is the same in every order exactly when only one provider mixes currencies. -/
theorem find?_perProviderCurrency_iff (hnames : (results.map Prod.fst).Nodup) {name : String} :
    (∀ order : HashOrder, ((order.iter (perProviderCurrency results)).find? fun x =>
        x.2 = .inconsistent).map Prod.fst = some name) ↔
      (∃ x ∈ results, x.1 = name ∧ ¬ SingleCurrency x.2.candles) ∧
        ∀ y ∈ results, ¬ SingleCurrency y.2.candles → y.1 = name := by
  have hentry (order : HashOrder) : ((order.iter (perProviderCurrency results)).find? fun x =>
        x.2 = .inconsistent).map Prod.fst = some name ↔
      ((order.iter (perProviderCurrency results)).find? fun x => x.2 = .inconsistent) =
        some (name, .inconsistent) := by
    rw [Option.map_eq_some_iff]
    constructor
    · rintro ⟨⟨bad, state⟩, hfind, rfl⟩
      have hstate : state = .inconsistent := by simpa using List.find?_some hfind
      rw [hfind, hstate]
    · exact fun hfind => ⟨_, hfind, rfl⟩
  simp only [hentry]
  rw [HashOrder.find?_iter_iff, perProviderCurrency_eq hnames, List.forall_mem_map]
  simp only [List.mem_map, Prod.mk.injEq, decide_eq_true_eq, and_true,
    currencyStateFrom_eq_inconsistent]
  refine and_congr_right fun _ => forall₂_congr fun y _ => ⟨fun h hy => (h hy).1, fun h hy => ?_⟩
  exact ⟨h hy, hy⟩

/-- The map holds the currency of a provider whose candles are all in one. -/
theorem currency_perProviderCurrency (hnames : (results.map Prod.fst).Nodup)
    {x : String × HistoryResponse A} (hx : x ∈ results) (hsingle : SingleCurrency x.2.candles) :
    ((perProviderCurrency results).lookup x.1).bind (·.currency) = x.2.currency := by
  rw [lookup_perProviderCurrency hnames hx, currencyStateFrom_none, if_pos hsingle]
  cases x.2.currency <;> rfl

/-- Where no provider mixes currencies on its own, the second search is the one by priority. -/
theorem otherCurrency_eq (hnames : (results.map Prod.fst).Nodup)
    (hsingle : ∀ x ∈ results, SingleCurrency x.2.candles) :
    otherCurrency results = priorityBlame results := by
  have hmap (x : String × HistoryResponse A) (hx : x ∈ results) :=
    currency_perProviderCurrency hnames hx (hsingle x hx)
  have hnone : (results.find? fun x => ¬ SingleCurrency x.2.candles) = none :=
    List.find?_eq_none.2 fun x hx => by simpa using hsingle x hx
  rw [otherCurrency, priorityBlame, hnone, Option.none_or, findSome?_congr hmap,
    List.find?_eq_findSome?_guard, List.map_findSome?]
  dsimp only
  cases href : results.findSome? (·.2.currency) with
  | none =>
    refine (List.findSome?_eq_none_iff.2 fun x hx => ?_).symm
    simp [List.findSome?_eq_none_iff.1 href x hx]
  | some refCur =>
    rw [Option.bind_some]
    refine findSome?_congr fun x hx => ?_
    rw [hmap x hx]
    cases hcur : x.2.currency with
    | none => simp [Option.guard, hcur]
    | some cur =>
      by_cases heq : cur = refCur
      · simp [Option.guard, hcur, heq]
      · simp [Option.guard, hcur, heq, Ne.symm heq]

/-- After a failed merge, priority blames some provider. -/
theorem isSome_priorityBlame [LinearOrder A] [DefaultHasher A]
    (hmixed : mergeHistory (results.map Prod.snd) = .error mixedCurrencyHistory) :
    (priorityBlame results).isSome := by
  have hnot : ¬ Mergeable (candlesOf (results.map Prod.snd)) := fun hmerge => by
    rcases mergeHistory_eq (results.map Prod.snd) with ⟨-, hok⟩ | ⟨hfail, -⟩
    · cases hok.symm.trans hmixed
    · exact hfail hmerge
  by_contra hnone
  rw [Option.not_isSome_iff_eq_none, priorityBlame, Option.map_eq_none_iff, Option.or_eq_none_iff,
    List.find?_eq_none, List.find?_eq_none] at hnone
  obtain ⟨hsingle, hsame⟩ := hnone
  refine hnot (SingleCurrency.mergeable ?_)
  -- all candles are in the currency of the first provider that has any
  refine ⟨(results.findSome? (·.2.currency)).getD ⟨""⟩, fun c hc => ?_⟩
  obtain ⟨hr, hmem, hc⟩ := List.mem_flatMap.1 hc
  obtain ⟨x, hx, rfl⟩ := List.mem_map.1 hmem
  obtain ⟨cur, hall⟩ : SingleCurrency x.2.candles := by simpa using hsingle x hx
  have hcur : x.2.currency = some cur := by
    rw [HistoryResponse.currency]
    cases hcs : x.2.candles with
    | nil => rw [hcs] at hc; cases hc
    | cons d ds => exact congrArg some (hall d (hcs ▸ List.mem_cons_self)).1
  have href : results.findSome? (·.2.currency) = some cur := by
    simpa [hcur] using hsame x hx
  rw [href]
  exact hall c hc

/-- Where no provider mixes currencies on its own, the searches go by priority. -/
theorem faultyProvider_of_single (hnames : (results.map Prod.fst).Nodup)
    (hsingle : ∀ x ∈ results, SingleCurrency x.2.candles) (order : HashOrder) :
    faultyProvider order results = priorityBlame results := by
  rw [faultyProvider, (find?_perProviderCurrency_eq_none hnames order).2 hsingle, Option.map_none,
    Option.none_or]
  exact otherCurrency_eq hnames hsingle

/-- Where some provider does, the first search decides. -/
theorem faultyProvider_of_mixed (hnames : (results.map Prod.fst).Nodup)
    {x : String × HistoryResponse A} (hx : x ∈ results) (hmix : ¬ SingleCurrency x.2.candles)
    (order : HashOrder) :
    faultyProvider order results =
        ((order.iter (perProviderCurrency results)).find? fun x => x.2 = .inconsistent).map Prod.fst ∧
      (faultyProvider order results).isSome := by
  have hfound := mt (find?_perProviderCurrency_eq_none hnames order).1 fun h => hmix (h x hx)
  obtain ⟨bad, hbad⟩ := Option.ne_none_iff_exists'.1 hfound
  rw [faultyProvider, hbad]
  exact ⟨rfl, rfl⟩

/-! ## The result -/

/-- Priority blames a provider, the searches find it in every order of the map, and it is the one
that is named. -/
def BlamesByPriority (results : List (String × HistoryResponse A)) : Prop :=
  ∃ name, priorityBlame results = some name ∧
    ∀ order, faultyProvider order results = some name ∧
      identifyFaultyProvider order results = .connector name .inconsistentCurrencyData

/-- What is named is what the searches find. -/
theorem blamesByPriority_iff_forall :
    BlamesByPriority results ↔
      ∃ name, priorityBlame results = some name ∧
        ∀ order, faultyProvider order results = some name := by
  refine exists_congr fun name => and_congr_right fun _ => forall_congr' fun order => ?_
  refine and_iff_left_of_imp fun hfaulty => ?_
  rw [identifyFaultyProvider_eq, hfaulty]
  rfl

end

section
variable {A : Type} [LinearOrder A] [DefaultHasher A]

/-- When a failed merge is blamed by priority, whatever the order of the map: when at most one
provider mixes currencies on its own. In every case the searches find a provider, so that the last
resort is not needed. -/
theorem blamesByPriority_iff {results : List (String × HistoryResponse A)}
    (hnames : (results.map Prod.fst).Nodup)
    (hmixed : mergeHistory (results.map Prod.snd) = .error mixedCurrencyHistory) :
    (∀ order, (faultyProvider order results).isSome) ∧
      (BlamesByPriority results ↔
        ∀ x ∈ results, ∀ y ∈ results, ¬ SingleCurrency x.2.candles → ¬ SingleCurrency y.2.candles →
          x.1 = y.1) := by
  have hsome := isSome_priorityBlame hmixed
  rw [blamesByPriority_iff_forall]
  by_cases hsingle : ∀ x ∈ results, SingleCurrency x.2.candles
  · have hfaulty := faultyProvider_of_single hnames hsingle
    refine ⟨fun order => by rwa [hfaulty order], iff_of_true ?_ fun x hx _ _ hmix => ?_⟩
    · obtain ⟨name, hname⟩ := Option.isSome_iff_exists.1 hsome
      exact ⟨name, hname, fun order => (hfaulty order).trans hname⟩
    · exact absurd (hsingle x hx) hmix
  · obtain ⟨z, hz, hmix⟩ : ∃ x ∈ results, ¬ SingleCurrency x.2.candles := by
      simpa only [not_forall, exists_prop] using hsingle
    have hfaulty := faultyProvider_of_mixed hnames hz hmix
    refine ⟨fun order => (hfaulty order).2, ?_⟩
    have hfirst := @find?_perProviderCurrency_iff A results hnames
    simp only [fun order => (hfaulty order).1]
    constructor
    · rintro ⟨name, -, hall⟩ x hx y hy hmixx hmixy
      have huniq := (hfirst.1 hall).2
      exact (huniq x hx hmixx).trans (huniq y hy hmixy).symm
    · intro huniq
      -- the first provider that mixes currencies is the only one
      obtain ⟨x, hx⟩ : ∃ x, (results.find? fun x => ¬ SingleCurrency x.2.candles) = some x :=
        Option.isSome_iff_exists.1 (List.find?_isSome.2 ⟨z, hz, by simpa using hmix⟩)
      have hmem := List.mem_of_find?_eq_some hx
      have hmixx : ¬ SingleCurrency x.2.candles := by simpa using List.find?_some hx
      refine ⟨x.1, ?_, hfirst.2 ⟨⟨x, hmem, rfl, hmixx⟩, fun y hy hmixy => ?_⟩⟩
      · rw [priorityBlame, hx]
        rfl
      · exact huniq y hy x hmem hmixy hmixx

/-- A provider's answer: candles a second apart, in the given currencies. -/
def answerIn (name : String) (currencies : List String) : String × HistoryResponse ℕ :=
  ⟨name, currencies.zipIdx.map fun x =>
    .flat ((DateTime.fromTimestamp x.2).getD (.ofTimestamp 0 DateTime.epoch_inCalendar)) ⟨10, ⟨x.1⟩⟩,
    [], false, none⟩

/-- Only the second provider mixes currencies: it is blamed. -/
theorem secondMixes_blamed :
    priorityBlame [answerIn "a" ["USD"], answerIn "b" ["USD", "EUR"]] = some "b" ∧
      BlamesByPriority [answerIn "a" ["USD"], answerIn "b" ["USD", "EUR"]] := by
  have hmixed : mergeHistory ([answerIn "a" ["USD"], answerIn "b" ["USD", "EUR"]].map Prod.snd) =
      .error mixedCurrencyHistory := rfl
  exact ⟨by decide, (blamesByPriority_iff (by decide) hmixed).2.2 (by decide)⟩

/-- Both providers mix currencies: which one is named depends on the order of the map. -/
theorem bothMix_not_blamesByPriority :
    ¬ ∀ results : List (String × HistoryResponse ℕ), (results.map Prod.fst).Nodup →
      mergeHistory (results.map Prod.snd) = .error mixedCurrencyHistory →
      BlamesByPriority results := by
  intro h
  obtain ⟨name, -, hall⟩ :=
    h [answerIn "a" ["USD", "EUR"], answerIn "b" ["USD", "EUR"]] (by decide) rfl
  have hfirst : some "a" = some name := (hall .insertion).1
  have hsecond : some "b" = some name := (hall (.rotated 1)).1
  exact absurd (hfirst.trans hsecond.symm) (by decide)

end

end Borsa
