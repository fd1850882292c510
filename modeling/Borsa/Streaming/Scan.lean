import Borsa.Streaming.Supervisor

/-!
# The start scan

What `compute_needed_starts` does, said once. A provider needs a symbol when the symbol is assigned
to it and no provider of a lower index covers it (`Needs`); the source's test on the coverage count
adds nothing, since a symbol covered by a lower index is covered. The scan is a sequence of single
starts (`Starts`), each of an idle provider with work, and it leaves no work to any idle provider it
visits (`computeNeededStarts_spec`). Work only shrinks while the scan runs, because a start adds
coverage and takes none away.
-/

namespace Borsa

/-- What a list reads after one of its entries has been replaced. -/
theorem getElem?_set_eq_some {α : Type} {l : List α} {i j : Nat} {a b : α} :
    (l.set i a)[j]? = some b ↔ (i = j ∧ j < l.length ∧ a = b) ∨ (i ≠ j ∧ l[j]? = some b) := by
  rw [List.getElem?_set]
  split
  · next h => simp [h]
  · next h => simp [h]

/-! ## Coverage -/

/-- The provider streams or is about to stream `sym`. -/
def ProviderState.Covers (p : ProviderState) (sym : Symbol) : Prop :=
  ∃ syms, p.symbols? = some syms ∧ sym ∈ syms

/-- The provider is connecting or active. -/
def ProviderState.Live (p : ProviderState) : Prop := p.symbols?.isSome

instance (p : ProviderState) : Decidable p.Live := inferInstanceAs (Decidable (_ = true))

@[simp] theorem ProviderState.covers_connecting {syms : List Symbol} {sym : Symbol} :
    (ProviderState.connecting syms).Covers sym ↔ sym ∈ syms := by
  simp [Covers, symbols?]

@[simp] theorem ProviderState.covers_active {syms : List Symbol} {sym : Symbol} :
    (ProviderState.active syms).Covers sym ↔ sym ∈ syms := by
  simp [Covers, symbols?]

@[simp] theorem ProviderState.not_covers_idle {sym : Symbol} :
    ¬ ProviderState.idle.Covers sym := by simp [Covers, symbols?]

@[simp] theorem ProviderState.not_covers_idleFromCooldown {sym : Symbol} :
    ¬ ProviderState.idleFromCooldown.Covers sym := by simp [Covers, symbols?]

@[simp] theorem ProviderState.not_covers_inCooldown {sym : Symbol} :
    ¬ ProviderState.inCooldown.Covers sym := by simp [Covers, symbols?]

/-- An idle provider covers nothing. -/
theorem ProviderState.not_covers_of_idle {p : ProviderState} (h : isProviderIdle p = true)
    (sym : Symbol) : ¬ p.Covers sym := by
  cases p <;> simp_all [isProviderIdle]

/-- A provider of an index below `i` covers `sym`. -/
def CoveredBefore (ps : List ProviderState) (i : Nat) (sym : Symbol) : Prop :=
  ∃ j p, j < i ∧ ps[j]? = some p ∧ p.Covers sym

/-- Coverage below an index is coverage below any higher one. -/
theorem CoveredBefore.mono {ps : List ProviderState} {i j : Nat} {sym : Symbol} (hij : i ≤ j)
    (h : CoveredBefore ps i sym) : CoveredBefore ps j sym := by
  obtain ⟨k, p, hk, hp, hc⟩ := h
  exact ⟨k, p, by omega, hp, hc⟩

/-- Replacing a provider that covers nothing takes no coverage away. -/
theorem CoveredBefore.set_of_not_covers {ps : List ProviderState} {i k : Nat} {sym : Symbol}
    {p q : ProviderState} (hk : ps[k]? = some p) (hp : ¬ p.Covers sym)
    (h : CoveredBefore ps i sym) : CoveredBefore (ps.set k q) i sym := by
  obtain ⟨j, r, hj, hr, hc⟩ := h
  have hjk : k ≠ j := by
    rintro rfl
    rw [hk] at hr
    cases hr
    exact hp hc
  exact ⟨j, r, hj, by rw [List.getElem?_set_ne hjk]; exact hr, hc⟩

/-- Coverage after a replacement is coverage by the new state, or by another provider. -/
theorem coveredBefore_set {ps : List ProviderState} {i k : Nat} {sym : Symbol}
    {q : ProviderState} :
    CoveredBefore (ps.set k q) i sym ↔ (k < i ∧ k < ps.length ∧ q.Covers sym) ∨
      ∃ j p, j < i ∧ j ≠ k ∧ ps[j]? = some p ∧ p.Covers sym := by
  constructor
  · rintro ⟨j, p, hj, hp, hc⟩
    rcases getElem?_set_eq_some.1 hp with ⟨rfl, hlt, rfl⟩ | ⟨hkj, hp⟩
    · exact .inl ⟨hj, hlt, hc⟩
    · exact .inr ⟨j, p, hj, hkj.symm, hp, hc⟩
  · rintro (⟨hk, hlt, hc⟩ | ⟨j, p, hj, hjk, hp, hc⟩)
    · exact ⟨k, q, hk, by rw [List.getElem?_set_self hlt], hc⟩
    · exact ⟨j, p, hj, by rw [List.getElem?_set_ne (Ne.symm hjk)]; exact hp, hc⟩

namespace Supervisor

variable {K E : Type}

/-! ## Need -/

/-- The provider has an instrument for `sym`, may stream it, and it is required. Nothing a run does
changes this. -/
def Assigned (self : Supervisor K E) (id : Nat) (sym : Symbol) : Prop :=
  ∃ allow insts, self.providerAllow[id]? = some allow ∧
    self.providerInstruments[id]? = some insts ∧
    sym ∈ symbolsOf insts ∧ sym ∈ allow ∧ sym ∈ self.requiredSymbols

/-- The symbol is assigned to the provider and no provider of a lower index covers it. -/
def Needs (self : Supervisor K E) (id : Nat) (sym : Symbol) : Prop :=
  self.Assigned id sym ∧ ¬ CoveredBefore self.providers id sym

/-- The provider is idle. -/
def IsIdle (self : Supervisor K E) (id : Nat) : Prop :=
  ∃ p, self.providers[id]? = some p ∧ isProviderIdle p = true

/-- The provider is idle, can stream and has needed instruments. -/
structure IdleWithWork (s : Supervisor K E) (id : Nat) : Prop where
  idle : s.IsIdle id
  canStream : s.canProviderStream id = true
  work : s.computeNeededInstrumentsFor id ≠ []

theorem providerHasSymbolBefore_iff {self : Supervisor K E} {i : Nat} {sym : Symbol} :
    self.providerHasSymbolBefore i sym = true ↔ CoveredBefore self.providers i sym := by
  simp only [providerHasSymbolBefore, List.any_eq_true, Prod.exists, Bool.and_eq_true,
    decide_eq_true_eq, List.mk_mem_zipIdx_iff_getElem?]
  constructor
  · rintro ⟨p, j, hp, hj, hc⟩
    refine ⟨j, p, hj, hp, ?_⟩
    cases p <;> simp_all
  · rintro ⟨j, p, hj, hp, hc⟩
    refine ⟨p, j, hp, hj, ?_⟩
    cases p <;> simp_all

/-- A symbol with a coverage count of zero is covered nowhere. -/
theorem computeCoverageCount_pos {self : Supervisor K E} {i : Nat} {sym : Symbol}
    (h : CoveredBefore self.providers i sym) : 0 < self.computeCoverageCount sym := by
  obtain ⟨j, p, -, hp, syms, hs, hmem⟩ := h
  refine List.length_pos_of_mem (a := syms) ?_
  simp only [List.mem_filter, List.mem_filterMap, List.any_eq_true, beq_iff_eq]
  exact ⟨⟨p, List.mem_of_getElem? hp, hs⟩, sym, hmem, rfl⟩

/-- `should_include_instrument`, without the coverage count. -/
theorem shouldIncludeInstrument_iff {self : Supervisor K E} {id : Nat} {inst : Instrument K E}
    {allow : Finset Symbol} :
    self.shouldIncludeInstrument id inst allow = true ↔
      ∃ sym, symbolOpt inst = some sym ∧ sym ∈ allow ∧ sym ∈ self.requiredSymbols ∧
        ¬ CoveredBefore self.providers id sym := by
  unfold shouldIncludeInstrument
  cases hsym : symbolOpt inst with
  | none => simp
  | some sym =>
    simp only [Option.some.injEq, exists_eq_left']
    split
    · next h => rcases h with h | h <;> simp [h]
    · next h =>
      rw [not_or, not_not, not_not] at h
      simp only [h, true_and]
      split
      · next hz =>
        have hz : ¬ 0 < self.computeCoverageCount sym := by simpa using hz
        simp only [true_iff]
        exact fun hc => hz (computeCoverageCount_pos hc)
      · rw [← providerHasSymbolBefore_iff]; simp

/-- An instrument is needed exactly when it is assigned and its symbol is needed. -/
theorem mem_computeNeededInstrumentsFor {self : Supervisor K E} {id : Nat}
    {inst : Instrument K E} :
    inst ∈ self.computeNeededInstrumentsFor id ↔
      ∃ allow insts sym, self.providerAllow[id]? = some allow ∧
        self.providerInstruments[id]? = some insts ∧ inst ∈ insts ∧
        symbolOpt inst = some sym ∧ sym ∈ allow ∧ sym ∈ self.requiredSymbols ∧
        ¬ CoveredBefore self.providers id sym := by
  unfold computeNeededInstrumentsFor
  split
  · next allow insts ha hi =>
    simp only [List.mem_filter, shouldIncludeInstrument_iff, ha, hi, Option.some.injEq,
      exists_eq_left', exists_and_left]
  · next hne =>
    simp only [List.not_mem_nil, false_iff]
    rintro ⟨allow, insts, sym, ha, hi, -⟩
    exact hne allow insts ha hi

/-- The symbols of the needed instruments are the needed symbols. -/
theorem mem_symbolsOf_needed {self : Supervisor K E} {id : Nat} {sym : Symbol} :
    sym ∈ symbolsOf (self.computeNeededInstrumentsFor id) ↔ self.Needs id sym := by
  simp only [mem_symbolsOf, mem_computeNeededInstrumentsFor, Needs, Assigned]
  constructor
  · rintro ⟨inst, ⟨allow, insts, sym', ha, hi, hin, hs', hal, hr, hc⟩, hs⟩
    obtain rfl : sym' = sym := Option.some.inj (hs'.symm.trans hs)
    exact ⟨⟨allow, insts, ha, hi, ⟨inst, hin, hs⟩, hal, hr⟩, hc⟩
  · rintro ⟨⟨allow, insts, ha, hi, ⟨inst, hin, hs⟩, hal, hr⟩, hc⟩
    exact ⟨inst, ⟨allow, insts, sym, ha, hi, hin, hs, hal, hr, hc⟩, hs⟩

/-- A provider has needed instruments exactly when it needs some symbol. -/
theorem needed_ne_nil_iff {self : Supervisor K E} {id : Nat} :
    self.computeNeededInstrumentsFor id ≠ [] ↔ ∃ sym, self.Needs id sym := by
  constructor
  · intro h
    obtain ⟨inst, hin⟩ := List.exists_mem_of_ne_nil _ h
    obtain ⟨_, _, sym, -, -, -, hs, -⟩ := mem_computeNeededInstrumentsFor.1 hin
    exact ⟨sym, mem_symbolsOf_needed.1 (mem_symbolsOf.2 ⟨inst, hin, hs⟩)⟩
  · rintro ⟨sym, hn⟩ hnil
    rw [← mem_symbolsOf_needed, hnil] at hn
    cases hn

theorem hasIdleProvidersWithWork_iff {self : Supervisor K E} :
    self.hasIdleProvidersWithWork = true ↔ ∃ id, self.IdleWithWork id := by
  simp only [hasIdleProvidersWithWork, List.any_eq_true, Prod.exists, Bool.and_eq_true,
    List.mk_mem_zipIdx_iff_getElem?, providerHasAvailableWork, Bool.not_eq_true',
    List.isEmpty_eq_false_iff]
  constructor
  · rintro ⟨p, i, hp, ⟨hi, hc⟩, hw⟩
    exact ⟨i, ⟨p, hp, hi⟩, hc, hw⟩
  · rintro ⟨i, ⟨p, hp, hi⟩, hc, hw⟩
    exact ⟨p, i, hp, ⟨hi, hc⟩, hw⟩

/-! ## Single starts -/

/-- The provider is marked as connecting for the instruments it needs. -/
def connect (self : Supervisor K E) (id : Nat) : Supervisor K E :=
  { self with
    providers :=
      self.providers.set id (.connecting (symbolsOf (self.computeNeededInstrumentsFor id))) }

/-- A sequence of starts: each is of a provider that is idle with work at that moment, for exactly
the instruments it needs then. -/
inductive Starts : Supervisor K E → List (Action K E) → Supervisor K E → Prop
  | nil (self : Supervisor K E) : Starts self [] self
  | cons {self next : Supervisor K E} {id : Nat} {reqs : List (Action K E)} :
      self.IdleWithWork id → Starts (self.connect id) reqs next →
      Starts self (.requestStart id (self.computeNeededInstrumentsFor id) :: reqs) next

/-- A start takes no coverage away. -/
theorem coveredBefore_connect {self : Supervisor K E} {id i : Nat} {sym : Symbol}
    (hid : self.IsIdle id) (h : CoveredBefore self.providers i sym) :
    CoveredBefore (self.connect id).providers i sym := by
  obtain ⟨p, hp, hidle⟩ := hid
  exact h.set_of_not_covers hp (ProviderState.not_covers_of_idle hidle sym)

/-- A provider that is idle after a start was idle before it. -/
theorem isIdle_of_connect {self : Supervisor K E} {id i : Nat} (h : (self.connect id).IsIdle i) :
    self.IsIdle i ∧ i ≠ id := by
  obtain ⟨p, hp, hidle⟩ := h
  rcases getElem?_set_eq_some.1 hp with ⟨rfl, -, rfl⟩ | ⟨hi, hp⟩
  · cases hidle
  · exact ⟨⟨p, hp, hidle⟩, hi.symm⟩

/-- Work only shrinks: a start creates no idle provider with work. -/
theorem IdleWithWork.of_connect {self : Supervisor K E} {id i : Nat} (hid : self.IsIdle id)
    (h : (self.connect id).IdleWithWork i) : self.IdleWithWork i := by
  obtain ⟨hi, hc, hw⟩ := h
  obtain ⟨sym, ha, hn⟩ := needed_ne_nil_iff.1 hw
  exact ⟨(isIdle_of_connect hi).1, hc,
    needed_ne_nil_iff.2 ⟨sym, ha, fun hcov => hn (coveredBefore_connect hid hcov)⟩⟩

namespace Starts

variable {self mid next : Supervisor K E} {reqs reqs' : List (Action K E)}

theorem trans (h : Starts self reqs mid) (h' : Starts mid reqs' next) :
    Starts self (reqs ++ reqs') next := by
  induction h with
  | nil => exact h'
  | cons hid _ ih => exact .cons hid (ih h')

/-- Starts change nothing but the providers' states. -/
theorem frame (h : Starts self reqs next) : next = { self with providers := next.providers } := by
  induction h with
  | nil => rfl
  | cons _ _ ih => rw [ih]; rfl

theorem length_eq (h : Starts self reqs next) :
    next.providers.length = self.providers.length := by
  induction h with
  | nil => rfl
  | cons _ _ ih => rw [ih, connect, List.length_set]

/-- Starts take no coverage away. -/
theorem coveredBefore (h : Starts self reqs next) {i : Nat} {sym : Symbol}
    (hc : CoveredBefore self.providers i sym) : CoveredBefore next.providers i sym := by
  induction h with
  | nil => exact hc
  | cons hid _ ih => exact ih (coveredBefore_connect hid.idle hc)

/-- Starts create no idle provider with work. -/
theorem idleWithWork (h : Starts self reqs next) {i : Nat} (hw : next.IdleWithWork i) :
    self.IdleWithWork i := by
  induction h with
  | nil => exact hw
  | cons hid _ ih => exact (ih hw).of_connect hid.idle

/-- Starts touch only idle providers: any other provider keeps its state. -/
theorem getElem?_of_not_idle (h : Starts self reqs next) {i : Nat} (hi : ¬ self.IsIdle i) :
    next.providers[i]? = self.providers[i]? := by
  induction h with
  | nil => rfl
  | @cons self next id reqs hid _ ih =>
    have hne : id ≠ i := by
      rintro rfl
      exact hi hid.idle
    rw [ih fun h => hi (isIdle_of_connect h).1, connect, List.getElem?_set_ne hne]

/-- A provider's state after some starts: the old one, or connecting for symbols assigned to it if it
was idle with work. -/
theorem getElem?_cases (h : Starts self reqs next) (i : Nat) :
    next.providers[i]? = self.providers[i]? ∨
      (self.IdleWithWork i ∧ ∃ syms, next.providers[i]? = some (.connecting syms) ∧ syms ≠ [] ∧
        ∀ sym ∈ syms, self.Assigned i sym) := by
  induction h with
  | nil => exact .inl rfl
  | @cons self next id reqs hid hrest ih =>
    rcases eq_or_ne i id with rfl | hi
    · obtain ⟨p, hp, -⟩ := hid.idle
      obtain ⟨hlt, -⟩ := List.getElem?_eq_some_iff.1 hp
      obtain ⟨sym, hneed⟩ := needed_ne_nil_iff.1 hid.work
      refine .inr ⟨hid, symbolsOf (self.computeNeededInstrumentsFor i), ?_,
        List.ne_nil_of_mem (mem_symbolsOf_needed.2 hneed),
        fun sym hsym => (mem_symbolsOf_needed.1 hsym).1⟩
      rw [hrest.getElem?_of_not_idle fun h => (isIdle_of_connect h).2 rfl, connect,
        List.getElem?_set_self hlt]
    · rcases ih with heq | ⟨hw, hc⟩
      · left
        rw [heq, connect, List.getElem?_set_ne (Ne.symm hi)]
      · exact .inr ⟨hw.of_connect hid.idle, hc⟩

/-- After a provider's start every symbol assigned to it is covered, by itself or by a provider of a
lower index. -/
theorem coveredBefore_succ (h : Starts self reqs next) {i : Nat} {sym : Symbol} {syms : List Symbol}
    (hidle : self.IsIdle i) (hsym : self.Assigned i sym)
    (hnext : next.providers[i]? = some (.connecting syms)) :
    CoveredBefore next.providers (i + 1) sym := by
  induction h with
  | nil self =>
    obtain ⟨p, hp, hi⟩ := hidle
    rw [hnext] at hp
    cases hp
    cases hi
  | @cons self next id reqs hid hrest ih =>
    rcases eq_or_ne id i with rfl | hne
    · refine hrest.coveredBefore ?_
      by_cases hc : CoveredBefore self.providers id sym
      · exact (coveredBefore_connect hid.idle hc).mono (Nat.le_succ id)
      · obtain ⟨p, hp, -⟩ := hid.idle
        obtain ⟨hlt, -⟩ := List.getElem?_eq_some_iff.1 hp
        exact ⟨id, _, Nat.lt_succ_self id, List.getElem?_set_self hlt,
          ProviderState.covers_connecting.2 (mem_symbolsOf_needed.2 ⟨hsym, hc⟩)⟩
    · obtain ⟨p, hp, hi⟩ := hidle
      exact ih ⟨p, by rw [connect, List.getElem?_set_ne hne]; exact hp, hi⟩ hsym hnext

end Starts

/-! ## The scan -/

/-- One visit starts the provider if it is idle with work, and does nothing otherwise. -/
theorem visitProvider_eq (self : Supervisor K E) (actions : List (Action K E)) (i : Nat) :
    (self.IdleWithWork i ∧ visitProvider i (self, actions) =
      (self.connect i, actions ++ [.requestStart i (self.computeNeededInstrumentsFor i)])) ∨
    (¬ self.IdleWithWork i ∧ visitProvider i (self, actions) = (self, actions)) := by
  unfold visitProvider
  dsimp only
  cases hp : self.providers[i]? with
  | none =>
    refine .inr ⟨?_, rfl⟩
    rintro ⟨⟨p, hp', -⟩, -, -⟩
    rw [hp] at hp'
    cases hp'
  | some p =>
    dsimp only
    split
    · next h =>
      rw [Bool.and_eq_true] at h
      split
      · next hnil =>
        refine .inr ⟨fun hw => hw.work (List.isEmpty_iff.1 hnil), rfl⟩
      · next hne =>
        refine .inl ⟨⟨⟨p, hp, h.1⟩, h.2, fun hnil => hne ?_⟩, rfl⟩
        rw [hnil]; rfl
    · next h =>
      refine .inr ⟨?_, rfl⟩
      rintro ⟨⟨q, hq, hidle⟩, hcan, -⟩
      rw [hp] at hq
      cases hq
      exact h (by rw [hidle, hcan]; rfl)

/-- Visiting a list of indices is a sequence of starts, after which no visited provider is idle with
work, and it touches no other provider. -/
theorem foldl_visitProvider (is : List Nat) (self : Supervisor K E)
    (actions : List (Action K E)) :
    ∃ next reqs, is.foldl (fun acc i => visitProvider i acc) (self, actions) =
        (next, actions ++ reqs) ∧
      Starts self reqs next ∧ (∀ i ∈ is, ¬ next.IdleWithWork i) ∧
      ∀ i, i ∉ is → next.providers[i]? = self.providers[i]? := by
  induction is generalizing self actions with
  | nil => exact ⟨self, [], by simp, .nil self, by simp, fun _ _ => rfl⟩
  | cons i is ih =>
    rw [List.foldl_cons]
    rcases visitProvider_eq self actions i with ⟨hw, heq⟩ | ⟨hw, heq⟩
    · obtain ⟨next, reqs, hfold, hs, hdone, hframe⟩ :=
        ih (self.connect i) (actions ++ [.requestStart i (self.computeNeededInstrumentsFor i)])
      refine ⟨next, .requestStart i (self.computeNeededInstrumentsFor i) :: reqs, ?_,
        .cons hw hs, ?_, fun j hj => ?_⟩
      · rw [heq, hfold, List.append_assoc]; rfl
      · intro j hj hwj
        rcases List.mem_cons.1 hj with rfl | hj
        · exact (isIdle_of_connect (hs.idleWithWork hwj).idle).2 rfl
        · exact hdone j hj hwj
      · rw [List.mem_cons, not_or] at hj
        rw [hframe j hj.2, connect, List.getElem?_set_ne (Ne.symm hj.1)]
    · obtain ⟨next, reqs, hfold, hs, hdone, hframe⟩ := ih self actions
      refine ⟨next, reqs, by rw [heq, hfold], hs, ?_,
        fun j hj => hframe j fun hm => hj (List.mem_cons_of_mem _ hm)⟩
      intro j hj hwj
      rcases List.mem_cons.1 hj with rfl | hj
      · exact hw (hs.idleWithWork hwj)
      · exact hdone j hj hwj

/-- The indices the scan visits: from the cursor on, cyclically, up to the start index. -/
def scanned (self : Supervisor K E) : List Nat :=
  Cyclic.arc self.providers.length (self.scanCursor % self.providers.length)
    (self.startIndex % self.providers.length)

/-- The scan ends within its iterations and visits the scanned indices in order. -/
theorem computeNeededStarts_eq {self : Supervisor K E} (hn : self.providers ≠ [])
    (hr : self.roundExhausted = false) :
    self.computeNeededStarts =
      self.scanned.foldl (fun acc i => visitProvider i acc) (self, []) := by
  have hpos : 0 < self.providers.length := List.length_pos_iff.2 hn
  unfold computeNeededStarts
  rw [if_neg (by simp [hr, hn]), Cyclic.loop_eq (Nat.mod_lt _ hpos) _ (Nat.le_refl _)]
  rfl

/-- What the scan does: some starts of providers it visits, none of which it leaves idle with
work. -/
theorem computeNeededStarts_spec {self : Supervisor K E} (hn : self.providers ≠ [])
    (hr : self.roundExhausted = false) :
    Starts self self.computeNeededStarts.2 self.computeNeededStarts.1 ∧
      (∀ i ∈ self.scanned, ¬ self.computeNeededStarts.1.IdleWithWork i) ∧
      ∀ i, i ∉ self.scanned →
        self.computeNeededStarts.1.providers[i]? = self.providers[i]? := by
  obtain ⟨next, reqs, heq, hs, hdone, hframe⟩ := foldl_visitProvider self.scanned self []
  rw [computeNeededStarts_eq hn hr, heq]
  exact ⟨hs, hdone, hframe⟩

end Supervisor

end Borsa
