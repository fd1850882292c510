import Borsa.Middleware.QuotaBudget
import Borsa.Middleware.Stack

/-!
# The accounts of the composed stack

`Composed` is a cache around a blacklist around a quota around the raw connector. A call has one of a
few outcomes (`Composed.Outcome`), and from them follows what reaches the raw connector, what it costs
and what is stored (`stack_accounts`). The quota layer inside the stack runs as one by itself, and its
charges are the calls of the user that reach the raw connector.
-/

namespace Borsa

open LTS

/-- The rejection of a call by the blacklist or the quota. -/
def BorsaError.IsRejection (e : BorsaError) : Prop :=
  (∃ ms, e = .temporarilyBlacklisted ms) ∨ ∃ remaining ms, e = .quotaExceeded remaining ms

/-- The quota has no unit left at the instant. -/
def QuotaRuntime.Spent (rt : QuotaRuntime) (now : ℕ) : Prop :=
  (rt.reset now).SliceSpent ∨ (rt.reset now).WindowSpent

theorem QuotaRuntime.shouldAllowCall_of_spent {rt : QuotaRuntime} {now : ℕ} (h : rt.Spent now) :
    ∃ remaining ms, rt.shouldAllowCall now =
      (rt.reset now, .error (.quotaExceeded remaining ms)) := by
  rcases rt.shouldAllowCall_cases now with ⟨hslice, hwindow, -⟩ | ⟨-, -, heq⟩ | ⟨-, heq⟩
  · exact (h.elim hslice hwindow).elim
  · exact ⟨_, _, heq⟩
  · exact ⟨_, _, heq⟩

theorem QuotaRuntime.shouldAllowCall_of_not_spent {rt : QuotaRuntime} {now : ℕ}
    (h : ¬ rt.Spent now) : rt.shouldAllowCall now = ((rt.reset now).consume, .ok ()) := by
  rcases rt.shouldAllowCall_cases now with ⟨-, -, heq⟩ | ⟨hslice, -, -⟩ | ⟨hwindow, -⟩
  · exact heq
  · exact (h (.inl hslice)).elim
  · exact (h (.inr hwindow)).elim

theorem BorsaError.IsRejection.not_permanent {e : BorsaError} (h : e.IsRejection) :
    e.isPermanent = false := by
  rcases h with ⟨ms, rfl⟩ | ⟨remaining, ms, rfl⟩ <;> rfl

/-- The layers of a composed stack. -/
structure Composed (K E V : Type) where
  caches : Caches K E V
  blacklist : BlacklistConnector
  quota : QuotaRuntime

/-- The layers, the outermost first. -/
def Composed.layers {K E V : Type} (p : Composed K E V) : List (Layer K E V) :=
  [.cache p.caches, .blacklist p.blacklist, .quota p.quota]

namespace Composed

section
variable {K E I R T V : Type} [Fieldless I] [Fieldless R] [Fieldless T] [DecidableEq K]
  [DecidableEq E] {range : InstantRange} {call : StackCall K E I R T V} {p p' : Composed K E V}
  {n n' : ℕ} {answer : Option (Except BorsaError V)}

/-! ## What a call does -/

/-- The outcomes of a call, with the layers, the count of raw calls and the answer that it leads to, if
to any. -/
inductive Outcome (call : StackCall K E I R T V) (p : Composed K E V) (n : ℕ) :
    Composed K E V → ℕ → Option (Except BorsaError V) → Prop
  /-- The cache answers. -/
  | hit (res : Except BorsaError V) (hhit : p.caches.Hit call.request)
    (hperm : ∀ e, res = .error e → p.caches.NegPermanent → e.isPermanent = true) :
    Outcome call p n p n (some res)
  /-- The blacklist rejects. -/
  | blocked (ms : UInt64) (hext : call.origin = .external)
    (hblocks : p.blacklist.Blocks (call.enter 1)) :
    Outcome call p n p n (some (.error (.temporarilyBlacklisted ms)))
  /-- The quota rejects. -/
  | spent (b : BlacklistConnector) (remaining ms : UInt64) (hext : call.origin = .external)
    (hmiss : ¬ p.caches.Hit call.request) (hb : ¬ p.blacklist.Blocks (call.enter 1))
    (hspent : p.quota.Spent (call.enter 2)) :
    Outcome call p n ⟨p.caches, b, p.quota.reset (call.enter 2)⟩ n
      (some (.error (.quotaExceeded remaining ms)))
  /-- The raw connector is called for the user, at the price of one unit. -/
  | charged (caches : Caches K E V) (b : BlacklistConnector) (res : Option (Except BorsaError V))
    (hext : call.origin = .external) (hmiss : ¬ p.caches.Hit call.request)
    (hb : ¬ p.blacklist.Blocks (call.enter 1)) (hspent : ¬ p.quota.Spent (call.enter 2))
    (hperm : p.caches.NegPermanent → caches.NegPermanent) :
    Outcome call p n ⟨caches, b, (p.quota.reset (call.enter 2)).consume⟩ (n + 1) res
  /-- The raw connector is called for the orchestrator. -/
  | free (caches : Caches K E V) (res : Option (Except BorsaError V))
    (hint : call.origin.isInternal = true) (hmiss : ¬ p.caches.Hit call.request)
    (hperm : p.caches.NegPermanent → caches.NegPermanent) :
    Outcome call p n { p with caches } (n + 1) res

/-- An external call at the quota layer: a rejection, or a raw call at the price of one unit. -/
theorem callLayers_quota_external (range : InstantRange) (hext : call.origin = .external) (depth : ℕ)
    (rt : QuotaRuntime) :
    (rt.Spent (call.enter depth) ∧ ∃ remaining ms,
      callLayers range call depth ([.quota rt] : List (Layer K E V)) n =
        (([.quota (rt.reset (call.enter depth))], n),
          some (.error (.quotaExceeded remaining ms)))) ∨
    (¬ rt.Spent (call.enter depth) ∧
      callLayers range call depth ([.quota rt] : List (Layer K E V)) n =
        (([.quota (rt.reset (call.enter depth)).consume], n + 1),
          some (call.raw.mapError translateProviderError))) := by
  have hpre : rt.preCall call.origin (call.enter depth) = rt.shouldAllowCall (call.enter depth) := by
    rw [hext]
    rfl
  by_cases hspent : rt.Spent (call.enter depth)
  · obtain ⟨remaining, ms, h⟩ := QuotaRuntime.shouldAllowCall_of_spent hspent
    have hcall : rt.call call.origin (call.enter depth)
        (fun _ => callLayers range call (depth + 1) ([] : List (Layer K E V)) n) ([], n) =
        (rt.reset (call.enter depth), ([], n), some (.error (.quotaExceeded remaining ms))) := by
      rw [QuotaRuntime.call, delegate, hpre, h]
    exact .inl ⟨hspent, remaining, ms, callLayers_quota range call depth [] n rt hcall⟩
  · have hcall : rt.call call.origin (call.enter depth)
        (fun _ => callLayers range call (depth + 1) ([] : List (Layer K E V)) n) ([], n) =
        ((rt.reset (call.enter depth)).consume, ([], n + 1),
          some (call.raw.mapError translateProviderError)) := by
      rw [QuotaRuntime.call, delegate, hpre, QuotaRuntime.shouldAllowCall_of_not_spent hspent, hext]
      simp only [callLayers]
      cases call.raw <;> rfl
    exact .inr ⟨hspent, callLayers_quota range call depth [] n rt hcall⟩

theorem callLayers_quota_internal (range : InstantRange) (hint : call.origin.isInternal = true)
    (depth : ℕ) (rt : QuotaRuntime) :
    callLayers range call depth ([.quota rt] : List (Layer K E V)) n =
      (([.quota rt], n + 1), some call.raw) := by
  have hcall : rt.call call.origin (call.enter depth)
      (fun _ => callLayers range call (depth + 1) ([] : List (Layer K E V)) n) ([], n) =
      (rt, ([], n + 1), some call.raw) := by
    rw [QuotaRuntime.call, delegate, QuotaRuntime.preCall, if_pos hint]
    simp only [callLayers, quotaMapError, hint, if_true]
    cases call.raw <;> rfl
  exact callLayers_quota range call depth [] n rt hcall

/-- Every call has one of the outcomes. -/
theorem outcome (range : InstantRange) (call : StackCall K E I R T V) (p : Composed K E V) (n : ℕ) :
    ∃ p' n' answer, callLayers range call 0 p.layers n = ((p'.layers, n'), answer) ∧
      Outcome call p n p' n' answer := by
  rcases serve_cases p.caches call.request
    (fun _ => callLayers range call 1 [.blacklist p.blacklist, .quota p.quota] n)
    ([.blacklist p.blacklist, .quota p.quota], n) with
    ⟨hhit, res, heq, hperm⟩ | ⟨hmiss, caches, heq, hsame, hperm⟩ <;>
    have hcall := callLayers_cache range call 0 [.blacklist p.blacklist, .quota p.quota] n p.caches heq
  · exact ⟨p, n, some res, hcall, .hit res hhit hperm⟩
  cases horigin : call.origin with
  | internal parent stage =>
    have hint : call.origin.isInternal = true := by
      rw [horigin]
      rfl
    rw [callLayers_internal range hint, callLayers_quota_internal range hint] at hcall
    exact ⟨_, _, _, by exact hcall, .free caches (some call.raw) hint hmiss hperm⟩
  | external =>
    by_cases hb : p.blacklist.Blocks (call.enter 1)
    · obtain ⟨ms, hlayer⟩ := callLayers_blocked range horigin hb [.quota p.quota] n
      rw [hlayer] at hcall
      obtain rfl := hsame _ (congrArg Prod.snd hlayer) rfl
      exact ⟨_, _, _, by exact hcall, .blocked ms horigin hb⟩
    · have hlayer := callLayers_admitted range horigin hb [.quota p.quota] n
      rw [hlayer] at hcall
      rcases callLayers_quota_external (n := n) range horigin 2 p.quota with
        ⟨hspent, remaining, ms, hquota⟩ | ⟨hspent, hquota⟩ <;> rw [hquota] at hcall hlayer
      · -- the blacklist passes the rejection on
        obtain rfl := hsame _ (congrArg Prod.snd hlayer) rfl
        exact ⟨_, _, _, by exact hcall, .spent _ remaining ms horigin hmiss hb hspent⟩
      · exact ⟨_, _, _, by exact hcall, .charged caches _ _ horigin hmiss hb hspent hperm⟩

/-! ## Accounts -/

/-- What a call from the layers `p`, with `n` raw calls so far, to the layers `p'` costs and stores. -/
structure Accounted (call : StackCall K E I R T V) (p p' : Composed K E V) (n n' : ℕ)
    (answer : Option (Except BorsaError V)) : Prop where
  /-- A call of the user that the blacklist blocks, or that the cache can answer, neither reaches the
  raw connector nor touches the quota. -/
  shielded : call.origin = .external →
    p.blacklist.Blocks (call.enter 1) ∨ p.caches.Hit call.request → n' = n ∧ p'.quota = p.quota
  /-- A call of the user reaches the raw connector once and consumes one unit, or neither. -/
  charged : call.origin = .external →
    n' = n + 1 ∧ p'.quota = (p.quota.reset (call.enter 2)).consume ∨
      n' = n ∧ (p'.quota = p.quota ∨ p'.quota = p.quota.reset (call.enter 2))
  /-- A call of the orchestrator consumes nothing and leaves the blacklist alone. -/
  internal : call.origin.isInternal = true → p'.quota = p.quota ∧ p'.blacklist = p.blacklist
  /-- No rejection is in the negative store. -/
  stored : ∀ cap, ∀ neg ∈ (p'.caches cap).neg, ∀ key e, neg key = some e → ¬ e.IsRejection
  /-- A rejection that does not come from the raw connector is by a layer that rejects at this very
  moment. -/
  current : n' = n →
    (∀ ms, answer = some (.error (.temporarilyBlacklisted ms)) →
      call.origin = .external ∧ p.blacklist.Blocks (call.enter 1)) ∧
    ∀ remaining ms, answer = some (.error (.quotaExceeded remaining ms)) →
      call.origin = .external ∧ p.quota.Spent (call.enter 2)

omit [Fieldless I] [Fieldless R] [Fieldless T] [DecidableEq K] [DecidableEq E] in
theorem not_rejection_of_negPermanent {caches : Caches K E V} (h : caches.NegPermanent) :
    ∀ cap, ∀ neg ∈ (caches cap).neg, ∀ key e, neg key = some e → ¬ e.IsRejection := by
  intro cap neg hneg key e he hrej
  have hperm : e.isPermanent = true := h cap neg hneg key e he
  rw [hrej.not_permanent] at hperm
  cases hperm

omit [DecidableEq K] [DecidableEq E] in
/-- Every outcome is accounted for, and stores permanent errors only. -/
theorem Outcome.accounted (h : Outcome call p n p' n' answer) (hperm : p.caches.NegPermanent) :
    Accounted call p p' n n' answer ∧ p'.caches.NegPermanent := by
  cases h with
  | hit res hhit hres =>
    have hcurrent : ∀ e, some res = some (.error e) → ¬ e.IsRejection := fun e he hrej =>
      absurd (hres e (Option.some.inj he) hperm) (by rw [hrej.not_permanent]; decide)
    refine ⟨⟨fun _ _ => ⟨rfl, rfl⟩, fun _ => .inr ⟨rfl, .inl rfl⟩, fun _ => ⟨rfl, rfl⟩,
      not_rejection_of_negPermanent hperm, fun _ => ⟨?_, ?_⟩⟩, hperm⟩
    · exact fun ms h => absurd (.inl ⟨ms, rfl⟩) (hcurrent _ h)
    · exact fun remaining ms h => absurd (.inr ⟨remaining, ms, rfl⟩) (hcurrent _ h)
  | blocked ms hext hblocks =>
    exact ⟨⟨fun _ _ => ⟨rfl, rfl⟩, fun _ => .inr ⟨rfl, .inl rfl⟩, fun _ => ⟨rfl, rfl⟩,
      not_rejection_of_negPermanent hperm, fun _ => ⟨fun _ _ => ⟨hext, hblocks⟩, nofun⟩⟩, hperm⟩
  | spent b remaining ms hext hmiss hb hspent =>
    refine ⟨⟨fun _ h => (h.elim hb hmiss).elim, fun _ => .inr ⟨rfl, .inr rfl⟩, fun hint => ?_,
      not_rejection_of_negPermanent hperm, fun _ => ⟨nofun, fun _ _ _ => ⟨hext, hspent⟩⟩⟩, hperm⟩
    rw [hext] at hint
    cases hint
  | charged caches b res hext hmiss hb hspent hcaches =>
    refine ⟨⟨fun _ h => (h.elim hb hmiss).elim, fun _ => .inl ⟨rfl, rfl⟩, fun hint => ?_,
      not_rejection_of_negPermanent (hcaches hperm), fun h => ?_⟩, hcaches hperm⟩
    · rw [hext] at hint
      cases hint
    · exact absurd h (Nat.succ_ne_self n)
  | free caches res hint hmiss hcaches =>
    have hext : call.origin ≠ .external := fun hext => by
      rw [hext] at hint
      cases hint
    exact ⟨⟨fun h => (hext h).elim, fun h => (hext h).elim, fun _ => ⟨rfl, rfl⟩,
      not_rejection_of_negPermanent (hcaches hperm), fun h => absurd h (Nat.succ_ne_self n)⟩,
      hcaches hperm⟩

/-! ## The quota layer's own run -/

omit [DecidableEq K] [DecidableEq E] in
/-- What a call does to the quota layer is a run of that layer, which charges the call if it is the
user's and reaches the raw connector. -/
theorem Outcome.quota_run (h : Outcome call p n p' n' answer) {q : QuotaLayer}
    (hq : q.runtime = p.quota) (hnow : q.now ≤ call.enter 2) :
    ∃ tr q', Path QuotaLayer.Step q tr q' ∧ q'.runtime = p'.quota ∧ q'.now ≤ call.enter 2 ∧
      QuotaLayer.charges tr =
        if call.origin = .external ∧ n' = n + 1 then [call.enter 2] else [] := by
  have hskip : (n' = n ∨ call.origin ≠ .external) → p'.quota = p.quota → ∃ tr q',
      Path QuotaLayer.Step q tr q' ∧ q'.runtime = p'.quota ∧ q'.now ≤ call.enter 2 ∧
      QuotaLayer.charges tr =
        if call.origin = .external ∧ n' = n + 1 then [call.enter 2] else [] := by
    intro hn hsame
    refine ⟨[], q, .nil, hq.trans hsame.symm, hnow, ?_⟩
    rw [if_neg]
    · rfl
    · rintro ⟨hext, hn'⟩
      rcases hn with hn | hn
      · exact absurd (hn.symm.trans hn') (Nat.succ_ne_self n).symm
      · exact hn hext
  have hcall := Path.single (QuotaLayer.Step.call q (call.enter 2) .external hnow)
  have hpre : q.runtime.preCall .external (call.enter 2) =
      p.quota.shouldAllowCall (call.enter 2) := by
    rw [hq]
    rfl
  rw [hpre] at hcall
  cases h with
  | hit => exact hskip (.inl rfl) rfl
  | blocked => exact hskip (.inl rfl) rfl
  | free caches res hint =>
    refine hskip (.inr fun hext => ?_) rfl
    rw [hext] at hint
    cases hint
  | spent b remaining ms hext hmiss hb hspent =>
    obtain ⟨remaining', ms', heq⟩ := QuotaRuntime.shouldAllowCall_of_spent hspent
    rw [heq] at hcall
    refine ⟨_, _, hcall, rfl, le_rfl, ?_⟩
    rw [if_neg fun h => absurd h.2 (Nat.succ_ne_self n).symm]
    rfl
  | charged caches b res hext hmiss hb hspent =>
    rw [QuotaRuntime.shouldAllowCall_of_not_spent hspent] at hcall
    refine ⟨_, _, hcall, rfl, le_rfl, ?_⟩
    rw [if_pos ⟨hext, rfl⟩]
    rfl

end

end Composed

/-! ## Runs -/

namespace Stack

section
variable {K E I R T V : Type} [Fieldless I] [Fieldless R] [Fieldless T] [DecidableEq K]
  [DecidableEq E]

/-- A cache around a blacklist around a quota that reads the clock at `t₀` and `s₀`. -/
def composed (K E V : Type) (cacheConfig : CacheConfig) (duration : ℕ) (quotaConfig : QuotaConfig)
    (t₀ s₀ : ℕ) : Stack K E V where
  layers := Composed.layers ⟨.new cacheConfig, .new duration, .new quotaConfig t₀ s₀⟩
  rawCalls := 0
  now := s₀

/-- The instants at which the user's calls that reach the raw connector pass the quota. -/
def userRawCalls (tr : List (LTS.Step (Stack K E V) (StackEvent K E I R T V))) : List ℕ :=
  tr.flatMap fun st =>
    match st.label with
    | .call call _ =>
      if call.origin = .external ∧ st.post.rawCalls = st.pre.rawCalls + 1 then [call.enter 2] else []
    | _ => []

variable {s t : Stack K E V} {a : StackEvent K E I R T V}

/-- The stack is composed, its cache stores permanent errors only, and its quota layer is the result of
a run with these charges. -/
def Reconciled (q₀ : QuotaLayer) (charges : List ℕ) (s : Stack K E V) : Prop :=
  ∃ p : Composed K E V, s.layers = p.layers ∧ p.caches.NegPermanent ∧
    ∃ tr q, Path QuotaLayer.Step q₀ tr q ∧ q.runtime = p.quota ∧ q.now ≤ s.now ∧
      QuotaLayer.charges tr = charges

/-- The step is between composed stacks, and if it is a call it is accounted for. -/
def StepAccounted (st : LTS.Step (Stack K E V) (StackEvent K E I R T V)) : Prop :=
  ∃ p p' : Composed K E V, st.pre.layers = p.layers ∧ st.post.layers = p'.layers ∧
    ∀ call answer, st.label = .call call answer →
      p.Accounted call p' st.pre.rawCalls st.post.rawCalls answer

omit [Fieldless I] [Fieldless R] [Fieldless T] [DecidableEq K] [DecidableEq E] in
theorem userRawCalls_append
    (tr tr' : List (LTS.Step (Stack K E V) (StackEvent K E I R T V))) :
    userRawCalls (tr ++ tr') = userRawCalls tr ++ userRawCalls tr' :=
  List.flatMap_append

omit [DecidableEq K] [DecidableEq E] in
/-- Where a cache is in a composed stack. -/
theorem cache_at {p : Composed K E V} {k : ℕ} {caches : Caches K E V}
    (h : p.layers[k]? = some (.cache caches)) : k = 0 ∧ caches = p.caches := by
  match k with
  | 0 => exact ⟨rfl, (Layer.cache.inj (Option.some.inj h)).symm⟩
  | 1 => cases h
  | 2 => cases h
  | _ + 3 => cases h

omit [DecidableEq K] [DecidableEq E] in
/-- The cache of a composed stack changes, and stores permanent errors only. -/
theorem Reconciled.set {q₀ : QuotaLayer} {charges : List ℕ} (h : s.Reconciled q₀ charges)
    {k : ℕ} {caches caches' : Caches K E V} (hk : s.layers[k]? = some (.cache caches))
    (hperm' : caches.NegPermanent → caches'.NegPermanent) :
    (∃ p p' : Composed K E V, s.layers = p.layers ∧ s.layers.set k (.cache caches') = p'.layers) ∧
      Reconciled q₀ charges { s with layers := s.layers.set k (.cache caches') } := by
  obtain ⟨p, hlayers, hperm, hquota⟩ := h
  rw [hlayers] at hk
  obtain ⟨rfl, rfl⟩ := cache_at hk
  have hset : s.layers.set 0 (.cache caches') = Composed.layers { p with caches := caches' } := by
    rw [hlayers]
    rfl
  exact ⟨⟨p, _, hlayers, hset⟩, _, hset, hperm' hperm, hquota⟩

theorem Reconciled.step {q₀ : QuotaLayer} {charges : List ℕ} (h : s.Reconciled q₀ charges)
    (hstep : Step range s a t) : StepAccounted ⟨s, a, t⟩ ∧
      t.Reconciled q₀ (charges ++ userRawCalls [⟨s, a, t⟩]) := by
  cases hstep with
  | call call hclock =>
    obtain ⟨p, hlayers, hperm, tr, q, hrun, hq, hnow, hcharges⟩ := h
    obtain ⟨p', n', answer, hcall, houtcome⟩ := p.outcome range call s.rawCalls
    rw [← hlayers] at hcall
    rw [hcall]
    obtain ⟨haccounted, hperm'⟩ := houtcome.accounted hperm
    have hentered : s.now ≤ call.enter 2 :=
      hclock.starts.trans ((hclock.enters 0).trans (hclock.enters 1))
    obtain ⟨tr', q', hrun', hq', hnow', hcharges'⟩ :=
      houtcome.quota_run hq (hnow.trans hentered)
    refine ⟨⟨p, p', hlayers, rfl, ?_⟩, p', rfl, hperm', _, q', hrun.append hrun', hq', ?_, ?_⟩
    · rintro _ _ ⟨⟩
      exact haccounted
    · exact hnow'.trans ((hclock.turns 2).trans ((hclock.leaves 1).trans (hclock.leaves 0)))
    · rw [QuotaLayer.charges, List.filter_append, List.map_append]
      exact congrArg₂ _ hcharges (hcharges'.trans (List.append_nil _).symm)
  | losePos k caches cap key hk =>
    obtain ⟨⟨p, p', hp, hp'⟩, hrec⟩ := h.set hk fun hperm => hperm.losePos cap key
    refine ⟨⟨p, p', hp, hp', ?_⟩, by simpa [userRawCalls] using hrec⟩
    rintro _ _ ⟨⟩
  | loseNeg k caches cap key hk =>
    obtain ⟨⟨p, p', hp, hp'⟩, hrec⟩ := h.set hk fun hperm => hperm.loseNeg cap key
    refine ⟨⟨p, p', hp, hp', ?_⟩, by simpa [userRawCalls] using hrec⟩
    rintro _ _ ⟨⟩

variable {cacheConfig : CacheConfig} {duration t₀ s₀ : ℕ} {quotaConfig : QuotaConfig}

omit [DecidableEq K] [DecidableEq E] in
theorem reconciled_composed : (composed K E V cacheConfig duration quotaConfig t₀ s₀).Reconciled
    (.new quotaConfig t₀ s₀) [] := by
  refine ⟨_, rfl, ?_, [], _, .nil, rfl, le_rfl, rfl⟩
  intro cap neg hneg
  obtain ⟨_, -, rfl⟩ := Option.map_eq_some_iff.1 hneg
  exact .empty

theorem Reconciled.run {tr : List (LTS.Step (Stack K E V) (StackEvent K E I R T V))}
    (hrun : Path (Step range) (composed K E V cacheConfig duration quotaConfig t₀ s₀) tr s) :
    (∀ st ∈ tr, StepAccounted st) ∧
      s.Reconciled (.new quotaConfig t₀ s₀) (userRawCalls tr) := by
  induction hrun with
  | nil => exact ⟨List.forall_mem_nil _, reconciled_composed⟩
  | snoc _ hstep ih =>
    obtain ⟨haccounted, hrec⟩ := ih.2.step hstep
    rw [List.forall_mem_append, List.forall_mem_singleton, userRawCalls_append]
    exact ⟨⟨ih.1, haccounted⟩, hrec⟩

end

/-- A stream that the user starts at the beginning. -/
def streamStart : StackCall Bool Bool Bool Bool Bool ℕ where
  request := none
  origin := .external
  enter _ := 0
  leave _ := 0
  raw := .ok 7

end Stack

end Borsa
