import Borsa.Router.Requests

/-!
# What a request is answered

A request that has been answered among others has the answer that `fetchSingle` gives
(`answer_refines`), for what its own calls came to at the stacks of the providers: their results where
they were answered, a timeout where they were dropped. Only once a provider has given a value do the
others not matter.

The invariant that carries this is one of the two loops (`Follows`): what is left to do from here, with
the errors so far, is what the whole loop comes to after the calls that have been made.
-/

namespace Borsa

open LTS

section
variable {K E V : Type}

/-! ## The order of completion -/

/-- The entries at the indices that come with them. -/
theorem filterMap_indices {α : Type} {l : List α} {m : List (α × ℕ)} (h : m ⊆ l.zipIdx) :
    (m.map Prod.snd).filterMap (l[·]?) = m.map Prod.fst := by
  rw [List.filterMap_map, ← List.filterMap_eq_map]
  exact List.filterMap_congr fun x hx => List.mem_zipIdx_iff_getElem?.1 (h hx)

theorem filterMap_range {α : Type} (l : List α) : (List.range l.length).filterMap (l[·]?) = l := by
  have h := filterMap_indices (List.Subset.refl l.zipIdx)
  rwa [List.zipIdx_map_snd, List.zipIdx_map_fst, ← List.range_eq_range'] at h

/-- Futures can complete in any order. -/
theorem CompletionOrder.exists_arrange {α : Type} {l l' : List α} (h : l'.Perm l) :
    ∃ order : CompletionOrder, order.arrange l = l' := by
  have hfst : l'.Perm (l.zipIdx.map Prod.fst) := by rwa [List.zipIdx_map_fst]
  obtain ⟨m, hm, hperm⟩ : ∃ m : List (α × ℕ), l' = m.map Prod.fst ∧ m.Perm l.zipIdx :=
    (congrFun (congrFun (List.eq_map_comp_perm Prod.fst) l') l.zipIdx).mpr hfst
  have his : (m.map Prod.snd).Perm (List.range l.length) := by
    rw [List.range_eq_range', ← List.zipIdx_map_snd 0 l]
    exact hperm.map _
  refine ⟨⟨fun {β} futs => if futs.length = l.length then
      (m.map Prod.snd).filterMap (futs[·]?) else futs, fun {β} futs => ?_⟩, ?_⟩
  · by_cases hlen : futs.length = l.length
    · rw [if_pos hlen]
      rw [← hlen] at his
      exact (his.filterMap _).trans (.of_eq (filterMap_range futs))
    · rw [if_neg hlen]
  · exact (if_pos rfl).trans ((filterMap_indices hperm.subset).trans hm.symm)

/-! ## What a request has seen of its providers -/

/-- What a request has seen of a provider: it has none for the request, its call came to a result or was
dropped, or nothing needs to be known of it. -/
inductive RequestState.Saw (r : RequestState K E V) (conns : List (StackTraffic V)) (won : Prop) :
    Connector K × Option (Fut V) → Prop
  | unable {c : Connector K} (hk : r.request.provider c = none) : Saw r conns won (c, none)
  | answered {a : Ask K} {res : Except BorsaError V} (ha : a ∈ r.asks)
    (hk : r.request.provider a.connector = some a.stack) (hres : a.Answered conns res) :
    Saw r conns won (a.connector, some (some (r.request.judge res)))
  | timedOut {a : Ask K} (ha : a ∈ r.asks)
    (hk : r.request.provider a.connector = some a.stack) (hd : a.Dropped conns) :
    Saw r conns won (a.connector, some none)
  | left {c : Connector K} {k : ℕ} (hk : r.request.provider c = some k) (hwon : won) :
    Saw r conns won (c, some none)

/-- What has become of the calls stays. -/
def Kept (conns conns' : List (StackTraffic V)) : Prop :=
  ∀ a : Ask K, (∀ res, a.Answered conns res → a.Answered conns' res) ∧
    (a.Dropped conns → a.Dropped conns')

section
variable {conns conns' : List (StackTraffic V)} {r r' : RequestState K E V} {won won' : Prop}

theorem Kept.refl (conns : List (StackTraffic V)) : Kept (K := K) conns conns :=
  fun _ => ⟨fun _ h => h, id⟩

theorem StackStep.kept {k : ℕ} {e : TrafficEvent V} (h : StackStep k conns e conns') :
    Kept (K := K) conns conns' :=
  fun _ => ⟨fun _ => h.answered, h.dropped⟩

theorem RequestStep.kept {traffic : Option (ℕ × TrafficEvent V)}
    (h : RequestStep conns r traffic conns' r') : Kept (K := K) conns conns' := by
  rcases h.stackStep with ⟨-, rfl⟩ | ⟨k, e, -, hstep⟩
  · exact .refl _
  · exact hstep.kept

theorem RequestState.Saw.mono {x : Connector K × Option (Fut V)} (h : r.Saw conns won x)
    (hreq : r'.request = r.request) (hasks : r.asks ⊆ r'.asks) (hkept : Kept (K := K) conns conns')
    (hwon : won → won') : r'.Saw conns' won' x := by
  cases h with
  | unable hk => exact .unable (hreq ▸ hk)
  | answered ha hk hres =>
    rw [← hreq] at hk ⊢
    exact .answered (hasks ha) hk ((hkept _).1 _ hres)
  | timedOut ha hk hd =>
    rw [← hreq] at hk
    exact .timedOut (hasks ha) hk ((hkept _).2 hd)
  | left hk h => exact .left (hreq ▸ hk) (hwon h)

theorem RequestState.Saw.of_false {x : Connector K × Option (Fut V)} (h : r.Saw conns False x) :
    r.Saw conns won x :=
  h.mono rfl (List.Subset.refl _) (.refl _) False.elim

end

/-! ## The priority loop -/

section
variable {capability : Capability} {attemptedAny : Bool} {errors : List BorsaError}
  {c : Connector K} {fut : Fut V} {more : List (Connector K × Option (Fut V))}

theorem priorityLoop_unable : priorityLoop capability attemptedAny errors ((c, none) :: more) =
    ((priorityLoop capability attemptedAny errors more).1,
      c :: (priorityLoop capability attemptedAny errors more).2) :=
  rfl

theorem priorityLoop_ok {v : V} (h : providerCallWithTimeout c.name capability fut = .ok v) :
    priorityLoop capability attemptedAny errors ((c, some fut) :: more) = (.ok v, [c]) := by
  simp only [priorityLoop, h]

theorem priorityLoop_error {e : BorsaError}
    (h : providerCallWithTimeout c.name capability fut = .error e) :
    priorityLoop capability attemptedAny errors ((c, some fut) :: more) =
      ((priorityLoop capability true (errors ++ [fallbackError c.name e]) more).1,
        c :: (priorityLoop capability true (errors ++ [fallbackError c.name e]) more).2) := by
  simp only [priorityLoop, h]

end

section
variable [DecidableEq K] [DecidableEq E] {self : Borsa K E} {req : Request K E V}

theorem Request.plan_fst (req : Request K E V) (self : Borsa K E) :
    (req.plan self).map Prod.fst = self.ordered req.inst := by
  rw [plan, List.map_map]
  exact List.map_id _

theorem Request.provider_of_mem_plan {c : Connector K} {o : Option ℕ} (h : (c, o) ∈ req.plan self) :
    req.provider c = o := by
  obtain ⟨c', -, heq⟩ := List.mem_map.1 h
  cases heq
  rfl

/-- The connectors that were called among those asked. -/
def Request.called (req : Request K E V) (asked : List (Connector K)) : List (Connector K) :=
  asked.filter fun c => (req.provider c).isSome

section
variable {asked : List (Connector K)} {c : Connector K} {k : ℕ}

omit [DecidableEq K] [DecidableEq E]

theorem Request.called_concat_none (h : req.provider c = none) :
    req.called (asked ++ [c]) = req.called asked := by
  rw [called, List.filter_append, List.filter_cons_of_neg (by simp [h]), List.filter_nil,
    List.append_nil, called]

theorem Request.called_concat_some (h : req.provider c = some k) :
    req.called (asked ++ [c]) = req.called asked ++ [c] := by
  rw [called, List.filter_append, List.filter_cons_of_pos (by simp [h]), List.filter_nil, called]

end

/-- The loop of a request has gone through the providers of `seen`, and has those of `rest` to go. -/
structure RequestState.Falls (r : RequestState K E V) (borsa : Borsa K E)
    (conns : List (StackTraffic V)) (seen : List (Connector K × Option (Fut V)))
    (rest : List (Connector K × Option ℕ)) (attemptedAny : Bool) (errors : List BorsaError) :
    Prop where
  strategy : r.request.strategy = .priorityWithFallback
  plan : (seen.map fun x => (x.1, r.request.provider x.1)) ++ rest = r.request.plan borsa
  saw : ∀ x ∈ seen, r.Saw conns False x
  loop : ∀ more, priorityLoop r.request.capability false [] (seen ++ more) =
    ((priorityLoop r.request.capability attemptedAny errors more).1,
      seen.map Prod.fst ++ (priorityLoop r.request.capability attemptedAny errors more).2)

/-- The answer `res` is that of `fetchSingle`, for what the request has seen of its providers; and the
calls it has made are those that `fetchSingle` makes. -/
def RequestState.Refines (r : RequestState K E V) (self : Borsa K E)
    (conns : List (StackTraffic V)) (res : Except BorsaError V) : Prop :=
  ∃ seen : List (Connector K × Option (Fut V)),
    seen.map Prod.fst = self.ordered r.request.inst ∧
    (∀ x ∈ seen, r.Saw conns (∃ v, res = .ok v) x) ∧
    match r.request.strategy with
    | .priorityWithFallback =>
      ∃ asked, fetchSinglePriorityWithFallback r.request.inst r.request.capability
          r.request.notFoundLabel seen = (res, asked) ∧
        r.asks.map Ask.connector = r.request.called asked
    | .latency =>
      (∃ order, fetchSingleLatency r.request.inst r.request.capability r.request.notFoundLabel order
          seen = res) ∧
        (r.asks.map fun a => (a.connector, a.stack)).Subperm (r.request.futs self)

theorem RequestState.Refines.mono {r r' : RequestState K E V} {conns conns' : List (StackTraffic V)}
    {res : Except BorsaError V} (h : r.Refines self conns res) (hreq : r'.request = r.request)
    (hasks : r'.asks = r.asks) (hkept : Kept (K := K) conns conns') : r'.Refines self conns' res := by
  obtain ⟨request, place, asks⟩ := r
  obtain ⟨request', place', asks'⟩ := r'
  cases hreq
  cases hasks
  obtain ⟨seen, hord, hsaw, hfetch⟩ := h
  exact ⟨seen, hord, fun x hx => (hsaw x hx).mono rfl (List.Subset.refl _) hkept id, hfetch⟩

namespace RequestState.Falls

variable {r r' : RequestState K E V} {conns conns' : List (StackTraffic V)}
  {seen : List (Connector K × Option (Fut V))} {rest : List (Connector K × Option ℕ)}
  {attemptedAny : Bool} {errors : List BorsaError} {c : Connector K} {k : ℕ} {fut : Fut V}

theorem mono (h : r.Falls self conns seen rest attemptedAny errors)
    (hreq : r'.request = r.request) (hasks : r.asks ⊆ r'.asks)
    (hkept : Kept (K := K) conns conns') : r'.Falls self conns' seen rest attemptedAny errors where
  strategy := hreq ▸ h.strategy
  plan := hreq ▸ h.plan
  saw x hx := (h.saw x hx).mono hreq hasks hkept id
  loop := hreq ▸ h.loop

theorem provider (h : r.Falls self conns seen rest attemptedAny errors) {o : Option ℕ}
    (hmem : (c, o) ∈ rest) : r.request.provider c = o := by
  have hplan : (c, o) ∈ r.request.plan self := by
    rw [← h.plan]
    exact List.mem_append_right _ hmem
  exact Request.provider_of_mem_plan hplan

/-- The loop skips a connector without a provider. -/
theorem unable (h : r.Falls self conns seen ((c, none) :: rest) attemptedAny errors) :
    r.Falls self conns (seen ++ [(c, none)]) rest attemptedAny errors := by
  have hk := h.provider (List.mem_cons_self ..)
  refine ⟨h.strategy, ?_, ?_, fun more => ?_⟩
  · rw [← h.plan, List.map_append, List.append_assoc, List.map_singleton, hk,
      List.singleton_append]
  · rw [List.forall_mem_append, List.forall_mem_singleton]
    exact ⟨h.saw, .unable hk⟩
  · rw [List.append_assoc, List.singleton_append, h.loop, priorityLoop_unable, List.map_append,
      List.append_assoc, List.map_singleton, List.singleton_append]

/-- The loop goes on after a provider has failed. -/
theorem failed (h : r.Falls self conns seen ((c, some k) :: rest) attemptedAny errors)
    (hsaw : r.Saw conns False (c, some fut)) {e : BorsaError}
    (he : providerCallWithTimeout c.name r.request.capability fut = .error e) :
    r.Falls self conns (seen ++ [(c, some fut)]) rest true
      (errors ++ [fallbackError c.name e]) := by
  have hk := h.provider (List.mem_cons_self ..)
  refine ⟨h.strategy, ?_, ?_, fun more => ?_⟩
  · rw [← h.plan, List.map_append, List.append_assoc, List.map_singleton, hk,
      List.singleton_append]
  · rw [List.forall_mem_append, List.forall_mem_singleton]
    exact ⟨h.saw, hsaw⟩
  · rw [List.append_assoc, List.singleton_append, h.loop, priorityLoop_error he, List.map_append,
      List.append_assoc, List.map_singleton, List.singleton_append]

/-- The connectors that the loop has to go. -/
theorem map_fst (h : r.Falls self conns seen rest attemptedAny errors) :
    seen.map Prod.fst ++ rest.map Prod.fst = self.ordered r.request.inst := by
  rw [← Request.plan_fst, ← h.plan, List.map_append, List.map_map]
  rfl

/-- A provider gives a value. -/
theorem refines_ok (h : r.Falls self conns seen ((c, some k) :: rest) attemptedAny errors)
    (hsaw : r.Saw conns False (c, some fut)) {v : V}
    (hv : providerCallWithTimeout c.name r.request.capability fut = .ok v)
    (hasks : r.asks.map Ask.connector = r.request.called (seen.map Prod.fst) ++ [c]) :
    r.Refines self conns (.ok v) := by
  have hk := h.provider (List.mem_cons_self ..)
  refine ⟨seen ++ (c, some fut) :: rest.map fun x => (x.1, x.2.map fun _ => none), ?_, ?_, ?_⟩
  · rw [← h.map_fst, List.map_append, List.map_cons, List.map_cons, List.map_map]
    rfl
  · rw [List.forall_mem_append, List.forall_mem_cons]
    refine ⟨fun x hx => (h.saw x hx).of_false, hsaw.of_false, ?_⟩
    intro x hx
    obtain ⟨⟨c', o⟩, hmem, rfl⟩ := List.mem_map.1 hx
    have hk' := h.provider (List.mem_cons_of_mem _ hmem)
    cases o with
    | none => exact .unable hk'
    | some k' => exact .left hk' ⟨v, rfl⟩
  · rw [h.strategy]
    refine ⟨seen.map Prod.fst ++ [c], ?_, ?_⟩
    · rw [fetchSinglePriorityWithFallback, h.loop, priorityLoop_ok hv]
    · rw [hasks, Request.called_concat_some hk]

/-- No provider is left. -/
theorem refines_error (h : r.Falls self conns seen [] attemptedAny errors)
    (hasks : r.asks.map Ask.connector = r.request.called (seen.map Prod.fst)) :
    r.Refines self conns (.error (collapseErrors r.request.capability attemptedAny errors
      (some (targetLabel r.request.inst r.request.notFoundLabel)))) := by
  refine ⟨seen, ?_, ?_, ?_⟩
  · simpa using h.map_fst
  · exact fun x hx => (h.saw x hx).of_false
  · rw [h.strategy]
    have hloop := h.loop []
    rw [List.append_nil] at hloop
    refine ⟨seen.map Prod.fst, ?_, hasks⟩
    rw [fetchSinglePriorityWithFallback, hloop]
    simp [priorityLoop]

end RequestState.Falls

/-! ## The race -/

/-- The provider that a call was made of. -/
def Ask.provider (a : Ask K) : Connector K × ℕ := (a.connector, a.stack)

/-- What the latency loop reads of a call. -/
def raceResult (capability : Capability) (x : (Connector K × ℕ) × Fut V) :
    String × Except BorsaError V :=
  (x.1.1.name, providerCallWithTimeout x.1.1.name capability x.2)

omit [DecidableEq K] [DecidableEq E] in
/-- What is known of the providers of the race, put in the order of the policy. -/
theorem exists_seen (capability : Capability) (plan : List (Connector K × Option ℕ))
    {l : List ((Connector K × ℕ) × Fut V)}
    (h : l.map Prod.fst = plan.filterMap fun (c, provider) => provider.map fun k => (c, k)) :
    ∃ seen : List (Connector K × Option (Fut V)), seen.map Prod.fst = plan.map Prod.fst ∧
      (∀ x ∈ seen, (x.2 = none ∧ (x.1, none) ∈ plan) ∨ ∃ y ∈ l, x = (y.1.1, some y.2)) ∧
      outcomes capability seen = l.map (raceResult capability) := by
  induction plan generalizing l with
  | nil =>
    obtain rfl := List.map_eq_nil_iff.1 h
    exact ⟨[], rfl, fun x hx => absurd hx List.not_mem_nil, rfl⟩
  | cons x plan ih =>
    obtain ⟨c, o⟩ := x
    cases o with
    | none =>
      obtain ⟨seen, hfst, hmem, hout⟩ := ih h
      refine ⟨(c, none) :: seen, congrArg (c :: ·) hfst, ?_, hout⟩
      rw [List.forall_mem_cons]
      refine ⟨.inl ⟨rfl, List.mem_cons_self ..⟩, fun x hx => (hmem x hx).imp_left fun h => ?_⟩
      exact ⟨h.1, List.mem_cons_of_mem _ h.2⟩
    | some k =>
      cases l with
      | nil => cases h
      | cons y l =>
        obtain ⟨hy, hl⟩ := List.cons.inj h
        obtain ⟨seen, hfst, hmem, hout⟩ := ih hl
        obtain ⟨y₁, fut⟩ := y
        cases hy
        refine ⟨(c, some fut) :: seen, congrArg (c :: ·) hfst, ?_, ?_⟩
        · rw [List.forall_mem_cons]
          refine ⟨.inr ⟨_, List.mem_cons_self .., rfl⟩, fun x hx => ?_⟩
          refine (hmem x hx).imp (fun h => ⟨h.1, List.mem_cons_of_mem _ h.2⟩) fun h => ?_
          obtain ⟨y, hy, heq⟩ := h
          exact ⟨y, List.mem_cons_of_mem _ hy, heq⟩
        · exact congrArg (raceResult capability ((c, k), fut) :: ·) hout

theorem Request.provider_of_mem_futs {c : Connector K} {k : ℕ} (h : (c, k) ∈ req.futs self) :
    req.provider c = some k := by
  obtain ⟨⟨c', o⟩, hmem, heq⟩ := List.mem_filterMap.1 h
  cases o with
  | none => cases heq
  | some k' =>
    cases heq
    exact provider_of_mem_plan hmem

/-- The calls of `came` have come back without a value, those of `running` are under way, and those of
`futs` have not started. -/
structure RequestState.Races (r : RequestState K E V) (borsa : Borsa K E)
    (conns : List (StackTraffic V)) (came : List ((Connector K × ℕ) × Fut V))
    (futs : List (Connector K × ℕ)) (running : List (Ask K)) (attemptedAny : Bool)
    (errors : List BorsaError) : Prop where
  strategy : r.request.strategy = .latency
  perm : (came.map Prod.fst ++ (running.map Ask.provider ++ futs)).Perm (r.request.futs borsa)
  attempted : attemptedAny = !(r.request.futs borsa).isEmpty
  mem : running ⊆ r.asks
  asks : (r.asks.map Ask.provider ++ futs).Perm (r.request.futs borsa)
  saw : ∀ x ∈ came, r.Saw conns False (x.1.1, some x.2)
  loop : ∀ more, latencyLoop [] (came.map (raceResult r.request.capability) ++ more) =
    latencyLoop errors more

namespace RequestState.Races

variable {r r' : RequestState K E V} {conns conns' : List (StackTraffic V)}
  {came : List ((Connector K × ℕ) × Fut V)} {futs : List (Connector K × ℕ)}
  {running pre post : List (Ask K)} {attemptedAny : Bool} {errors : List BorsaError} {a : Ask K}
  {fut : Fut V}

theorem mono (h : r.Races self conns came futs running attemptedAny errors)
    (hreq : r'.request = r.request) (hasks : r'.asks = r.asks)
    (hkept : Kept (K := K) conns conns') :
    r'.Races self conns' came futs running attemptedAny errors where
  strategy := hreq ▸ h.strategy
  perm := hreq ▸ h.perm
  attempted := hreq ▸ h.attempted
  mem := hasks ▸ h.mem
  asks := by rw [hreq, hasks]; exact h.asks
  saw x hx := (h.saw x hx).mono hreq (hasks ▸ List.Subset.refl _) hkept id
  loop := hreq ▸ h.loop

/-- The answer of a race whose calls come back in the order of `l`. -/
theorem refines_of_perm (h : r.Races self conns came futs running attemptedAny errors)
    {l : List ((Connector K × ℕ) × Fut V)} (hl : (l.map Prod.fst).Perm (r.request.futs self))
    {res : Except BorsaError V}
    (hsaw : ∀ y ∈ l, r.Saw conns (∃ v, res = .ok v) (y.1.1, some y.2))
    (hres : res = match latencyLoop [] (l.map (raceResult r.request.capability)) with
      | .ok v => .ok v
      | .error errors => .error (if attemptedAny then
          collapseErrors r.request.capability attemptedAny errors
            (some (targetLabel r.request.inst r.request.notFoundLabel))
          else .unsupported r.request.capability.asStr)) :
    r.Refines self conns res := by
  obtain ⟨l', hl', hperm⟩ : ∃ l', r.request.futs self = List.map Prod.fst l' ∧ l'.Perm l :=
    (congrFun (congrFun (List.eq_map_comp_perm Prod.fst) _) l).mpr hl.symm
  obtain ⟨seen, hfst, hmem, hout⟩ := exists_seen r.request.capability (r.request.plan self) hl'.symm
  obtain ⟨order, horder⟩ : ∃ order : CompletionOrder,
      order.arrange (outcomes r.request.capability seen) =
        l.map (raceResult r.request.capability) := by
    rw [hout]
    exact CompletionOrder.exists_arrange (hperm.symm.map _)
  refine ⟨seen, hfst.trans (Request.plan_fst _ _), fun x hx => ?_, ?_⟩
  · rcases hmem x hx with ⟨hnone, hplan⟩ | ⟨y, hy, rfl⟩
    · obtain ⟨c, o⟩ := x
      cases hnone
      exact .unable (Request.provider_of_mem_plan hplan)
    · exact hsaw y (hperm.subset hy)
  · rw [h.strategy]
    refine ⟨⟨order, ?_⟩, ?_⟩
    · have hempty : (outcomes r.request.capability seen).isEmpty =
          (r.request.futs self).isEmpty := by
        rw [hout, hl', List.isEmpty_map, List.isEmpty_map]
      rw [hres, fetchSingleLatency, horder, hempty, ← h.attempted]
      cases latencyLoop [] (l.map (raceResult r.request.capability)) with
      | ok v => rfl
      | error errors => cases attemptedAny <;> rfl
    · exact ((List.sublist_append_left _ _).subperm).trans h.asks.subperm

/-- The provider of a call under way. -/
theorem provider_of_mem (h : r.Races self conns came futs running attemptedAny errors)
    (ha : a ∈ running) : r.request.provider a.connector = some a.stack := by
  refine Request.provider_of_mem_futs (h.perm.subset ?_)
  exact List.mem_append_right _ (List.mem_append_left _ (List.mem_map_of_mem ha))

/-- The calls of the race, with the one that has just come back. -/
theorem perm_cons (h : r.Races self conns came futs (pre ++ a :: post) attemptedAny errors) :
    (came.map Prod.fst ++ a.provider :: ((pre ++ post).map Ask.provider ++ futs)).Perm
      (r.request.futs self) := by
  refine .trans (.append_left _ ?_) h.perm
  exact (List.perm_middle.map Ask.provider).symm.append_right futs

/-- The race goes on after a provider has failed. -/
theorem failed (h : r.Races self conns came futs (pre ++ a :: post) attemptedAny errors)
    (hsaw : r.Saw conns False (a.connector, some fut)) {e : BorsaError}
    (he : providerCallWithTimeout a.connector.name r.request.capability fut = .error e) :
    r.Races self conns (came ++ [(a.provider, fut)]) futs (pre ++ post) attemptedAny
      (errors ++ [latencyError a.connector.name e]) where
  strategy := h.strategy
  perm := by
    rw [List.map_append, List.append_assoc, List.map_singleton, List.singleton_append]
    exact h.perm_cons
  attempted := h.attempted
  mem := fun x hx => h.mem (by
    rcases List.mem_append.1 hx with hx | hx
    · exact List.mem_append_left _ hx
    · exact List.mem_append_right _ (List.mem_cons_of_mem _ hx))
  asks := h.asks
  saw := by
    rw [List.forall_mem_append, List.forall_mem_singleton]
    exact ⟨h.saw, hsaw⟩
  loop more := by
    rw [List.map_append, List.append_assoc, h.loop]
    simp only [List.map_singleton, List.singleton_append, raceResult, Ask.provider, he, latencyLoop]

/-- The future of a provider is polled. -/
theorem started {pre post : List (Connector K × ℕ)}
    (h : r.Races self conns came (pre ++ a.provider :: post) running attemptedAny errors)
    (hreq : r'.request = r.request) (hasks : r'.asks = r.asks ++ [a])
    (hkept : Kept (K := K) conns conns') :
    r'.Races self conns' came (pre ++ post) (running ++ [a]) attemptedAny errors where
  strategy := hreq ▸ h.strategy
  perm := by
    rw [hreq]
    refine .trans (.append_left _ ?_) h.perm
    rw [List.map_append, List.append_assoc]
    exact .append_left _ (List.perm_middle : (pre ++ a.provider :: post).Perm _).symm
  attempted := hreq ▸ h.attempted
  mem := by
    rw [hasks]
    exact fun x hx => List.mem_append.2 ((List.mem_append.1 hx).imp_left (h.mem ·))
  asks := by
    rw [hreq, hasks]
    refine .trans ?_ h.asks
    rw [List.map_append, List.append_assoc]
    exact .append_left _ (List.perm_middle : (pre ++ a.provider :: post).Perm _).symm
  saw x hx := (h.saw x hx).mono hreq (hasks ▸ List.subset_append_left _ _) hkept id
  loop := hreq ▸ h.loop

/-- A provider gives a value. -/
theorem refines_ok (h : r.Races self conns came futs (pre ++ a :: post) attemptedAny errors)
    (hsaw : r.Saw conns False (a.connector, some fut)) {v : V}
    (hv : providerCallWithTimeout a.connector.name r.request.capability fut = .ok v) :
    r.Refines self conns (.ok v) := by
  refine h.refines_of_perm (l := came ++ (a.provider, fut) ::
    ((pre ++ post).map Ask.provider ++ futs).map fun x => (x, none)) ?_ ?_ ?_
  · rw [List.map_append, List.map_cons, List.map_map]
    exact (List.map_id _).symm ▸ h.perm_cons
  · rw [List.forall_mem_append, List.forall_mem_cons]
    refine ⟨fun y hy => (h.saw y hy).of_false, hsaw.of_false, fun y hy => ?_⟩
    obtain ⟨⟨c, k⟩, hx, rfl⟩ := List.mem_map.1 hy
    have hmem := List.mem_append_right (came.map Prod.fst) (List.mem_cons_of_mem a.provider hx)
    exact .left (Request.provider_of_mem_futs (h.perm_cons.subset hmem)) ⟨v, rfl⟩
  · rw [List.map_append, h.loop]
    simp only [List.map_cons, raceResult, Ask.provider, hv, latencyLoop]

/-- Every call has come back without a value. -/
theorem refines_error (h : r.Races self conns came [] [] attemptedAny errors) :
    r.Refines self conns (.error (if attemptedAny then
      collapseErrors r.request.capability attemptedAny errors
        (some (targetLabel r.request.inst r.request.notFoundLabel))
      else .unsupported r.request.capability.asStr)) := by
  refine h.refines_of_perm (l := came) ?_ ?_ ?_
  · simpa using h.perm
  · exact fun y hy => (h.saw y hy).of_false
  · have hloop := h.loop []
    rw [List.append_nil] at hloop
    rw [hloop]
    rfl

end RequestState.Races

/-! ## Runs -/

/-- What a request has done so far is the beginning of what `fetchSingle` does. -/
def RequestState.Follows (r : RequestState K E V) (self : Borsa K E)
    (conns : List (StackTraffic V)) : Prop :=
  match r.place with
  | .next rest attemptedAny errors => ∃ seen, r.Falls self conns seen rest attemptedAny errors ∧
      r.asks.map Ask.connector = r.request.called (seen.map Prod.fst)
  | .asking a rest errors => ∃ seen attemptedAny,
      r.Falls self conns seen ((a.connector, some a.stack) :: rest) attemptedAny errors ∧
      r.asks.map Ask.connector = r.request.called (seen.map Prod.fst) ++ [a.connector] ∧ a ∈ r.asks
  | .racing futs running attemptedAny errors =>
    ∃ came, r.Races self conns came futs running attemptedAny errors
  | .ending _ answer => ∀ res ∈ answer, r.Refines self conns res

namespace RequestState.Follows

variable {r r' : RequestState K E V} {conns conns' : List (StackTraffic V)}

theorem received (req : Request K E V) (self : Borsa K E) (conns : List (StackTraffic V)) :
    (req.received self).Follows self conns := by
  cases hs : req.strategy with
  | priorityWithFallback =>
    simp only [Follows, Request.received, hs]
    refine ⟨[], ⟨hs, rfl, fun x hx => absurd hx List.not_mem_nil, fun more => rfl⟩, rfl⟩
  | latency =>
    simp only [Follows, Request.received, hs]
    exact ⟨[], hs, .rfl, rfl, List.nil_subset _, .rfl, fun x hx => absurd hx List.not_mem_nil,
      fun more => rfl⟩

/-- What others do at the stacks changes nothing. -/
theorem mono (h : r.Follows self conns) (hkept : Kept (K := K) conns conns') :
    r.Follows self conns' := by
  unfold Follows at h ⊢
  cases hp : r.place with
  | next rest attemptedAny errors =>
    rw [hp] at h
    obtain ⟨seen, hfalls, hasks⟩ := h
    exact ⟨seen, hfalls.mono rfl (List.Subset.refl _) hkept, hasks⟩
  | asking a rest errors =>
    rw [hp] at h
    obtain ⟨seen, attemptedAny, hfalls, hasks, ha⟩ := h
    exact ⟨seen, attemptedAny, hfalls.mono rfl (List.Subset.refl _) hkept, hasks, ha⟩
  | racing futs running attemptedAny errors =>
    rw [hp] at h
    obtain ⟨came, hraces⟩ := h
    exact ⟨came, hraces.mono rfl rfl hkept⟩
  | ending running answer =>
    rw [hp] at h
    exact fun res hres => (h res hres).mono rfl rfl hkept

/-- A call of the priority loop has come to a result. -/
theorem fallback {a : Ask K} {rest : List (Connector K × Option ℕ)} {errors : List BorsaError}
    {seen : List (Connector K × Option (Fut V))} {attemptedAny : Bool} {fut : Fut V}
    (h : r.Falls self conns seen ((a.connector, some a.stack) :: rest) attemptedAny errors)
    (hasks : r.asks.map Ask.connector = r.request.called (seen.map Prod.fst) ++ [a.connector])
    (hsaw : r.Saw conns False (a.connector, some fut)) :
    RequestState.Follows { r with
      place := .fallback a rest errors (providerCallWithTimeout a.connector.name
        r.request.capability fut) } self conns := by
  cases hres : providerCallWithTimeout a.connector.name r.request.capability fut with
  | ok v =>
    intro res hmem
    cases hmem
    exact (h.refines_ok hsaw hres hasks).mono rfl rfl (.refl _)
  | error e =>
    refine ⟨_, (h.failed hsaw hres).mono rfl (List.Subset.refl _) (.refl _), ?_⟩
    rw [hasks, List.map_append, List.map_singleton,
      Request.called_concat_some (h.provider (List.mem_cons_self ..))]

/-- A call of the race has come to a result. -/
theorem race {futs : List (Connector K × ℕ)} {a : Ask K} {pre post : List (Ask K)}
    {came : List ((Connector K × ℕ) × Fut V)} {attemptedAny : Bool} {errors : List BorsaError}
    {fut : Fut V} (h : r.Races self conns came futs (pre ++ a :: post) attemptedAny errors)
    (hsaw : r.Saw conns False (a.connector, some fut)) :
    RequestState.Follows { r with
      place := .race futs a (pre ++ post) attemptedAny errors (providerCallWithTimeout
        a.connector.name r.request.capability fut) } self conns := by
  cases hres : providerCallWithTimeout a.connector.name r.request.capability fut with
  | ok v =>
    intro res hmem
    cases hmem
    exact (h.refines_ok hsaw hres).mono rfl rfl (.refl _)
  | error e => exact ⟨_, (h.failed hsaw hres).mono rfl rfl (.refl _)⟩

/-- A step of the request. -/
theorem step (h : r.Follows self conns) {traffic : Option (ℕ × TrafficEvent V)}
    (hstep : RequestStep conns r traffic conns' r') : r'.Follows self conns' := by
  have hk' := hstep.kept
  cases hstep with
  | skip hp =>
    rw [Follows, hp] at h
    obtain ⟨seen, hfalls, hasks⟩ := h
    refine ⟨_, hfalls.unable.mono rfl (List.Subset.refl _) (.refl _), ?_⟩
    rw [hasks, List.map_append, List.map_singleton,
      Request.called_concat_none (hfalls.provider (List.mem_cons_self ..))]
  | @ask a rest attemptedAny errors e conns' hp hs =>
    rw [Follows, hp] at h
    obtain ⟨seen, hfalls, hasks⟩ := h
    refine ⟨seen, attemptedAny, hfalls.mono rfl (List.subset_append_left _ _) hs.step.kept, ?_, ?_⟩
    · rw [List.map_append, hasks]
      rfl
    · exact List.mem_append_right _ (List.mem_singleton_self a)
  | @answered a rest errors res hp ha =>
    rw [Follows, hp] at h
    obtain ⟨seen, attemptedAny, hfalls, hasks, hmem⟩ := h
    have hk := hfalls.provider (List.mem_cons_self ..)
    exact fallback hfalls hasks (.answered hmem hk ha)
  | @timedOut a rest errors e conns' hp hd =>
    rw [Follows, hp] at h
    obtain ⟨seen, attemptedAny, hfalls, hasks, hmem⟩ := h
    have hk := hfalls.provider (List.mem_cons_self ..)
    exact fallback (hfalls.mono rfl (List.Subset.refl _) hd.step.kept) hasks
      (.timedOut hmem hk hd.dropped)
  | exhausted hp =>
    rw [Follows, hp] at h
    obtain ⟨seen, hfalls, hasks⟩ := h
    intro res hmem
    cases hmem
    exact (hfalls.refines_error hasks).mono rfl rfl (.refl _)
  | start hp hs =>
    rw [Follows, hp] at h
    obtain ⟨came, hraces⟩ := h
    exact ⟨came, hraces.started rfl rfl hs.step.kept⟩
  | @raceAnswered futs pre post a attemptedAny errors res hp ha =>
    rw [Follows, hp] at h
    obtain ⟨came, hraces⟩ := h
    have hin : a ∈ pre ++ a :: post := List.mem_append_right _ (List.mem_cons_self ..)
    exact race hraces (.answered (hraces.mem hin) (hraces.provider_of_mem hin) ha)
  | @raceTimedOut futs pre post a attemptedAny errors e conns' hp hd =>
    rw [Follows, hp] at h
    obtain ⟨came, hraces⟩ := h
    have hin : a ∈ pre ++ a :: post := List.mem_append_right _ (List.mem_cons_self ..)
    exact race (hraces.mono rfl rfl hd.step.kept)
      (.timedOut (hraces.mem hin) (hraces.provider_of_mem hin) hd.dropped)
  | raceOver hp =>
    rw [Follows, hp] at h
    obtain ⟨came, hraces⟩ := h
    intro res hmem
    cases hmem
    exact hraces.refines_error.mono rfl rfl (.refl _)
  | cancel hp => exact fun res hmem => absurd hmem (Option.not_mem_none res)
  | drop hp hd =>
    rw [Follows, hp] at h
    exact fun res hmem => (h res hmem).mono rfl rfl hd.step.kept
  | forget hp ha =>
    rw [Follows, hp] at h
    exact fun res hmem => (h res hmem).mono rfl rfl (.refl _)

end RequestState.Follows

namespace Deployment

/-- A step keeps what the requests follow. -/
theorem Step.follows {s s' : Deployment K E V} {e : DeploymentEvent V} (hstep : Step self s e s')
    (h : ∀ r ∈ s.requests, r.Follows self s.conns) :
    ∀ r ∈ s'.requests, r.Follows self s'.conns := by
  cases hstep with
  | receive req hk =>
    rw [List.forall_mem_append, List.forall_mem_singleton]
    exact ⟨h, .received req self s.conns⟩
  | @request i r r' traffic conns' hr hreq =>
    intro r₁ hr₁
    rcases List.mem_or_eq_of_mem_set hr₁ with hr₁ | rfl
    · exact (h r₁ hr₁).mono hreq.kept
    · exact (h r (List.mem_of_getElem? hr)).step hreq
  | stack hst hown => exact fun r hr => (h r hr).mono hst.kept

/-- Every request does what `fetchSingle` does, as far as it has come. -/
theorem follows_of_path {conns : List (StackTraffic V)} {s : Deployment K E V}
    {tr : List (LTS.Step (Deployment K E V) (DeploymentEvent V))}
    (hrun : Path (Step self) (start K E conns) tr s) : ∀ r ∈ s.requests, r.Follows self s.conns :=
  hrun.inv (I := fun s => ∀ r ∈ s.requests, r.Follows self s.conns)
    (fun _ hr => absurd hr List.not_mem_nil) fun _ _ _ h hstep => hstep.follows h

/-- Whatever other requests there are, and whatever happens at the stacks of the providers, a request that
has been answered has the answer that `fetch_single` gives for what its own calls have come to; and the
calls it has made are those that `fetch_single` makes. -/
theorem answer_refines {conns : List (StackTraffic V)} {s : Deployment K E V}
    {tr : List (LTS.Step (Deployment K E V) (DeploymentEvent V))}
    (hrun : Path (Step self) (start K E conns) tr s) {r : RequestState K E V}
    (hr : r ∈ s.requests) {running : List (Ask K)} {res : Except BorsaError V}
    (hend : r.place = .ending running (some res)) : r.Refines self s.conns res := by
  have h := follows_of_path hrun r hr
  rw [RequestState.Follows, hend] at h
  exact h res rfl

end Deployment

end

end

theorem pair_answer_refines : ∃ tr, ∃ s : Deployment Unit Unit ℕ,
    Path (Deployment.Step pairRouter) (.start Unit Unit [.start ℕ 0 [], .start ℕ 0 []]) tr s ∧
      ∃ r ∈ s.requests, r.request = pairRequest ∧ r.Refines pairRouter s.conns (.ok 7) := by
  obtain ⟨tr, s, hrun, r, hr, hreq, hend, -⟩ := pairRouter_run
  exact ⟨tr, s, hrun, r, hr, hreq, Deployment.answer_refines hrun hr hend⟩

end Borsa
