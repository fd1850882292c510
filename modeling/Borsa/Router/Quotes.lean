import Borsa.Router.Answers

/-!
# Quotes

`quote` is a `fetch_single` whose calls check the exchange of the quote that a provider gives: a quote
from another exchange than the instrument names counts as `NotFound`, so that the next provider is
tried, or the race goes on. What this comes to for the answer, whatever else is going on, is
`quote_answer`.
-/

namespace Borsa

open LTS

section
variable {K E V : Type}

/-! ## What an answer says about the calls -/

theorem providerCallWithTimeout_eq_ok {name : String} {capability : Capability} {fut : Fut V} {v : V} :
    providerCallWithTimeout name capability fut = .ok v ↔ fut = some (.ok v) := by
  cases fut with
  | none => exact ⟨(fun h => by cases h), (fun h => by cases h)⟩
  | some res =>
    constructor
    · intro h
      exact congrArg some h
    · intro h
      exact Option.some.inj h

theorem Request.judge_eq_ok {req : Request K E V} {raw : Except BorsaError V} {v : V} :
    req.judge raw = .ok v ↔ raw = .ok v ∧ req.postOk v = .ok () := by
  cases raw with
  | error e => exact ⟨(fun h => by cases h), (fun h => by cases h.1)⟩
  | ok w =>
    rw [judge]
    cases hpost : req.postOk w with
    | error e =>
      constructor
      · intro h
        cases h
      · rintro ⟨h, h'⟩
        cases h
        cases hpost.symm.trans h'
    | ok u =>
      constructor
      · intro h
        cases h
        exact ⟨rfl, hpost⟩
      · rintro ⟨h, -⟩
        cases h
        rfl

/-- Only `NotFound` is tagged as `NotFound`. -/
theorem isNotFound_tagErr (name : String) (e : BorsaError) :
    (tagErr name e).isNotFound = e.isNotFound := by
  cases e <;> rfl

/-- A failed fetch is `NotFound` when every call is. -/
theorem collapseErrors_eq_notFound {capability : Capability} {attemptedAny : Bool}
    {errors : List BorsaError} {what label : String}
    (h : collapseErrors capability attemptedAny errors (some label) = .notFound what) :
    attemptedAny = true ∧ what = label ∧ errors ≠ [] ∧ ∀ e ∈ errors, e.isNotFound = true := by
  simp only [collapseErrors] at h
  split_ifs at h with h1 h2 h3
  cases h
  simp_all

section
variable {r : RequestState K E V} {conns : List (StackTraffic V)} {capability : Capability}
  {seen : List (Connector K × Option (Fut V))}

/-- A value is one that a call of the request has come back with, and passes the check. -/
theorem RequestState.Saw.gives {won : Prop} {x : Connector K × Option (Fut V)}
    (h : r.Saw conns won x) {v : V} (hg : Gives capability v x) :
    ∃ a ∈ r.asks, a.connector = x.1 ∧ r.request.provider a.connector = some a.stack ∧
      a.Answered conns (.ok v) ∧ r.request.postOk v = .ok () := by
  obtain ⟨fut, hx, hv⟩ := hg
  rw [providerCallWithTimeout_eq_ok] at hv
  cases h with
  | unable hk => cases hx
  | @answered a res ha hk hres =>
    cases hx
    obtain ⟨rfl, hpost⟩ := Request.judge_eq_ok.1 (Option.some.inj hv)
    exact ⟨a, ha, rfl, hk, hres, hpost⟩
  | timedOut ha hk hd =>
    cases hx
    cases hv
  | left hk hwon =>
    cases hx
    cases hv

/-- The call `a` has come to the error `err`: it was dropped when the provider timeout had passed, or it
failed, or its value did not pass the check. -/
inductive RequestState.Lacks (r : RequestState K E V) (conns : List (StackTraffic V)) (a : Ask K) :
    BorsaError → Prop
  | timedOut (hd : a.Dropped conns) :
    Lacks r conns a (.providerTimeout a.connector.name r.request.capability.asStr)
  | judged {raw : Except BorsaError V} {err : BorsaError} (hres : a.Answered conns raw)
    (hjudge : r.request.judge raw = .error err) : Lacks r conns a err

theorem RequestState.Saw.lacks {x : Connector K × Option (Fut V)} (h : r.Saw conns False x)
    {k : ℕ} (hk : r.request.provider x.1 = some k)
    (hv : ∀ v, ¬ Gives r.request.capability v x) :
    ∃ fut err, x.2 = some fut ∧
      providerCallWithTimeout x.1.name r.request.capability fut = .error err ∧
      ∃ a ∈ r.asks, a.connector = x.1 ∧ a.stack = k ∧ r.Lacks conns a err := by
  cases h with
  | unable hnone => cases hnone.symm.trans hk
  | @answered a raw ha hk' hres =>
    cases hk'.symm.trans hk
    cases hjudge : r.request.judge raw with
    | ok v =>
      refine absurd ⟨_, rfl, ?_⟩ (hv v)
      exact providerCallWithTimeout_eq_ok.2 (congrArg some hjudge)
    | error err => exact ⟨_, err, rfl, rfl, a, ha, rfl, rfl, .judged hres hjudge⟩
  | @timedOut a ha hk' hd =>
    cases hk'.symm.trans hk
    exact ⟨_, _, rfl, rfl, a, ha, rfl, rfl, .timedOut hd⟩
  | left hk hwon => exact hwon.elim

/-- An error that a call has come to is among those that are collected. -/
theorem mem_taggedErrors {x : Connector K × Option (Fut V)} (hx : x ∈ seen) {fut : Fut V}
    (hfut : x.2 = some fut) {e : BorsaError}
    (he : providerCallWithTimeout x.1.name capability fut = .error e) :
    tagErr x.1.name e ∈ taggedErrors (outcomes capability seen) := by
  obtain ⟨c, o⟩ := x
  cases hfut
  refine List.mem_filterMap.2 ⟨(c.name, .error e), List.mem_filterMap.2 ⟨_, hx, ?_⟩, rfl⟩
  exact congrArg (fun res => some (c.name, res)) he

/-- Where a call was made there is a provider. -/
theorem exists_provider_of_outcomes (hsaw : ∀ x ∈ seen, r.Saw conns False x)
    (h : (!(outcomes capability seen).isEmpty) = true) :
    ∃ x ∈ seen, (r.request.provider x.1).isSome := by
  obtain ⟨out, hout⟩ : ∃ out, out ∈ outcomes capability seen :=
    List.exists_mem_of_ne_nil _ fun hnil => by simp [hnil] at h
  obtain ⟨x, hx, hsome⟩ := List.mem_filterMap.1 hout
  refine ⟨x, hx, ?_⟩
  cases hsaw x hx with
  | unable hk => cases hsome
  | answered ha hk hres => exact Option.isSome_iff_exists.2 ⟨_, hk⟩
  | timedOut ha hk hd => exact Option.isSome_iff_exists.2 ⟨_, hk⟩
  | left hk hwon => exact Option.isSome_iff_exists.2 ⟨_, hk⟩

variable [DecidableEq K] [DecidableEq E] {borsa : Borsa K E}

/-- What an answer of `fetchSingle` says of what the providers came to, under either strategy. -/
theorem RequestState.Refines.fetched {res : Except BorsaError V} (h : r.Refines borsa conns res) :
    ∃ seen : List (Connector K × Option (Fut V)), seen.map Prod.fst = borsa.ordered r.request.inst ∧
      (∀ x ∈ seen, r.Saw conns (∃ v, res = .ok v) x) ∧
      ((∃ v, res = .ok v ∧ ∃ x ∈ seen, Gives r.request.capability v x) ∨
        (∀ x ∈ seen, ∀ v, ¬ Gives r.request.capability v x) ∧
        ∃ errors, errors.Perm (taggedErrors (outcomes r.request.capability seen)) ∧
          res = .error (collapseErrors r.request.capability
            (!(outcomes r.request.capability seen).isEmpty) errors
            (some (targetLabel r.request.inst r.request.notFoundLabel)))) := by
  obtain ⟨seen, hord, hsaw, hfetch⟩ := h
  refine ⟨seen, hord, hsaw, ?_⟩
  have hnone {outs : List (String × Except BorsaError V)}
      (hperm : outs.Perm (outcomes r.request.capability seen)) (hv : (values outs).head? = none) :
      ∀ x ∈ seen, ∀ v, ¬ Gives r.request.capability v x := by
    intro x hx v hg
    have hmem : v ∈ values outs :=
      (hperm.filterMap _).symm.subset (mem_values_outcomes.2 ⟨x, hx, hg⟩)
    rw [List.head?_eq_none_iff] at hv
    exact absurd (hv ▸ hmem : v ∈ ([] : List V)) List.not_mem_nil
  cases hs : r.request.strategy with
  | priorityWithFallback =>
    rw [hs] at hfetch
    obtain ⟨asked, hfetch, -⟩ := hfetch
    have hfst := congrArg Prod.fst hfetch
    rw [fetchSinglePriorityWithFallback_fst] at hfst
    cases hv : (values (outcomes r.request.capability seen)).head? with
    | some v =>
      rw [hv] at hfst
      exact .inl ⟨v, hfst.symm, mem_values_outcomes.1 (List.mem_of_mem_head? hv)⟩
    | none =>
      rw [hv] at hfst
      exact .inr ⟨hnone .rfl hv, _, .rfl, hfst.symm⟩
  | latency =>
    rw [hs] at hfetch
    obtain ⟨⟨order, hfetch⟩, -⟩ := hfetch
    rw [fetchSingleLatency_eq] at hfetch
    have hperm := order.perm (outcomes r.request.capability seen)
    cases hv : (values (order.arrange (outcomes r.request.capability seen))).head? with
    | some v =>
      rw [hv] at hfetch
      have hmem := (hperm.filterMap _).subset (List.mem_of_mem_head? hv)
      exact .inl ⟨v, hfetch.symm, mem_values_outcomes.1 hmem⟩
    | none =>
      rw [hv] at hfetch
      exact .inr ⟨hnone hperm hv, _, hperm.filterMap _, hfetch.symm⟩

/-- The value of a request is that of one of its calls. -/
theorem RequestState.Refines.gives {v : V} (h : r.Refines borsa conns (.ok v)) :
    ∃ a ∈ r.asks, a.connector ∈ borsa.ordered r.request.inst ∧
      r.request.provider a.connector = some a.stack ∧ a.Answered conns (.ok v) ∧
      r.request.postOk v = .ok () := by
  obtain ⟨seen, hord, hsaw, ⟨w, hw, x, hx, hg⟩ | ⟨-, errors, -, herr⟩⟩ := h.fetched
  · cases hw
    obtain ⟨a, ha, hac, hk, hres, hpost⟩ := (hsaw x hx).gives hg
    refine ⟨a, ha, ?_, hk, hres, hpost⟩
    rw [hac, ← hord]
    exact List.mem_map_of_mem hx
  · cases herr

/-- The error of a request is made of those of its calls, and every provider was called. -/
theorem RequestState.Refines.lacks {e : BorsaError} (h : r.Refines borsa conns (.error e)) :
    ∃ attemptedAny errors, e = collapseErrors r.request.capability attemptedAny errors
        (some (targetLabel r.request.inst r.request.notFoundLabel)) ∧
      (attemptedAny = true →
        ∃ c ∈ borsa.ordered r.request.inst, (r.request.provider c).isSome) ∧
      ∀ c ∈ borsa.ordered r.request.inst, ∀ k, r.request.provider c = some k →
        ∃ a ∈ r.asks, a.connector = c ∧ a.stack = k ∧
          ∃ err, r.Lacks conns a err ∧ tagErr c.name err ∈ errors := by
  obtain ⟨seen, hord, hsaw, ⟨w, hw, -⟩ | ⟨hnone, errors, hperm, herr⟩⟩ := h.fetched
  · cases hw
  · replace hsaw : ∀ x ∈ seen, r.Saw conns False x := by
      refine fun x hx => (hsaw x hx).mono rfl (List.Subset.refl _) (.refl _) ?_
      rintro ⟨v, hv⟩
      cases hv
    refine ⟨_, errors, Except.error.inj herr, ?_, ?_⟩
    · intro hattempted
      obtain ⟨x, hx, hsome⟩ := exists_provider_of_outcomes hsaw hattempted
      exact ⟨x.1, hord ▸ List.mem_map_of_mem hx, hsome⟩
    · intro c hc k hk
      rw [← hord] at hc
      obtain ⟨x, hx, rfl⟩ := List.mem_map.1 hc
      obtain ⟨fut, err, hfut, hcall, a, ha, hac, hak, hlacks⟩ := (hsaw x hx).lacks hk (hnone x hx)
      exact ⟨a, ha, hac, hak, err, hlacks, hperm.symm.subset (mem_taggedErrors hx hfut hcall)⟩

end

/-! ## Quotes -/

/-- What the router reads of a quote, over amounts of money `M`. -/
structure Quote (E M : Type) where
  exchange : Option E
  price : Option M
  previousClose : Option M

/-- `enforce_quote_exchange`. -/
def enforceQuoteExchange {M : Type} [DecidableEq E] (inst : Instrument K E) (q : Quote E M) :
    Except BorsaError Unit :=
  match exchangeOpt inst with
  | none => .ok ()
  | some want =>
    match q.exchange with
    | some have_ =>
      if have_ = want then .ok ()
      else .error (.notFound (targetLabel inst "quote" ++ " (exchange mismatch)"))
    | none => .ok ()

/-- The quote names no exchange, or that of the instrument. -/
def Quote.Matches {M : Type} (q : Quote E M) (inst : Instrument K E) : Prop :=
  ∀ want ∈ exchangeOpt inst, ∀ ex ∈ q.exchange, ex = want

theorem enforceQuoteExchange_cases {M : Type} [DecidableEq E] (inst : Instrument K E)
    (q : Quote E M) : (q.Matches inst ∧ enforceQuoteExchange inst q = .ok ()) ∨
      (¬ q.Matches inst ∧ enforceQuoteExchange inst q =
        .error (.notFound (targetLabel inst "quote" ++ " (exchange mismatch)"))) := by
  unfold enforceQuoteExchange Quote.Matches
  cases exchangeOpt inst with
  | none => exact .inl ⟨(fun want hw => by cases hw), rfl⟩
  | some want =>
    cases q.exchange with
    | none => exact .inl ⟨(fun _ _ ex hex => by cases hex), rfl⟩
    | some ex =>
      by_cases h : ex = want
      · refine .inl ⟨?_, if_pos h⟩
        rintro _ ⟨⟩ _ ⟨⟩
        exact h
      · exact .inr ⟨fun hall => h (hall want rfl ex rfl), if_neg h⟩

/-- `quote`. -/
def Request.quote {M : Type} [DecidableEq E] (strategy : FetchStrategy) (origin : CallOrigin)
    (inst : Instrument K E) (provider : Connector K → Option ℕ) : Request K E (Quote E M) where
  strategy := strategy
  inst := inst
  capability := .quote
  notFoundLabel := "quote"
  origin := origin
  provider := provider
  postOk := enforceQuoteExchange inst

section
variable {M : Type} [DecidableEq K] [DecidableEq E] {self : Borsa K E}
  {strategy : FetchStrategy} {origin : CallOrigin} {inst : Instrument K E}
  {provider : Connector K → Option ℕ}

/-- The call of a provider that has failed to give a quote of the right exchange. -/
def Ask.Fails (a : Ask K) (inst : Instrument K E) (conns : List (StackTraffic (Quote E M))) : Prop :=
  a.Dropped conns ∨ (∃ e, a.Answered conns (.error e)) ∨
    ∃ q : Quote E M, a.Answered conns (.ok q) ∧ ¬ q.Matches inst

/-- The provider has not found a quote of the right exchange. -/
def Ask.NotFinds (a : Ask K) (inst : Instrument K E) (conns : List (StackTraffic (Quote E M))) :
    Prop :=
  (∃ what, a.Answered conns (.error (.notFound what))) ∨
    ∃ q : Quote E M, a.Answered conns (.ok q) ∧ ¬ q.Matches inst

omit [DecidableEq K] in
/-- A call that gave no quote of the right exchange. -/
theorem RequestState.Lacks.fails {r : RequestState K E (Quote E M)}
    {conns : List (StackTraffic (Quote E M))} {a : Ask K} {err : BorsaError}
    (hreq : r.request = .quote strategy origin inst provider) (h : r.Lacks conns a err) :
    a.Fails inst conns ∧ (err.isNotFound = true → a.NotFinds inst conns) := by
  cases h with
  | timedOut hd => exact ⟨.inl hd, (fun h => by cases h)⟩
  | @judged raw err hres hjudge =>
    rw [hreq] at hjudge
    cases raw with
    | error e =>
      cases hjudge
      refine ⟨.inr (.inl ⟨_, hres⟩), fun hnf => .inl ?_⟩
      cases err with
      | notFound what => exact ⟨what, hres⟩
      | _ => cases hnf
    | ok q =>
      have hq : ¬ q.Matches inst := by
        rcases enforceQuoteExchange_cases inst q with ⟨-, hok⟩ | ⟨hq, -⟩
        · cases hjudge.symm.trans (Request.judge_eq_ok.2 ⟨rfl, hok⟩)
        · exact hq
      exact ⟨.inr (.inr ⟨q, hres, hq⟩), fun _ => .inr ⟨q, hres, hq⟩⟩

/-- What the answer to a quote request means, whatever other requests there are and whatever happens at
the stacks. A quote is of the exchange that the instrument names, if it names one, and was given by a
provider that the policy allows. On an error every provider that there is was asked, and none of
them has given such a quote in time. And `NotFound` says that none of them found one. -/
theorem Deployment.quote_answer {conns : List (StackTraffic (Quote E M))}
    {s : Deployment K E (Quote E M)}
    {tr : List (LTS.Step (Deployment K E (Quote E M)) (DeploymentEvent (Quote E M)))}
    (hrun : Path (Step self) (start K E conns) tr s) {r : RequestState K E (Quote E M)}
    (hr : r ∈ s.requests) (hreq : r.request = .quote strategy origin inst provider)
    {running : List (Ask K)} {res : Except BorsaError (Quote E M)}
    (hend : r.place = .ending running (some res)) :
    (∀ q, res = .ok q → q.Matches inst ∧ ∃ a ∈ r.asks, a.connector ∈ self.ordered inst ∧
      provider a.connector = some a.stack ∧ a.Answered s.conns (.ok q)) ∧
    (∀ e, res = .error e → ∀ c ∈ self.ordered inst, ∀ k, provider c = some k →
      ∃ a ∈ r.asks, a.connector = c ∧ a.stack = k ∧ a.Fails inst s.conns) ∧
    ∀ what, res = .error (.notFound what) → what = targetLabel inst "quote" ∧
      (∃ c ∈ self.ordered inst, (provider c).isSome) ∧
      ∀ c ∈ self.ordered inst, ∀ k, provider c = some k →
        ∃ a ∈ r.asks, a.connector = c ∧ a.stack = k ∧ a.NotFinds inst s.conns := by
  have h := follows_of_path hrun r hr
  rw [RequestState.Follows, hend] at h
  have hrefines := h res rfl
  refine ⟨?_, ?_, ?_⟩
  · rintro q rfl
    have hgives := hrefines.gives
    rw [hreq] at hgives
    obtain ⟨a, ha, hord, hk, hres, hpost⟩ := hgives
    rcases enforceQuoteExchange_cases inst q with ⟨hq, -⟩ | ⟨-, herr⟩
    · exact ⟨hq, a, ha, hord, hk, hres⟩
    · cases herr.symm.trans hpost
  · rintro e rfl c hc k hk
    obtain ⟨-, errors, -, -, hlacks⟩ := hrefines.lacks
    rw [hreq] at hlacks
    obtain ⟨a, ha, hac, hak, err, hlack, -⟩ := hlacks c hc k hk
    exact ⟨a, ha, hac, hak, (hlack.fails hreq).1⟩
  · rintro what rfl
    obtain ⟨attemptedAny, errors, hcollapse, hattempted, hlacks⟩ := hrefines.lacks
    rw [hreq] at hcollapse hattempted hlacks
    obtain ⟨htrue, hwhat, -, hnf⟩ := collapseErrors_eq_notFound hcollapse.symm
    refine ⟨hwhat, hattempted htrue, fun c hc k hk => ?_⟩
    obtain ⟨a, ha, hac, hak, err, hlack, hmem⟩ := hlacks c hc k hk
    refine ⟨a, ha, hac, hak, (hlack.fails hreq).2 ?_⟩
    rw [← isNotFound_tagErr c.name]
    exact hnf _ hmem

end

end

/-! ## A run -/

/-- The providers of `pairRouter`, for instruments that name an exchange. -/
def exchangeRouter : Borsa Unit String :=
  ⟨pairRouter.connectors, ⟨⟨⟨[], none⟩, .default⟩, none⟩⟩

/-- A share at an exchange. -/
def listed : Instrument Unit String := ⟨.security ⟨⟨"ABC"⟩, some "NYSE"⟩, ()⟩

/-- The first provider gives a quote from another exchange, and the second one does not name any. -/
theorem exchange_run : ∃ tr, ∃ s : Deployment Unit String (Quote String ℕ),
    Path (Deployment.Step exchangeRouter)
      (.start Unit String [.start _ 0 [], .start _ 0 []]) tr s ∧
    ∃ r ∈ s.requests,
      r.request = .quote .priorityWithFallback .external listed pairRequest.provider ∧
      r.place = .ending [] (some (.ok ⟨none, some 7, none⟩)) := by
  let a : Ask Unit := ⟨⟨"a", fun _ => true, true, true, true⟩, 0, 0⟩
  let b : Ask Unit := ⟨⟨"b", fun _ => true, true, true, true⟩, 1, 0⟩
  let req : Request Unit String (Quote String ℕ) :=
    .quote .priorityWithFallback .external listed pairRequest.provider
  have hrun := Path.snoc (R := Deployment.Step exchangeRouter) (.snoc (.snoc (.snoc (.snoc (.snoc
    (.snoc (.snoc (.snoc (.snoc (.snoc .nil
    (.receive (.start Unit String [.start _ 0 [], .start _ 0 []]) req
      pairRequest_provider_lt))
    (.request (i := 0) rfl
      (.ask (a := a) rfl ⟨⟨_, _, rfl, .arrive _ .external, rfl⟩, rfl, rfl, rfl⟩)))
    (.stack (k := 0) ⟨_, _, rfl, .act (i := 0) (show _ ≤ 1 by decide) rfl (.reach rfl), rfl⟩
      (fun h => by cases h)))
    (.stack (k := 0) ⟨_, _, rfl, .act (i := 0) (show _ ≤ 2 by decide) rfl
      (.answer (.ok ⟨some "LSE", some 8, none⟩) rfl), rfl⟩ (fun h => by cases h)))
    (.stack (k := 0) ⟨_, _, rfl, .act (i := 0) (show _ ≤ 3 by decide) rfl (.finish rfl), rfl⟩
      (fun h => by cases h)))
    (.request (i := 0) rfl (.answered (a := a) rfl ⟨_, rfl, rfl⟩)))
    (.request (i := 0) rfl
      (.ask (a := b) rfl ⟨⟨_, _, rfl, .arrive _ .external, rfl⟩, rfl, rfl, rfl⟩)))
    (.stack (k := 1) ⟨_, _, rfl, .act (i := 0) (show _ ≤ 4 by decide) rfl (.reach rfl), rfl⟩
      (fun h => by cases h)))
    (.stack (k := 1) ⟨_, _, rfl, .act (i := 0) (show _ ≤ 5 by decide) rfl
      (.answer (.ok ⟨none, some 7, none⟩) rfl), rfl⟩ (fun h => by cases h)))
    (.stack (k := 1) ⟨_, _, rfl, .act (i := 0) (show _ ≤ 6 by decide) rfl (.finish rfl), rfl⟩
      (fun h => by cases h)))
    (.request (i := 0) rfl (.answered (a := b) rfl ⟨_, rfl, rfl⟩))
  exact ⟨_, _, hrun, _, List.mem_singleton_self _, rfl, rfl⟩

theorem exchange_quote_answer : ∃ tr, ∃ s : Deployment Unit String (Quote String ℕ),
    Path (Deployment.Step exchangeRouter)
      (.start Unit String [.start _ 0 [], .start _ 0 []]) tr s ∧
    ∃ r ∈ s.requests, ∃ a ∈ r.asks, a.connector ∈ exchangeRouter.ordered listed ∧
      a.Answered s.conns (.ok ⟨none, some 7, none⟩) := by
  obtain ⟨tr, s, hrun, r, hr, hreq, hend⟩ := exchange_run
  obtain ⟨hok, -⟩ := Deployment.quote_answer hrun hr hreq hend
  obtain ⟨-, a, ha, hord, -, hres⟩ := hok _ rfl
  exact ⟨tr, s, hrun, r, hr, a, ha, hord, hres⟩

end Borsa
