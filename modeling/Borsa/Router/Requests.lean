import Borsa.Fetch
import Borsa.Lib.Simulation
import Borsa.Middleware.Traffic

/-!
# Concurrent requests

`fetchSingle` says what comes of one request when the outcomes of its provider calls are given. In the
program a request is a task among others, and its calls go through the stacks of the providers, where
the calls of other requests are.

A `Deployment` is the stacks of the providers with the requests that have been made. Under
`priorityWithFallback` a request makes one call, waits until it has come back or the provider timeout
has passed, and goes on to the next provider. Under `latency` it makes the calls of all providers and
waits for any of them. Once it has an answer, or when its own caller drops it, the calls that it still
has under way are dropped, one after the other.

The stacks are those of `Borsa.Middleware.Traffic`: they have no cache, their quotas have positive
windows and the deadlines of their blacklists are instants, since a layer panics otherwise.
-/

namespace Borsa

open LTS

section
variable {K E V : Type}

/-- A request to `fetch_single`. -/
structure Request (K E V : Type) where
  strategy : FetchStrategy
  inst : Instrument K E
  capability : Capability
  notFoundLabel : String
  origin : CallOrigin
  /-- The stack of a connector, unless it has no provider for the capability and the asset kind. -/
  provider : Connector K → Option ℕ
  /-- `post_ok`. -/
  postOk : V → Except BorsaError Unit

/-- A call that a request has made. -/
structure Ask (K : Type) where
  connector : Connector K
  /-- The stack of the provider, and the call there. -/
  stack : ℕ
  id : ℕ

/-- Where a request is. -/
inductive RequestPlace (K V : Type) where
  /-- In the loop over the providers. -/
  | next (rest : List (Connector K × Option ℕ)) (attemptedAny : Bool) (errors : List BorsaError)
  /-- It waits for a call. -/
  | asking (ask : Ask K) (rest : List (Connector K × Option ℕ)) (errors : List BorsaError)
  /-- It waits for any of its calls, some of which have not started. -/
  | racing (futs : List (Connector K × ℕ)) (running : List (Ask K)) (attemptedAny : Bool)
    (errors : List BorsaError)
  /-- It has an answer, or has been dropped, and drops its calls under way. -/
  | ending (running : List (Ask K)) (answer : Option (Except BorsaError V))

/-- A request, with the calls it has made. -/
structure RequestState (K E V : Type) where
  request : Request K E V
  place : RequestPlace K V
  asks : List (Ask K)

/-! ## The calls of a request -/

namespace Request

/-- What the future of a call makes of the provider's answer. -/
def judge (req : Request K E V) : Except BorsaError V → Except BorsaError V
  | .ok v => (req.postOk v).map fun _ => v
  | .error e => .error e

variable [DecidableEq K] [DecidableEq E]

/-- The providers in the order of the policy. -/
def plan (req : Request K E V) (self : Borsa K E) : List (Connector K × Option ℕ) :=
  (self.ordered req.inst).map fun c => (c, req.provider c)

/-- The futures of the race. -/
def futs (req : Request K E V) (self : Borsa K E) : List (Connector K × ℕ) :=
  (req.plan self).filterMap fun (c, provider) => provider.map fun k => (c, k)

/-- A request that has just been made. -/
def received (req : Request K E V) (self : Borsa K E) : RequestState K E V where
  request := req
  place :=
    match req.strategy with
    | .priorityWithFallback => .next (req.plan self) false []
    | .latency => .racing (req.futs self) [] (!(req.futs self).isEmpty) []
  asks := []

end Request

/-- One step at the stack `k`. -/
def StackStep (k : ℕ) (conns : List (StackTraffic V)) (e : TrafficEvent V)
    (conns' : List (StackTraffic V)) : Prop :=
  ∃ s s', conns[k]? = some s ∧ StackTraffic.Step s e s' ∧ conns' = conns.set k s'

namespace Ask

/-- The call at its stack. -/
def callAt (a : Ask K) (conns : List (StackTraffic V)) : Option (CallState V) :=
  conns[a.stack]?.bind fun s => s.calls[a.id]?

/-- Which call it is. -/
def key (a : Ask K) : ℕ × ℕ := (a.stack, a.id)

/-- The call has been answered. -/
def Answered (a : Ask K) (conns : List (StackTraffic V)) (res : Except BorsaError V) : Prop :=
  ∃ c, a.callAt conns = some c ∧ c.place = .gone (some res)

/-- The call has been dropped. -/
def Dropped (a : Ask K) (conns : List (StackTraffic V)) : Prop :=
  ∃ c, a.callAt conns = some c ∧ c.place = .gone none

/-- The call comes to its stack. -/
structure Starts (a : Ask K) (origin : CallOrigin) (conns : List (StackTraffic V))
    (e : TrafficEvent V) (conns' : List (StackTraffic V)) : Prop where
  step : StackStep a.stack conns e conns'
  act : e.act = .arrive
  id : e.id = a.id
  origin : e.call.origin = origin

/-- The future of the call is dropped. -/
structure Drops (a : Ask K) (conns : List (StackTraffic V)) (e : TrafficEvent V)
    (conns' : List (StackTraffic V)) : Prop where
  step : StackStep a.stack conns e conns'
  act : e.act = .drop
  id : e.id = a.id

end Ask

namespace RequestPlace

/-- The calls under way. -/
def running : RequestPlace K V → List (Ask K)
  | .next .. => []
  | .asking ask _ _ => [ask]
  | .racing _ running _ _ => running
  | .ending running _ => running

/-- The request waits, and can be dropped. -/
def Waits : RequestPlace K V → Prop
  | .next .. | .asking .. | .racing .. => True
  | .ending .. => False

/-- After the call `ask` has come to a result. -/
def fallback (ask : Ask K) (rest : List (Connector K × Option ℕ)) (errors : List BorsaError) :
    Except BorsaError V → RequestPlace K V
  | .ok v => .ending [] (some (.ok v))
  | .error e => .next rest true (errors ++ [fallbackError ask.connector.name e])

/-- After the first call of the race has come to a result. -/
def race (futs : List (Connector K × ℕ)) (ask : Ask K) (running : List (Ask K)) (attemptedAny : Bool)
    (errors : List BorsaError) : Except BorsaError V → RequestPlace K V
  | .ok v => .ending running (some (.ok v))
  | .error e => .racing futs running attemptedAny (errors ++ [latencyError ask.connector.name e])

end RequestPlace

/-! ## What a request does -/

/-- What a request can do, with what it does at a stack. -/
inductive RequestStep (conns : List (StackTraffic V)) (r : RequestState K E V) :
    Option (ℕ × TrafficEvent V) → List (StackTraffic V) → RequestState K E V → Prop
  | skip {c : Connector K} {rest : List (Connector K × Option ℕ)} {attemptedAny : Bool}
    {errors : List BorsaError} (hp : r.place = .next ((c, none) :: rest) attemptedAny errors) :
    RequestStep conns r none conns { r with place := .next rest attemptedAny errors }
  | ask {a : Ask K} {rest : List (Connector K × Option ℕ)} {attemptedAny : Bool}
    {errors : List BorsaError} {e : TrafficEvent V} {conns' : List (StackTraffic V)}
    (hp : r.place = .next ((a.connector, some a.stack) :: rest) attemptedAny errors)
    (hs : a.Starts r.request.origin conns e conns') :
    RequestStep conns r (some (a.stack, e)) conns'
      { r with place := .asking a rest errors, asks := r.asks ++ [a] }
  | answered {a : Ask K} {rest : List (Connector K × Option ℕ)} {errors : List BorsaError}
    {res : Except BorsaError V} (hp : r.place = .asking a rest errors)
    (ha : a.Answered conns res) :
    RequestStep conns r none conns
      { r with
        place := .fallback a rest errors (providerCallWithTimeout a.connector.name
          r.request.capability (some (r.request.judge res))) }
  | timedOut {a : Ask K} {rest : List (Connector K × Option ℕ)} {errors : List BorsaError}
    {e : TrafficEvent V} {conns' : List (StackTraffic V)} (hp : r.place = .asking a rest errors)
    (hd : a.Drops conns e conns') :
    RequestStep conns r (some (a.stack, e)) conns'
      { r with
        place := .fallback a rest errors (providerCallWithTimeout a.connector.name
          r.request.capability none) }
  | exhausted {attemptedAny : Bool} {errors : List BorsaError}
    (hp : r.place = .next [] attemptedAny errors) :
    RequestStep conns r none conns
      { r with
        place := .ending [] (some (.error (collapseErrors r.request.capability attemptedAny errors
          (some (targetLabel r.request.inst r.request.notFoundLabel))))) }
  /-- The future of a provider is polled for the first time. -/
  | start {pre post : List (Connector K × ℕ)} {a : Ask K} {running : List (Ask K)}
    {attemptedAny : Bool} {errors : List BorsaError} {e : TrafficEvent V}
    {conns' : List (StackTraffic V)}
    (hp : r.place = .racing (pre ++ (a.connector, a.stack) :: post) running attemptedAny errors)
    (hs : a.Starts r.request.origin conns e conns') :
    RequestStep conns r (some (a.stack, e)) conns'
      { r with
        place := .racing (pre ++ post) (running ++ [a]) attemptedAny errors
        asks := r.asks ++ [a] }
  | raceAnswered {futs : List (Connector K × ℕ)} {pre post : List (Ask K)} {a : Ask K}
    {attemptedAny : Bool} {errors : List BorsaError} {res : Except BorsaError V}
    (hp : r.place = .racing futs (pre ++ a :: post) attemptedAny errors)
    (ha : a.Answered conns res) :
    RequestStep conns r none conns
      { r with
        place := .race futs a (pre ++ post) attemptedAny errors (providerCallWithTimeout
          a.connector.name r.request.capability (some (r.request.judge res))) }
  | raceTimedOut {futs : List (Connector K × ℕ)} {pre post : List (Ask K)} {a : Ask K}
    {attemptedAny : Bool} {errors : List BorsaError} {e : TrafficEvent V}
    {conns' : List (StackTraffic V)}
    (hp : r.place = .racing futs (pre ++ a :: post) attemptedAny errors)
    (hd : a.Drops conns e conns') :
    RequestStep conns r (some (a.stack, e)) conns'
      { r with
        place := .race futs a (pre ++ post) attemptedAny errors (providerCallWithTimeout
          a.connector.name r.request.capability none) }
  | raceOver {attemptedAny : Bool} {errors : List BorsaError}
    (hp : r.place = .racing [] [] attemptedAny errors) :
    RequestStep conns r none conns
      { r with
        place := .ending [] (some (.error (if attemptedAny then
          collapseErrors r.request.capability attemptedAny errors
            (some (targetLabel r.request.inst r.request.notFoundLabel))
          else .unsupported r.request.capability.asStr))) }
  /-- The caller drops the request. -/
  | cancel (hp : r.place.Waits) :
    RequestStep conns r none conns { r with place := .ending r.place.running none }
  /-- A call that is no longer waited for is dropped. -/
  | drop {pre post : List (Ask K)} {a : Ask K} {answer : Option (Except BorsaError V)}
    {e : TrafficEvent V} {conns' : List (StackTraffic V)}
    (hp : r.place = .ending (pre ++ a :: post) answer) (hd : a.Drops conns e conns') :
    RequestStep conns r (some (a.stack, e)) conns'
      { r with place := .ending (pre ++ post) answer }
  /-- It has come back in the meantime. -/
  | forget {pre post : List (Ask K)} {a : Ask K} {answer : Option (Except BorsaError V)}
    {res : Except BorsaError V} (hp : r.place = .ending (pre ++ a :: post) answer)
    (ha : a.Answered conns res) :
    RequestStep conns r none conns { r with place := .ending (pre ++ post) answer }

/-! ## Requests among others -/

/-- The stacks of the providers, and the requests that have been made. -/
structure Deployment (K E V : Type) where
  conns : List (StackTraffic V)
  requests : List (RequestState K E V)

/-- What happened: a request was made; a request did something, perhaps at a stack; or something happened
at a stack. -/
inductive DeploymentEvent (V : Type) where
  | receive
  | request (i : ℕ) (traffic : Option (ℕ × TrafficEvent V))
  | stack (k : ℕ) (e : TrafficEvent V)

/-- What happened at the stack `k`. -/
def DeploymentEvent.at (k : ℕ) : DeploymentEvent V → Option (TrafficEvent V)
  | .receive => none
  | .request _ traffic => traffic.bind fun (k', e) => if k' = k then some e else none
  | .stack k' e => if k' = k then some e else none

namespace Deployment

variable [DecidableEq K] [DecidableEq E]

/-- The stacks, before any request. -/
def start (K E : Type) (conns : List (StackTraffic V)) : Deployment K E V := ⟨conns, []⟩

/-- A call is under way for some request. -/
def Owned (s : Deployment K E V) (k id : ℕ) : Prop :=
  ∃ r ∈ s.requests, ∃ a ∈ r.place.running, a.stack = k ∧ a.id = id

/-- One step. What is not done by these requests at the stacks is done by others: the stacks take steps
of their own, and other calls come and are dropped. -/
inductive Step (self : Borsa K E) : Deployment K E V → DeploymentEvent V → Deployment K E V → Prop
  | receive (s : Deployment K E V) (req : Request K E V)
    (hk : ∀ c k, req.provider c = some k → k < s.conns.length) :
    Step self s .receive { s with requests := s.requests ++ [req.received self] }
  | request {s : Deployment K E V} {i : ℕ} {r r' : RequestState K E V}
    {traffic : Option (ℕ × TrafficEvent V)} {conns : List (StackTraffic V)}
    (hr : s.requests[i]? = some r) (h : RequestStep s.conns r traffic conns r') :
    Step self s (.request i traffic) ⟨conns, s.requests.set i r'⟩
  | stack {s : Deployment K E V} {k : ℕ} {e : TrafficEvent V} {conns : List (StackTraffic V)}
    (h : StackStep k s.conns e conns) (hown : e.act = .drop → ¬ s.Owned k e.id) :
    Step self s (.stack k e) { s with conns := conns }

end Deployment

/-! ## What steps do to the calls -/

theorem CallStep.not_gone {layers layers' : List Guard} {c c' : CallState V} {time : ℕ}
    {a : CallAct V} (h : CallStep layers c time a layers' c')
    (answer : Option (Except BorsaError V)) : c.place ≠ .gone answer := by
  intro hg
  cases h with
  | drop hp =>
    rw [hg] at hp
    exact hp
  | answer res hp => cases hg.symm.trans hp
  | _ hp => cases hg.symm.trans hp

/-- Only by being dropped does a call end without an answer. -/
theorem CallStep.dropped {layers layers' : List Guard} {c c' : CallState V} {time : ℕ}
    {a : CallAct V} (h : CallStep layers c time a layers' c') (hg : c'.place = .gone none) :
    a = .drop := by
  cases h with
  | @enter depth g hp hl =>
    cases hres : (g.preCall c.origin time).2 with
    | ok u =>
      rw [hres] at hg
      cases hg
    | error err =>
      rw [hres] at hg
      cases hg
  | drop hp => rfl
  | _ => cases hg

/-- A call stays, and moves only in steps of its own and until it has ended. -/
theorem StackTraffic.Step.call {s s' : StackTraffic V} {e : TrafficEvent V}
    (h : StackTraffic.Step s e s') {id : ℕ} {c : CallState V} (hc : s.calls[id]? = some c) :
    ∃ c', s'.calls[id]? = some c' ∧
      (e.id ≠ id ∨ (∃ answer, c.place = .gone answer) → c' = c) ∧
      (c'.place = .gone none → c.place = .gone none ∨ e.act = .drop ∧ e.id = id) := by
  cases h with
  | arrive origin =>
    obtain ⟨hlt, -⟩ := List.getElem?_eq_some_iff.1 hc
    exact ⟨c, (List.getElem?_append_left hlt).trans hc, fun _ => rfl, .inl⟩
  | @act i time c₀ c' a layers ht hc₀ hcall =>
    rcases eq_or_ne i id with rfl | hne
    · cases hc₀.symm.trans hc
      obtain ⟨hlt, -⟩ := List.getElem?_eq_some_iff.1 hc
      refine ⟨c', List.getElem?_set_self hlt, ?_, fun hg => .inr ⟨hcall.dropped hg, rfl⟩⟩
      rintro (hne | ⟨answer, hg⟩)
      · exact absurd rfl hne
      · exact absurd hg (hcall.not_gone answer)
    · exact ⟨c, (List.getElem?_set_ne hne).trans hc, fun _ => rfl, .inl⟩

section
variable {k : ℕ} {conns conns' : List (StackTraffic V)} {e : TrafficEvent V} {a : Ask K}

theorem StackStep.length (h : StackStep k conns e conns') : conns'.length = conns.length := by
  obtain ⟨s, s', -, -, rfl⟩ := h
  exact List.length_set

/-- A call of a request stays, and moves only in steps of its own and until it has ended. -/
theorem StackStep.callAt (h : StackStep k conns e conns') {c : CallState V}
    (hc : a.callAt conns = some c) :
    ∃ c', a.callAt conns' = some c' ∧
      ((k, e.id) ≠ a.key ∨ (∃ answer, c.place = .gone answer) → c' = c) ∧
      (c'.place = .gone none → c.place = .gone none ∨ e.act = .drop ∧ (k, e.id) = a.key) := by
  obtain ⟨s, s', hs, hstep, rfl⟩ := h
  rcases eq_or_ne k a.stack with rfl | hne
  · rw [Ask.callAt, hs] at hc
    obtain ⟨hlt, -⟩ := List.getElem?_eq_some_iff.1 hs
    obtain ⟨c', hc', hkeep, hdrop⟩ := hstep.call hc
    refine ⟨c', ?_, fun h => hkeep (h.imp_left fun hne hid => hne (Prod.ext rfl hid)),
      fun hg => (hdrop hg).imp_right fun h => ⟨h.1, Prod.ext rfl h.2⟩⟩
    rw [Ask.callAt, List.getElem?_set_self hlt]
    exact hc'
  · refine ⟨c, ?_, fun _ => rfl, .inl⟩
    rwa [Ask.callAt, List.getElem?_set_ne hne]

theorem StackStep.answered (h : StackStep k conns e conns') {res : Except BorsaError V}
    (ha : a.Answered conns res) : a.Answered conns' res := by
  obtain ⟨c, hc, hg⟩ := ha
  obtain ⟨c', hc', hkeep, -⟩ := h.callAt hc
  rw [hkeep (.inr ⟨_, hg⟩)] at hc'
  exact ⟨c, hc', hg⟩

theorem StackStep.dropped (h : StackStep k conns e conns') (ha : a.Dropped conns) :
    a.Dropped conns' := by
  obtain ⟨c, hc, hg⟩ := ha
  obtain ⟨c', hc', hkeep, -⟩ := h.callAt hc
  rw [hkeep (.inr ⟨_, hg⟩)] at hc'
  exact ⟨c, hc', hg⟩

/-- A call that is dropped has ended. -/
theorem Ask.Drops.dropped (h : a.Drops conns e conns') : a.Dropped conns' := by
  obtain ⟨⟨s, s', hs, hstep, rfl⟩, hact, hid⟩ := h
  obtain ⟨hlt, -⟩ := List.getElem?_eq_some_iff.1 hs
  cases hstep with
  | arrive origin => cases hact
  | @act i time c c' act layers ht hc hcall =>
    cases hid
    cases hact
    cases hcall with
    | drop hp =>
      obtain ⟨hlt', -⟩ := List.getElem?_eq_some_iff.1 hc
      refine ⟨{ c with place := .gone none }, ?_, rfl⟩
      rw [Ask.callAt, List.getElem?_set_self hlt]
      exact List.getElem?_set_self hlt'

/-- The steps of a request happen at one stack, or at none. -/
theorem RequestStep.stackStep {r r' : RequestState K E V} {traffic : Option (ℕ × TrafficEvent V)}
    (h : RequestStep conns r traffic conns' r') :
    (traffic = none ∧ conns' = conns) ∨
      ∃ k e, traffic = some (k, e) ∧ StackStep k conns e conns' := by
  cases h with
  | ask hp hs => exact .inr ⟨_, _, rfl, hs.step⟩
  | start hp hs => exact .inr ⟨_, _, rfl, hs.step⟩
  | timedOut hp hd => exact .inr ⟨_, _, rfl, hd.step⟩
  | raceTimedOut hp hd => exact .inr ⟨_, _, rfl, hd.step⟩
  | drop hp hd => exact .inr ⟨_, _, rfl, hd.step⟩
  | _ => exact .inl ⟨rfl, rfl⟩

/-- A step happens at one stack, or at none. -/
theorem Deployment.Step.stackStep [DecidableEq K] [DecidableEq E] {self : Borsa K E}
    {s s' : Deployment K E V} {e : DeploymentEvent V} (h : Step self s e s') :
    s'.conns = s.conns ∨ ∃ k e, StackStep k s.conns e s'.conns := by
  cases h with
  | receive req hk => exact .inl rfl
  | request hr hreq =>
    rcases hreq.stackStep with ⟨-, heq⟩ | ⟨k, e, -, h⟩
    · exact .inl heq
    · exact .inr ⟨k, e, h⟩
  | stack h hown => exact .inr ⟨_, _, h⟩

end

end

/-! ## A run -/

/-- Two providers in the order of their registration. -/
def pairRouter : Borsa Unit Unit :=
  let connector (name : String) : Connector Unit := ⟨name, fun _ => true, true, true, true⟩
  ⟨[connector "a", connector "b"], ⟨⟨⟨[], none⟩, .default⟩, none⟩⟩

/-- A request for a quote with fallback. -/
def pairRequest : Request Unit Unit ℕ where
  strategy := .priorityWithFallback
  inst := ⟨.prediction, ()⟩
  capability := .quote
  notFoundLabel := "quote"
  origin := .external
  provider c := if c.name = "a" then some 0 else some 1
  postOk _ := .ok ()

theorem pairRequest_provider_lt (c : Connector Unit) (k : ℕ)
    (h : pairRequest.provider c = some k) : k < 2 := by
  rcases ite_eq_or_eq (c.name = "a") (some 0) (some 1) with hc | hc
  · cases hc.symm.trans h
    decide
  · cases hc.symm.trans h
    decide

/-- The first provider does not answer in time, and the second one does. -/
theorem pairRouter_run : ∃ tr, ∃ s : Deployment Unit Unit ℕ,
    Path (Deployment.Step pairRouter) (.start Unit Unit [.start ℕ 0 [], .start ℕ 0 []]) tr s ∧
    ∃ r ∈ s.requests, r.request = pairRequest ∧ r.place = .ending [] (some (.ok 7)) ∧
      r.asks.map Ask.key = [(0, 0), (1, 0)] := by
  let a : Ask Unit := ⟨⟨"a", fun _ => true, true, true, true⟩, 0, 0⟩
  let b : Ask Unit := ⟨⟨"b", fun _ => true, true, true, true⟩, 1, 0⟩
  have hrun := Path.snoc (R := Deployment.Step pairRouter) (.snoc (.snoc (.snoc (.snoc (.snoc
    (.snoc (.snoc .nil
    (.receive (.start Unit Unit [.start ℕ 0 [], .start ℕ 0 []]) pairRequest
      pairRequest_provider_lt))
    (.request (i := 0) rfl
      (.ask (a := a) rfl ⟨⟨_, _, rfl, .arrive _ .external, rfl⟩, rfl, rfl, rfl⟩)))
    (.request (i := 0) rfl (.timedOut (a := a) rfl
      ⟨⟨_, _, rfl, .act (i := 0) (show _ ≤ 5 by decide) rfl (.drop trivial), rfl⟩, rfl, rfl⟩)))
    (.request (i := 0) rfl
      (.ask (a := b) rfl ⟨⟨_, _, rfl, .arrive _ .external, rfl⟩, rfl, rfl, rfl⟩)))
    (.stack (k := 1) ⟨_, _, rfl, .act (i := 0) (show _ ≤ 6 by decide) rfl (.reach rfl), rfl⟩
      (fun h => by cases h)))
    (.stack (k := 1)
      ⟨_, _, rfl, .act (i := 0) (show _ ≤ 7 by decide) rfl (.answer (.ok 7) rfl), rfl⟩
      (fun h => by cases h)))
    (.stack (k := 1) ⟨_, _, rfl, .act (i := 0) (show _ ≤ 7 by decide) rfl (.finish rfl), rfl⟩
      (fun h => by cases h)))
    (.request (i := 0) rfl (.answered (a := b) rfl ⟨_, rfl, rfl⟩))
  exact ⟨_, _, hrun, _, List.mem_singleton_self _, rfl, rfl, rfl⟩

end Borsa
